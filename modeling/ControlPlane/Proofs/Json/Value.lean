import ControlPlane.Proofs.Json.Number
import Mathlib.Data.List.Forall2

/-! # Lists, objects and nested values that are written are read

A list is written as its items with commas between them, and an object as its members. A reader
takes a text if it reads the value off it and leaves what stands behind, as long as that is nothing
or a comma or a closing bracket. Readers that take the items take the list, and members taken one
after the other are the object.
-/
namespace ControlPlane.Json

/-- A text with one comma between two parts. -/
def commas : List Bytes → Bytes
  | [] => []
  | part :: parts => part ++ parts.flatMap (0x2C :: ·)

/-- A member by its name and the text of its value. -/
def memberText (member : String × Bytes) : Bytes := renderString member.1 ++ 0x3A :: member.2

theorem renderItems_eq (vs : List Value) : renderItems vs = commas (vs.map render) := by
  induction vs with
  | nil => rfl
  | cons v vs ih =>
    cases vs with
    | nil => simp [renderItems, commas]
    | cons w vs =>
      rw [renderItems, ih]
      rfl

theorem renderMembers_eq (ms : List (String × Value)) :
    renderMembers ms = commas (ms.map fun m => memberText (m.1, render m.2)) := by
  induction ms with
  | nil => rfl
  | cons m ms ih =>
    cases ms with
    | nil => simp [renderMembers, commas, memberText]
    | cons m' ms =>
      rw [renderMembers, ih]
      rfl

theorem render_array (vs : List Value) :
    render (.array vs) = 0x5B :: commas (vs.map render) ++ [0x5D] := by
  rw [render, renderItems_eq]

theorem render_object (ms : List (String × Value)) :
    render (.object ms) =
      0x7B :: commas (ms.map fun m => memberText (m.1, render m.2)) ++ [0x7D] := by
  rw [render, renderMembers_eq]

namespace IsLine

theorem commas {parts : List Bytes} (h : ∀ part ∈ parts, IsLine part) :
    IsLine (Json.commas parts) := by
  cases parts with
  | nil => exact nil
  | cons part parts =>
    have hmore : IsLine (parts.flatMap (0x2C :: ·)) :=
      flatMap fun p hp => (h p (List.mem_cons_of_mem part hp)).cons (by decide) (by decide)
    exact (h part List.mem_cons_self).append hmore

theorem memberText {member : String × Bytes} (h : IsLine member.2) :
    IsLine (Json.memberText member) :=
  (renderString member.1).append (h.cons (by decide) (by decide))

theorem array {vs : List Value} (h : ∀ v ∈ vs, IsLine (render v)) :
    IsLine (render (.array vs)) := by
  rw [render_array]
  have hbody : IsLine (Json.commas (vs.map render)) := commas fun _ hpart => by
    obtain ⟨v, hv, rfl⟩ := List.mem_map.1 hpart
    exact h v hv
  exact (hbody.cons (by decide) (by decide)).append (byte (by decide) (by decide))

theorem object {ms : List (String × Value)} (h : ∀ m ∈ ms, IsLine (render m.2)) :
    IsLine (render (.object ms)) := by
  rw [render_object]
  have hbody : IsLine (Json.commas (ms.map fun m => Json.memberText (m.1, render m.2))) :=
    commas fun _ hpart => by
    obtain ⟨m, hm, rfl⟩ := List.mem_map.1 hpart
    exact memberText (h m hm)
  exact (hbody.cons (by decide) (by decide)).append (byte (by decide) (by decide))

end IsLine

/-! ## What stands in front and behind -/

/-- The text begins with a byte that is no blank and closes no list, as every value does. -/
def Starts (text : Bytes) : Prop := ∃ b bs, text = b :: bs ∧ isSpace b = false ∧ b ≠ 0x5D

namespace Starts
variable {text : Bytes}

theorem cons {b : UInt8} (hb : isSpace b = false ∧ b ≠ 0x5D) (bs : Bytes) : Starts (b :: bs) :=
  ⟨b, bs, rfl, hb⟩

theorem append (h : Starts text) (rest : Bytes) : Starts (text ++ rest) := by
  obtain ⟨b, bs, rfl, hb⟩ := h
  exact cons hb (bs ++ rest)

theorem length_pos (h : Starts text) : 0 < text.length := by
  obtain ⟨b, bs, rfl, -⟩ := h
  exact Nat.succ_pos _

end Starts

namespace Reader
variable {α β σ : Type} {read : Reader α} {text rest : Bytes} {a : α}

/-- The reader reads `a` off the whole text and leaves what comes behind it. -/
def Takes (read : Reader α) (text : Bytes) (a : α) : Prop :=
  ∀ rest, Ends rest → read (text ++ rest) = .ok (a, rest)

theorem Takes.map {f : α → β} (h : Takes read text a) :
    Takes (do return f (← read)) text (f a) := by
  intro rest hrest
  rw [bind_of_ok (h rest hrest)]
  rfl

theorem map_of_ok {bytes : Bytes} (h : read bytes = .ok (a, rest)) (f : α → β) :
    (f <$> read) bytes = .ok (f a, rest) := by
  change (read bytes >>= fun (a, rest) => .ok (f a, rest)) = _
  rw [h]
  rfl

/-- The one document that a text holds. -/
theorem Takes.document (h : Takes read text a) : document read text = .ok a := by
  have hread := h [] ends_nil
  rw [List.append_nil] at hread
  rw [Reader.document, hread]
  rfl

theorem peek_cons {b : UInt8} (h : isSpace b = false) (bs : Bytes) :
    peek (b :: bs) = .ok (some b, b :: bs) := by
  simp [peek, skipSpace, h]

theorem mark_cons {b : UInt8} (h : isSpace b = false) (bs : Bytes) :
    mark b (b :: bs) = .ok ((), bs) := by
  rw [mark, bind_of_ok (peek_cons h bs), if_pos rfl]
  rfl

theorem exactly_append (word rest : Bytes) : exactly word (word ++ rest) = .ok ((), rest) := by
  simp [exactly]

/-! ## Items -/

theorem hasItem_end (isFirst : Bool) (rest : Bytes) :
    hasItem isFirst (0x5D :: rest) = .ok (false, 0x5D :: rest) := by
  rw [hasItem, bind_of_ok (peek_cons rfl rest)]
  rfl

theorem hasItem_first (h : Starts text) : hasItem true text = .ok (true, text) := by
  obtain ⟨b, bs, rfl, hspace, hend⟩ := h
  rw [hasItem, bind_of_ok (peek_cons hspace bs)]
  simp only [if_true]
  rfl

theorem hasItem_comma (h : Starts text) : hasItem false (0x2C :: text) = .ok (true, text) := by
  obtain ⟨b, bs, rfl, hspace, hend⟩ := h
  rw [hasItem, bind_of_ok (peek_cons rfl _)]
  have hdrop : drop (0x2C :: b :: bs) = .ok ((), b :: bs) := rfl
  refine (bind_of_ok hdrop).trans ?_
  rw [bind_of_ok (peek_cons hspace bs)]
  simp [hend]
  rfl

theorem ends_flatMap (parts : List Bytes) {b : UInt8} (h : b = 0x5D ∨ b = 0x7D) (rest : Bytes) :
    Ends (parts.flatMap (0x2C :: ·) ++ b :: rest) := by
  cases parts with
  | nil => exact ends_cons (.inr h) rest
  | cons part parts => exact ends_cons (.inl rfl) _

private theorem items_more {parts : List Bytes} {as : List α}
    (h : List.Forall₂ (fun text a => Starts text ∧ Takes read text a) parts as) {fuel : Nat}
    (hfuel : parts.length < fuel) (seen : List α) (rest : Bytes) :
    items read fuel false seen (parts.flatMap (0x2C :: ·) ++ 0x5D :: rest) =
      .ok (seen.reverse ++ as, 0x5D :: rest) := by
  induction h generalizing fuel seen with
  | nil =>
    obtain ⟨fuel, rfl⟩ := Nat.exists_eq_succ_of_ne_zero (Nat.ne_zero_of_lt hfuel)
    rw [List.flatMap_nil, List.nil_append, items, bind_of_ok (hasItem_end false rest),
      List.append_nil]
    rfl
  | @cons text a parts as htext _ ih =>
    obtain ⟨fuel, rfl⟩ := Nat.exists_eq_succ_of_ne_zero (Nat.ne_zero_of_lt hfuel)
    obtain ⟨hstarts, htakes⟩ := htext
    rw [List.flatMap_cons, List.append_assoc, List.cons_append, items,
      bind_of_ok (hasItem_comma (hstarts.append _)), if_pos rfl,
      bind_of_ok (htakes _ (ends_flatMap parts (.inl rfl) rest)), ih (Nat.lt_of_succ_lt_succ hfuel)]
    simp

theorem items_commas {parts : List Bytes} {as : List α}
    (h : List.Forall₂ (fun text a => Starts text ∧ Takes read text a) parts as) {fuel : Nat}
    (hfuel : parts.length < fuel) (rest : Bytes) :
    items read fuel true [] (commas parts ++ 0x5D :: rest) = .ok (as, 0x5D :: rest) := by
  obtain ⟨fuel, rfl⟩ := Nat.exists_eq_succ_of_ne_zero (Nat.ne_zero_of_lt hfuel)
  cases h with
  | nil =>
    rw [commas, List.nil_append, items, bind_of_ok (hasItem_end true rest)]
    rfl
  | @cons text a parts as htext hmore =>
    obtain ⟨hstarts, htakes⟩ := htext
    rw [commas, List.append_assoc, items, bind_of_ok (hasItem_first (hstarts.append _)), if_pos rfl,
      bind_of_ok (htakes _ (ends_flatMap parts (.inl rfl) rest)),
      items_more hmore (Nat.lt_of_succ_lt_succ hfuel)]
    rfl

theorem length_le_commas {parts : List Bytes} (h : ∀ part ∈ parts, 0 < part.length) :
    parts.length ≤ (commas parts).length := by
  cases parts with
  | nil => exact Nat.le_refl 0
  | cons part parts =>
    have hpart := h part List.mem_cons_self
    have hmore : parts.length ≤ (parts.flatMap (0x2C :: ·)).length := by
      clear h hpart
      induction parts with
      | nil => exact Nat.le_refl 0
      | cons part parts ih =>
        simp only [List.flatMap_cons, List.length_cons, List.length_append]
        omega
    simp only [commas, List.length_cons, List.length_append]
    omega

/-- The bytes left are fuel enough for all items. -/
theorem bounded_items {parts : List Bytes} {as : List α}
    (h : List.Forall₂ (fun text a => Starts text ∧ Takes read text a) parts as) (rest : Bytes) :
    bounded (fun fuel => items read fuel true []) (commas parts ++ 0x5D :: rest) =
      .ok (as, 0x5D :: rest) := by
  have hstarts : ∀ part ∈ parts, Starts part := by
    clear rest
    induction h with
    | nil => simp
    | cons htext _ ih => exact List.forall_mem_cons.2 ⟨htext.1, ih⟩
  have hlength := length_le_commas fun part hpart => (hstarts part hpart).length_pos
  refine items_commas h ?_ rest
  simp only [List.length_append]
  omega

theorem takes_list {parts : List Bytes} {as : List α}
    (h : List.Forall₂ (fun text a => Starts text ∧ Takes read text a) parts as) :
    Takes (list read) (0x5B :: commas parts ++ [0x5D]) as := by
  intro rest _
  have hdrop (bytes : Bytes) : drop (0x5B :: bytes) = .ok ((), bytes) := rfl
  rw [List.append_assoc, List.singleton_append, List.cons_append, list,
    bind_of_ok (peek_cons rfl _)]
  simp only []
  rw [bind_of_ok (hdrop _), bind_of_ok (bounded_items h rest), bind_of_ok (mark_cons rfl rest)]
  rfl

/-! ## Members -/

/-- The members, each read after the one before, take one state to the other. -/
inductive Folds (step : σ → String → Reader σ) : σ → List (String × Bytes) → σ → Prop
  | nil (s : σ) : Folds step s [] s
  | cons {s s' s'' : σ} {name : String} {text : Bytes} {ms : List (String × Bytes)}
    (h : Takes (step s name) (0x3A :: text) s') (more : Folds step s' ms s'') :
    Folds step s ((name, text) :: ms) s''

theorem nextName_end (isFirst : Bool) (rest : Bytes) :
    nextName isFirst (0x7D :: rest) = .ok (none, 0x7D :: rest) := by
  rw [nextName, bind_of_ok (peek_cons rfl rest)]
  rfl

theorem nextName_first (name : String) (rest : Bytes) :
    nextName true (renderString name ++ rest) = .ok (some name, rest) := by
  have hdrop (bytes : Bytes) : drop (0x22 :: bytes) = .ok ((), bytes) := rfl
  rw [renderString_append, nextName, bind_of_ok (peek_cons rfl _)]
  refine (bind_of_ok (hdrop _)).trans ?_
  rw [bind_of_ok (stringBody_escaped name rest)]
  rfl

theorem nextName_comma (name : String) (rest : Bytes) :
    nextName false (0x2C :: (renderString name ++ rest)) = .ok (some name, rest) := by
  have hdrop (bytes : Bytes) : drop (0x2C :: bytes) = .ok ((), bytes) := rfl
  rw [renderString_append, nextName, bind_of_ok (peek_cons rfl _)]
  refine (bind_of_ok (hdrop _)).trans ?_
  rw [bind_of_ok (mark_cons rfl _), bind_of_ok (stringBody_escaped name rest)]
  rfl

private theorem members_more {step : σ → String → Reader σ} {s s' : σ} {ms : List (String × Bytes)}
    (h : Folds step s ms s') {fuel : Nat} (hfuel : ms.length < fuel) (rest : Bytes) :
    members step fuel false s ((ms.map memberText).flatMap (0x2C :: ·) ++ 0x7D :: rest) =
      .ok (s', 0x7D :: rest) := by
  induction h generalizing fuel with
  | nil s =>
    obtain ⟨fuel, rfl⟩ := Nat.exists_eq_succ_of_ne_zero (Nat.ne_zero_of_lt hfuel)
    rw [List.map_nil, List.flatMap_nil, List.nil_append, members,
      bind_of_ok (nextName_end false rest)]
    rfl
  | @cons s s' s'' name text ms h _ ih =>
    obtain ⟨fuel, rfl⟩ := Nat.exists_eq_succ_of_ne_zero (Nat.ne_zero_of_lt hfuel)
    rw [List.map_cons, List.flatMap_cons, memberText, List.append_assoc, List.cons_append,
      List.append_assoc, members, bind_of_ok (nextName_comma name _)]
    simp only []
    rw [bind_of_ok (h _ (ends_flatMap (ms.map memberText) (.inr rfl) rest)),
      ih (Nat.lt_of_succ_lt_succ hfuel)]

theorem members_commas {step : σ → String → Reader σ} {s s' : σ} {ms : List (String × Bytes)}
    (h : Folds step s ms s') {fuel : Nat} (hfuel : ms.length < fuel) (rest : Bytes) :
    members step fuel true s (commas (ms.map memberText) ++ 0x7D :: rest) =
      .ok (s', 0x7D :: rest) := by
  obtain ⟨fuel, rfl⟩ := Nat.exists_eq_succ_of_ne_zero (Nat.ne_zero_of_lt hfuel)
  cases h with
  | nil s =>
    rw [List.map_nil, commas, List.nil_append, members, bind_of_ok (nextName_end true rest)]
    rfl
  | @cons s s' s'' name text ms h more =>
    rw [List.map_cons, commas, memberText, List.append_assoc, List.append_assoc, members,
      bind_of_ok (nextName_first name _)]
    simp only []
    rw [bind_of_ok (h _ (ends_flatMap (ms.map memberText) (.inr rfl) rest)),
      members_more more (Nat.lt_of_succ_lt_succ hfuel)]

theorem bounded_members {step : σ → String → Reader σ} {s s' : σ} {ms : List (String × Bytes)}
    (h : Folds step s ms s') (rest : Bytes) :
    bounded (fun fuel => members step fuel true s) (commas (ms.map memberText) ++ 0x7D :: rest) =
      .ok (s', 0x7D :: rest) := by
  have hpos : ∀ part ∈ ms.map memberText, 0 < part.length := by
    intro part hpart
    obtain ⟨m, -, rfl⟩ := List.mem_map.1 hpart
    simp [memberText, renderString]
  have hlength := length_le_commas hpos
  refine members_commas h ?_ rest
  simp only [List.length_map] at hlength
  simp only [List.length_append]
  omega

end Reader

/-! ## Values of any shape -/

/-- Values with brackets at most so deep whose numbers are integers of 64 bits. -/
inductive Value.Written : Nat → Value → Prop
  | null (depth : Nat) : Written depth .null
  | bool (depth : Nat) (b : Bool) : Written depth (.bool b)
  | integer (depth : Nat) {n : Int} (h : Reader.IsExact n) : Written depth (.integer n)
  | string (depth : Nat) (s : String) : Written depth (.string s)
  | array {depth : Nat} {vs : List Value} (h : ∀ v ∈ vs, Written depth v) :
      Written (depth + 1) (.array vs)
  | object {depth : Nat} {ms : List (String × Value)} (h : ∀ m ∈ ms, Written depth m.2) :
    Written (depth + 1) (.object ms)

namespace Reader
variable {depth : Nat}

theorem digit_bounds {b : UInt8} (h : isDigit b = true) : 0x30 ≤ b.toNat ∧ b.toNat ≤ 0x39 := by
  simpa [isDigit, UInt8.le_iff_toNat_le] using h

/-- A number begins with a sign or a digit. -/
theorem exists_renderInt (n : Int) :
    ∃ b bs, ascii (Decimal.renderInt n) = b :: bs ∧ (b = 0x2D ∨ isDigit b = true) := by
  obtain ⟨b, bs, hbytes, hb⟩ := exists_digitBytes n.natAbs
  rw [ascii_renderInt, numeralBytes, hbytes]
  by_cases hneg : n < 0
  · exact ⟨0x2D, b :: bs, by simp [hneg], .inl rfl⟩
  · exact ⟨b, bs, by simp [hneg], .inr hb⟩

theorem ne_of_sign_or_digit {b : UInt8} (h : b = 0x2D ∨ isDigit b = true) {x : UInt8}
    (hx : x ≠ 0x2D) (hx' : isDigit x = false) : b ≠ x := by
  rintro rfl
  rcases h with h | h
  · exact hx h
  · rw [hx'] at h
    cases h

theorem isSpace_of_sign_or_digit {b : UInt8} (h : b = 0x2D ∨ isDigit b = true) :
    isSpace b = false := by
  have hne {x : UInt8} (hx : x ≠ 0x2D) (hx' : isDigit x = false) : (b == x) = false :=
    beq_eq_false_iff_ne.2 (ne_of_sign_or_digit h hx hx')
  rw [isSpace, hne (by decide) rfl, hne (by decide) rfl, hne (by decide) rfl, hne (by decide) rfl]
  rfl

theorem starts_renderInt (n : Int) : Starts (ascii (Decimal.renderInt n)) := by
  obtain ⟨b, bs, hbytes, hb⟩ := exists_renderInt n
  rw [hbytes]
  exact Starts.cons ⟨isSpace_of_sign_or_digit hb, ne_of_sign_or_digit hb (by decide) rfl⟩ bs

theorem starts_render {v : Value} (h : v.Written depth) : Starts (render v) := by
  cases h with
  | null => exact Starts.cons (by decide) _
  | bool _ b => cases b <;> exact Starts.cons (by decide) _
  | @integer _ n h => exact starts_renderInt n
  | string => exact Starts.cons (by decide) _
  | array => exact Starts.cons (by decide) _
  | object => exact Starts.cons (by decide) _

/-- Anything that opens no bracket is read as a literal, at whatever depth. -/
theorem value_eq_literal {b : UInt8} (hspace : isSpace b = false) (hlist : b ≠ 0x5B)
    (hobject : b ≠ 0x7B) (bs : Bytes) :
    value depth (b :: bs) = literal b (b :: bs) := by
  cases depth with
  | zero =>
    rw [value, bind_of_ok (peek_cons hspace bs)]
    simp
  | succ depth =>
    rw [value, bind_of_ok (peek_cons hspace bs)]
    simp

theorem literal_string (s : String) (rest : Bytes) :
    literal 0x22 (renderString s ++ rest) = .ok (.string s, rest) := by
  have hdrop (bytes : Bytes) : drop (0x22 :: bytes) = .ok ((), bytes) := rfl
  rw [renderString_append]
  refine (bind_of_ok (hdrop _)).trans ?_
  rw [bind_of_ok (stringBody_escaped s rest)]
  rfl

theorem literal_integer {n : Int} (hn : IsExact n) {b : UInt8} {bs : Bytes}
    (hbytes : ascii (Decimal.renderInt n) = b :: bs) (hb : b = 0x2D ∨ isDigit b = true)
    {rest : Bytes} (hrest : Ends rest) :
    literal b (b :: bs ++ rest) = .ok (.integer n, rest) := by
  have hne {x : UInt8} (hx : x ≠ 0x2D) (hx' : isDigit x = false) : b ≠ x :=
    ne_of_sign_or_digit hb hx hx'
  have hnumber : (decide (b = 0x2D) || isDigit b) = true := by simpa using hb
  have hget : (get : Reader Bytes) (b :: bs ++ rest) = .ok (b :: bs ++ rest, b :: bs ++ rest) := rfl
  rw [literal, if_neg (hne (by decide) rfl), if_neg (hne (by decide) rfl),
    if_neg (hne (by decide) rfl), if_neg (hne (by decide) rfl), if_pos hnumber, bind_of_ok hget,
    ← hbytes, bind_of_ok (number_renderInt hn hrest)]
  rfl

/-- A value that is written is read as that value. -/
theorem takes_value {v : Value} (h : v.Written depth) : Takes (value depth) (render v) v := by
  have hdrop (b : UInt8) (bytes : Bytes) : drop (b :: bytes) = .ok ((), bytes) := rfl
  induction h with
  | null depth =>
    intro rest _
    refine (value_eq_literal rfl (by decide) (by decide) _).trans ?_
    exact bind_of_ok (exactly_append (ascii ['n', 'u', 'l', 'l']) rest)
  | bool depth b =>
    intro rest _
    cases b with
    | false =>
      refine (value_eq_literal rfl (by decide) (by decide) _).trans ?_
      exact bind_of_ok (exactly_append (ascii ['f', 'a', 'l', 's', 'e']) rest)
    | true =>
      refine (value_eq_literal rfl (by decide) (by decide) _).trans ?_
      exact bind_of_ok (exactly_append (ascii ['t', 'r', 'u', 'e']) rest)
  | @integer depth n hn =>
    intro rest hrest
    obtain ⟨b, bs, hbytes, hb⟩ := exists_renderInt n
    rw [render, hbytes]
    refine (value_eq_literal (isSpace_of_sign_or_digit hb) (ne_of_sign_or_digit hb (by decide) rfl)
      (ne_of_sign_or_digit hb (by decide) rfl) _).trans ?_
    exact literal_integer hn hbytes hb hrest
  | string depth s =>
    intro rest _
    exact (value_eq_literal rfl (by decide) (by decide) _).trans (literal_string s rest)
  | @array depth vs h ih =>
    intro rest _
    have hitems :
        List.Forall₂ (fun text v => Starts text ∧ Takes (value depth) text v) (vs.map render) vs :=
      List.forall₂_map_left_iff.2 (List.forall₂_same.2 fun v hv =>
        ⟨starts_render (h v hv), ih v hv⟩)
    rw [render_array, List.append_assoc, List.singleton_append, List.cons_append, value,
      bind_of_ok (peek_cons rfl _)]
    refine (bind_of_ok (hdrop _ _)).trans ?_
    rw [bind_of_ok (bounded_items hitems rest), bind_of_ok (mark_cons rfl rest)]
    rfl
  | @object depth ms h ih =>
    intro rest _
    have hmembers (seen : List (String × Value)) :
        Folds (fun seen name => do mark 0x3A; return (name, ← value depth) :: seen) seen
          (ms.map fun m => (m.1, render m.2)) (ms.reverse ++ seen) := by
      clear h
      induction ms generalizing seen with
      | nil => exact .nil seen
      | cons m ms ihms =>
        have hm := ih m List.mem_cons_self
        have hmore := ihms (fun m' hm' => ih m' (List.mem_cons_of_mem m hm')) (m :: seen)
        rw [List.reverse_cons, List.append_assoc, List.singleton_append]
        refine .cons (fun rest hrest => ?_) hmore
        rw [List.cons_append, bind_of_ok (mark_cons rfl _), bind_of_ok (hm rest hrest)]
        rfl
    have hall := bounded_members (hmembers []) rest
    rw [List.map_map] at hall
    rw [render_object, List.append_assoc, List.singleton_append, List.cons_append, value,
      bind_of_ok (peek_cons rfl _)]
    refine (bind_of_ok (hdrop _ _)).trans ?_
    refine (bind_of_ok hall).trans ?_
    rw [bind_of_ok (mark_cons rfl rest), List.append_nil, List.reverse_reverse]
    rfl

end Reader
end ControlPlane.Json
