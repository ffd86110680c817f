import ControlPlane.Json.Record
import ControlPlane.Proofs.Json.Order
import ControlPlane.Proofs.Time.Rfc3339

/-! # Records that are written are read

A codec is faithful if it writes each value on one line and reads that value back off it, in
whatever order the members of its objects stand. Codecs made of faithful codecs are faithful, and so
is a record of faithful fields with different names that is built from what its fields hold: each
member that is written fills the slot of its field, and a field that is not written has the value
that stands for its absence.
-/
namespace ControlPlane.Json
variable {α β : Type}

namespace Codec

structure Faithful (c : Codec α) : Prop where
  line : ∀ {a w}, (c.write a).Reordered w → IsLine (render w)
  starts : ∀ {a w}, (c.write a).Reordered w → Starts (render w)
  takes : ∀ {a w}, (c.write a).Reordered w → Reader.Takes c.read (render w) a

theorem Faithful.decode_reordered {c : Codec α} (h : c.Faithful) {a : α} {w : Value}
    (hw : (c.write a).Reordered w) :
    c.decode (render w) = .ok a :=
  (h.takes hw).document

theorem Faithful.decode_encode {c : Codec α} (h : c.Faithful) (a : α) :
    c.decode (c.encode a) = .ok a :=
  h.decode_reordered (.refl _)

/-- The texts that a value may be written in: the members of its objects come in any order. -/
def Spells (c : Codec α) (a : α) (text : Bytes) : Prop :=
  ∃ w, (c.write a).Reordered w ∧ render w = text

theorem spells_encode (c : Codec α) (a : α) : c.Spells a (c.encode a) := ⟨_, .refl _, rfl⟩

theorem Faithful.decode_of_spells {c : Codec α} (h : c.Faithful) {a : α} {text : Bytes}
    (hs : c.Spells a text) :
    c.decode text = .ok a := by
  obtain ⟨w, hw, rfl⟩ := hs
  exact h.decode_reordered hw

/-- No value is written in a text that begins as null does. -/
def NeverNull (c : Codec α) : Prop :=
  ∀ {a w}, (c.write a).Reordered w → (render w).head? ≠ some 0x6E

/-! ## Plain types -/

theorem faithful_string : string.Faithful where
  line {s _} h := by
    cases (h : (Value.string s).Reordered _)
    exact IsLine.renderString s
  starts {s _} h := by
    cases (h : (Value.string s).Reordered _)
    exact Starts.cons (by decide) _
  takes {s _} h rest _ := by
    cases (h : (Value.string s).Reordered _)
    exact Reader.string_renderString s rest

theorem neverNull_string : string.NeverNull := fun {s _} h => by
  cases (h : (Value.string s).Reordered _)
  change some 0x22 ≠ some 0x6E
  decide

theorem faithful_bool : bool.Faithful where
  line {b _} h := by
    cases (h : (Value.bool b).Reordered _)
    cases b <;> exact IsLine.of_forall (by decide +kernel)
  starts {b _} h := by
    cases (h : (Value.bool b).Reordered _)
    cases b <;> exact Starts.cons (by decide) _
  takes {b _} h rest _ := by
    cases (h : (Value.bool b).Reordered _)
    cases b with
    | false =>
      refine (Reader.bind_of_ok (Reader.peek_cons rfl _)).trans ?_
      exact Reader.bind_of_ok (Reader.exactly_append (ascii ['f', 'a', 'l', 's', 'e']) rest)
    | true =>
      refine (Reader.bind_of_ok (Reader.peek_cons rfl _)).trans ?_
      exact Reader.bind_of_ok (Reader.exactly_append (ascii ['t', 'r', 'u', 'e']) rest)

theorem isLine_renderInt (n : Int) : IsLine (ascii (Decimal.renderInt n)) := by
  rw [Reader.ascii_renderInt, Reader.numeralBytes]
  have hdigits : IsLine (digitBytes n.natAbs) := IsLine.of_forall fun b hb => by
    have hb := Reader.digit_bounds (Reader.isDigit_of_mem_digitBytes hb)
    omega
  split
  · exact hdigits.cons (by decide) (by decide)
  · exact hdigits

theorem faithful_integer {least greatest : Int} {toInt : α → Int} {ofInt : Int → α}
    (hlow : -0x8000000000000000 ≤ least) (hhigh : greatest < 0x10000000000000000)
    (hbounds : ∀ a, least ≤ toInt a ∧ toInt a ≤ greatest) (hback : ∀ a, ofInt (toInt a) = a) :
    (integer least greatest toInt ofInt).Faithful where
  line {a _} h := by
    cases (h : (Value.integer (toInt a)).Reordered _)
    exact isLine_renderInt (toInt a)
  starts {a _} h := by
    cases (h : (Value.integer (toInt a)).Reordered _)
    exact Reader.starts_renderInt (toInt a)
  takes {a _} h := by
    cases (h : (Value.integer (toInt a)).Reordered _)
    have hexact : Reader.IsExact (toInt a) := by
      have ha := hbounds a
      exact ⟨by omega, by omega⟩
    have hread : Reader.Takes (Reader.integer least greatest) (ascii (Decimal.renderInt (toInt a)))
        (toInt a) := by
      intro rest hrest
      obtain ⟨b, bs, hbytes, hb⟩ := Reader.exists_renderInt (toInt a)
      have hnumber : (decide (b = 0x2D) || Reader.isDigit b) = true := by simpa using hb
      rw [hbytes, List.cons_append, Reader.integer,
        Reader.bind_of_ok (Reader.peek_cons (Reader.isSpace_of_sign_or_digit hb) _)]
      simp only [hnumber, if_true]
      rw [← List.cons_append, ← hbytes, Reader.bind_of_ok (Reader.number_renderInt hexact hrest)]
      simp only [if_pos (hbounds a)]
      rfl
    have hmap := hread.map (f := ofInt)
    rwa [hback] at hmap

theorem faithful_int32 : int32.Faithful :=
  faithful_integer (by decide) (by decide) (fun n => ⟨n.minValue_le_toInt, n.toInt_le⟩) fun n =>
    n.ofInt_toInt

theorem faithful_uint8 : uint8.Faithful :=
  faithful_integer (by decide) (by decide) (fun n => by have hn := n.toNat_lt; omega) fun n =>
    n.ofNat_toNat

theorem faithful_uint16 : uint16.Faithful :=
  faithful_integer (by decide) (by decide) (fun n => by have hn := n.toNat_lt; omega) fun n =>
    n.ofNat_toNat

theorem faithful_uint64 : uint64.Faithful :=
  faithful_integer (by decide) (by decide) (fun n => by have hn := n.toNat_lt; omega) fun n =>
    n.ofNat_toNat

theorem faithful_instant : instant.Faithful where
  line {t _} h := faithful_string.line (h : (string.write (Rfc3339.render t)).Reordered _)
  starts {t _} h := faithful_string.starts (h : (string.write (Rfc3339.render t)).Reordered _)
  takes {t _} h rest hrest := by
    have hread :=
      faithful_string.takes (h : (string.write (Rfc3339.render t)).Reordered _) rest hrest
    refine (Reader.bind_of_ok hread).trans ?_
    rw [Rfc3339.parse?_render]
    rfl

theorem neverNull_instant : instant.NeverNull := fun {t _} h =>
  neverNull_string (h : (string.write (Rfc3339.render t)).Reordered _)

/-- A name that leads back to its value. -/
theorem faithful_named {names : List (String × α)} {name : α → String}
    (hnames : ∀ a, (names.find? (·.1 == name a)).map (·.2) = some a) :
    (named names name).Faithful where
  line {a _} h := faithful_string.line (h : (string.write (name a)).Reordered _)
  starts {a _} h := faithful_string.starts (h : (string.write (name a)).Reordered _)
  takes {a _} h rest hrest := by
    cases (h : (Value.string (name a)).Reordered _)
    obtain ⟨⟨n, a'⟩, hfind, rfl⟩ := Option.map_eq_some_iff.1 (hnames a)
    refine (Reader.bind_of_ok (Reader.peek_cons rfl _)).trans ?_
    refine (Reader.bind_of_ok (Reader.string_renderString (name a') rest)).trans ?_
    dsimp only at hfind ⊢
    rw [hfind]
    rfl

theorem Faithful.map {c : Codec α} (h : c.Faithful) {toBase : β → α} {ofBase : α → β}
    (hback : ∀ b, ofBase (toBase b) = b) : (c.map toBase ofBase).Faithful where
  line hw := h.line hw
  starts hw := h.starts hw
  takes {b _} hw := by
    have hread := (h.takes hw).map (f := ofBase)
    rwa [hback] at hread

/-! ## Lists, dictionaries and values that may be missing -/

section Closure
variable {c : Codec α}

theorem Faithful.list (h : c.Faithful) : c.list.Faithful where
  line {as _} hw := by
    obtain ⟨ws, rfl, hws⟩ := (hw : (Value.array (as.map c.write)).Reordered _).exists_array
    refine IsLine.array fun w hw => ?_
    obtain ⟨a, -, ha⟩ := exists_mem_of_forall₂ (List.forall₂_map_left_iff.1 hws) hw
    exact h.line ha
  starts {as _} hw := by
    obtain ⟨ws, rfl, -⟩ := (hw : (Value.array (as.map c.write)).Reordered _).exists_array
    exact Starts.cons (by decide) _
  takes {as _} hw := by
    obtain ⟨ws, rfl, hws⟩ := (hw : (Value.array (as.map c.write)).Reordered _).exists_array
    have hitems :
        List.Forall₂ (fun text a => Starts text ∧ Reader.Takes c.read text a) (ws.map render) as :=
      List.forall₂_map_left_iff.2
        ((List.forall₂_map_left_iff.1 hws).imp fun _ _ ha => ⟨h.starts ha, h.takes ha⟩).flip
    have hread := Reader.takes_list hitems
    rwa [← render_array] at hread

/-- Entries put in order stand as they were. -/
private theorem folds_insert (h : c.Faithful) (d : Dict α) {l : List (String × α)}
    {ns : List (String × Value)} (hns : Value.Alike (l.map fun e => (e.1, c.write e.2)) ns)
    (hsorted : (d.entries ++ l).Pairwise (fun a b => a.1 < b.1)) :
    Reader.Folds (fun (d : Dict α) name => do Reader.mark 0x3A; return d.insert name (← c.read)) d
      (ns.map fun n => (n.1, render n.2)) ⟨d.entries ++ l, hsorted⟩ := by
  induction l generalizing d ns with
  | nil =>
    cases hns
    have hd : (⟨d.entries ++ [], hsorted⟩ : Dict α) = d := Dict.ext (List.append_nil _)
    rw [hd]
    exact .nil d
  | cons e l ih =>
    obtain ⟨n, ns, ⟨hname, hvalue⟩, hrest, rfl⟩ := List.forall₂_cons_left_iff.1 hns
    have hlast : (d.insert e.1 e.2).entries = d.entries ++ [e] :=
      Dict.insertInto_of_lt fun e' he' =>
        (List.pairwise_append.1 hsorted).2.2 e' he' e List.mem_cons_self
    have hsame : (d.insert e.1 e.2).entries ++ l = d.entries ++ e :: l := by
      rw [hlast, List.append_assoc, List.singleton_append]
    have hmore := ih (d.insert e.1 e.2) hrest (hsame ▸ hsorted)
    have hdict : (⟨(d.insert e.1 e.2).entries ++ l, hsame ▸ hsorted⟩ : Dict α) =
        ⟨d.entries ++ e :: l, hsorted⟩ :=
      Dict.ext hsame
    rw [hdict] at hmore
    refine .cons (fun rest hrest => ?_) hmore
    rw [List.cons_append, Reader.bind_of_ok (Reader.mark_cons rfl _),
      Reader.bind_of_ok (h.takes hvalue rest hrest), hname]
    rfl

theorem Faithful.dict (h : c.Faithful) : c.dict.Faithful where
  line {d _} hw := by
    obtain ⟨ns, ns', rfl, hns, hperm⟩ :=
      (hw : (Value.object (d.map c.write).entries).Reordered _).exists_object
    refine IsLine.object fun n hn => ?_
    obtain ⟨m, hm, -, hvalue⟩ := exists_mem_of_forall₂ hns (hperm.mem_iff.2 hn)
    obtain ⟨e, -, rfl⟩ := List.mem_map.1 hm
    exact h.line hvalue
  starts {d _} hw := by
    obtain ⟨-, ns', rfl, -⟩ :=
      (hw : (Value.object (d.map c.write).entries).Reordered _).exists_object
    exact Starts.cons (by decide) _
  takes {d _} hw := by
    intro rest _
    obtain ⟨ns, ns', rfl, hns, hperm⟩ :=
      (hw : (Value.object (d.map c.write).entries).Reordered _).exists_object
    have hdrop (bytes : Bytes) : Reader.drop (0x7B :: bytes) = .ok ((), bytes) := rfl
    have hfolds := folds_insert h {} (l := d.entries) hns d.sorted
    have hnodup : (ns.map (·.1)).Nodup := by
      rw [hns.names, Dict.map, List.map_map]
      exact d.nodup_keys
    have hall := Reader.bounded_reordered (Reader.commutes_insert c.read) hperm hnodup hfolds rest
    change Reader.dict c.read (render (.object ns') ++ rest) = _
    rw [render_object, List.append_assoc, List.singleton_append, List.cons_append, Reader.dict,
      Reader.bind_of_ok (Reader.peek_cons rfl _)]
    refine (Reader.bind_of_ok (hdrop _)).trans ?_
    refine (Reader.bind_of_ok hall).trans ?_
    exact Reader.bind_of_ok (Reader.mark_cons rfl rest)

theorem neverNull_dict : c.dict.NeverNull := fun {d _} hw => by
  obtain ⟨-, ns', rfl, -⟩ := (hw : (Value.object (d.map c.write).entries).Reordered _).exists_object
  rw [render_object]
  change some 0x7B ≠ some 0x6E
  decide

/-- A missing value is written as null, so a present one must not be. -/
theorem Faithful.option (h : c.Faithful) (hnull : c.NeverNull) : c.option.Faithful where
  line {a _} hw := by
    cases a with
    | none =>
      cases (hw : Value.null.Reordered _)
      exact (IsLine.of_forall (by decide +kernel) : IsLine (ascii ['n', 'u', 'l', 'l']))
    | some a => exact h.line (a := a) hw
  starts {a _} hw := by
    cases a with
    | none =>
      cases (hw : Value.null.Reordered _)
      exact Starts.cons (by decide) _
    | some a => exact h.starts (a := a) hw
  takes {a w} hw rest hrest := by
    cases a with
    | none =>
      cases (hw : Value.null.Reordered _)
      refine (Reader.bind_of_ok (Reader.peek_cons rfl _)).trans ?_
      exact Reader.bind_of_ok (Reader.exactly_append (ascii ['n', 'u', 'l', 'l']) rest)
    | some a =>
      have hread := h.takes (a := a) hw rest hrest
      change Reader.optional c.read (render w ++ rest) = _
      obtain ⟨b, bs, hbytes, hspace, -⟩ := h.starts (a := a) hw
      have hb : b ≠ 0x6E := fun he => hnull (a := a) hw (by rw [hbytes, he]; rfl)
      rw [hbytes, List.cons_append] at hread ⊢
      rw [Reader.optional, Reader.bind_of_ok (Reader.peek_cons hspace _)]
      simpa [hb] using Reader.map_of_ok hread some

end Closure
end Codec

/-! ## Fields -/

namespace Field

/-- What is written of a field is read as its content, and where nothing is written its
absence stands for it. -/
structure Faithful (f : Field α) : Prop where
  line : ∀ {b v w}, f.write b = some v → v.Reordered w → IsLine (render w)
  takes : ∀ {b v w}, f.write b = some v → v.Reordered w → Reader.Takes f.read (render w) b
  absent : ∀ {b}, f.write b = none → f.absent = some b

section Kinds
variable {c : Codec β} (name : String) (get : α → β)

theorem faithful_sparse (h : c.Faithful) {absent : β} {keep : β → Bool}
    (hkeep : ∀ b, keep b = false → b = absent) :
    (sparse name get c absent keep).Faithful where
  line {b v _} hv := by
    obtain ⟨-, rfl⟩ : keep b = true ∧ c.write b = v := by simpa [sparse] using hv
    exact h.line
  takes {b v _} hv := by
    obtain ⟨-, rfl⟩ : keep b = true ∧ c.write b = v := by simpa [sparse] using hv
    exact h.takes
  absent {b} hv := by
    have hout : keep b = false := by simpa [sparse] using hv
    exact congrArg some (hkeep b hout).symm

theorem faithful_required (h : c.Faithful) : (required name get c).Faithful where
  line {b _ _} hv := by
    cases hv
    exact h.line
  takes {b _ _} hv := by
    cases hv
    exact h.takes
  absent hv := by cases hv

theorem faithful_defaulting (h : c.Faithful) (absent : β) :
    (defaulting name get c absent).Faithful where
  line {b _ _} hv := by
    cases hv
    exact h.line
  takes {b _ _} hv := by
    cases hv
    exact h.takes
  absent hv := by cases hv

theorem faithful_optional (get : α → Option β) (h : c.Faithful) (hnull : c.NeverNull) :
    (optional name get c).Faithful :=
  faithful_sparse name get (h.option hnull) fun b hb =>
    Option.isNone_iff_eq_none.1 (by simpa using hb)

end Kinds

variable {fs : List (Field α)}

/-- The members that are written of the fields. -/
def written (fs : List (Field α)) (a : α) : List (String × Value) :=
  fs.filterMap fun f => (f.write (f.get a)).map (f.name, ·)

def Values.of (a : α) : (fs : List (Field α)) → Values fs
  | [] => ()
  | f :: fs => (f.get a, Values.of a fs)

/-- The slots that the members written of `a` fill. -/
def Slots.of (a : α) : (fs : List (Field α)) → Slots fs
  | [] => ()
  | f :: fs => ((f.write (f.get a)).map fun _ => f.get a, Slots.of a fs)

/-- The names that are written are names of the fields, in their order. -/
theorem names_written (fs : List (Field α)) (a : α) :
    ((written fs a).map (·.1)).Sublist (fs.map (·.name)) := by
  induction fs with
  | nil => exact .slnil
  | cons f fs ih =>
    cases hw : f.write (f.get a) with
    | none => simpa [written, hw] using ih.cons f.name
    | some v => simpa [written, hw] using ih.cons_cons f.name

theorem complete?_of (h : ∀ f ∈ fs, f.Faithful) (a : α) :
    Slots.complete? fs (Slots.of a fs) = some (Values.of a fs) := by
  induction fs with
  | nil => rfl
  | cons f fs ih =>
    obtain ⟨hf, hfs⟩ := List.forall_mem_cons.1 h
    have hcontent : (((f.write (f.get a)).map fun _ => f.get a) <|> f.absent) = some (f.get a) := by
      cases hw : f.write (f.get a) with
      | none => exact hf.absent hw
      | some v => rfl
    change (do
      let content ← ((f.write (f.get a)).map fun _ => f.get a) <|> f.absent
      let contents ← Slots.complete? fs (Slots.of a fs)
      return (content, contents)) = _
    rw [hcontent, ih hfs]
    rfl

/-- A member goes into the slot of its name. -/
theorem accept_self (f : Field α) (slots : Slots fs) :
    Slots.accept (f :: fs) ((none, slots) : Option f.Content × Slots fs) f.name =
      (do Reader.mark 0x3A
          return (some (← f.read), slots) : Reader (Option f.Content × Slots fs)) :=
  if_pos rfl

theorem takes_accept_self {f : Field α} {text : Bytes} {b : f.Content}
    (h : Reader.Takes f.read text b) (slots : Slots fs) :
    Reader.Takes (Slots.accept (f :: fs) ((none, slots) : Option f.Content × Slots fs) f.name)
      (0x3A :: text) (some b, slots) := by
  intro rest hrest
  refine (congrFun (accept_self f slots) _).trans ?_
  refine (Reader.bind_of_ok (Reader.mark_cons rfl _)).trans ?_
  exact Reader.bind_of_ok (h rest hrest)

/-- Members of other names leave the slot in front as it is. -/
theorem folds_behind {f : Field α} {slot : Option f.Content} {slots slots' : Slots fs}
    {ms : List (String × Bytes)} (h : Reader.Folds (Slots.accept fs) slots ms slots')
    (hne : ∀ m ∈ ms, f.name ≠ m.1) :
    Reader.Folds (Slots.accept (f :: fs)) (slot, slots) ms (slot, slots') := by
  induction h with
  | nil slots => exact .nil (slot, slots)
  | @cons slots slots' slots'' name text ms h _ ih =>
    obtain ⟨hname, hms⟩ := List.forall_mem_cons.1 hne
    have hstep : Slots.accept (f :: fs) (slot, slots) name = do
        return (slot, ← Slots.accept fs slots name) :=
      if_neg hname
    refine .cons ?_ (ih hms)
    rw [hstep]
    exact h.map

theorem folds_written (h : ∀ f ∈ fs, f.Faithful) (hnames : (fs.map (·.name)).Nodup) {a : α}
    {ns : List (String × Value)} (hns : Value.Alike (written fs a) ns) :
    Reader.Folds (Slots.accept fs) (Slots.empty fs) (ns.map fun n => (n.1, render n.2))
      (Slots.of a fs) := by
  induction fs generalizing ns with
  | nil =>
    cases hns
    exact .nil ()
  | cons f fs ih =>
    obtain ⟨hf, hfs⟩ := List.forall_mem_cons.1 h
    obtain ⟨hname, hnames⟩ := List.nodup_cons.1 hnames
    have hmore : ∀ (slot : Option f.Content) {ns : List (String × Value)},
        Value.Alike (written fs a) ns →
        Reader.Folds (Slots.accept (f :: fs)) (slot, Slots.empty fs)
          (ns.map fun n => (n.1, render n.2)) (slot, Slots.of a fs) := by
      intro slot ns hns
      refine folds_behind (ih hfs hnames hns) fun m hm (he : f.name = m.1) => hname ?_
      obtain ⟨n, hn, rfl⟩ := List.mem_map.1 hm
      change f.name ∈ fs.map (·.name)
      have hmem := List.mem_map_of_mem (f := (·.1)) hn
      rw [hns.names] at hmem
      exact he.symm ▸ (names_written fs a).subset hmem
    cases hw : f.write (f.get a) with
    | none =>
      have hwritten : written (f :: fs) a = written fs a := by simp [written, hw]
      have hslots :
          Slots.of a (f :: fs) = ((none, Slots.of a fs) : Option f.Content × Slots fs) := by
        rw [Slots.of, hw]
        rfl
      rw [hwritten] at hns
      rw [hslots]
      exact hmore none hns
    | some v =>
      have hwritten : written (f :: fs) a = (f.name, v) :: written fs a := by simp [written, hw]
      have hslots : Slots.of a (f :: fs) =
          ((some (f.get a), Slots.of a fs) : Option f.Content × Slots fs) := by
        rw [Slots.of, hw]
        rfl
      rw [hwritten] at hns
      rw [hslots]
      obtain ⟨n, ns, ⟨hsame, hvalue⟩, hothers, rfl⟩ := List.forall₂_cons_left_iff.1 hns
      refine .cons ?_ (hmore (some (f.get a)) hothers)
      rw [hsame]
      exact takes_accept_self (hf.takes hw hvalue) (Slots.empty fs)

/-- A member fills the slot in front if it has its name, and is passed on else. -/
theorem takes_accept_iff {f : Field α} {slot : Option f.Content} {slots : Slots fs} {name : String}
    {text : Bytes} {s : Option f.Content × Slots fs} :
    Reader.Takes
      (Slots.accept (f :: fs) ((slot, slots) : Option f.Content × Slots fs) name) text s ↔
      (f.name = name ∧ slot = none ∧ ∃ b, (some b, slots) = s ∧
        Reader.Takes (Reader.member f.read) text b) ∨
      (f.name ≠ name ∧ ∃ slots', (slot, slots') = s ∧
        Reader.Takes (Slots.accept fs slots name) text slots') := by
  by_cases hname : f.name = name
  · subst hname
    simp only [ne_eq, not_true_eq_false, false_and, or_false, true_and]
    cases slot with
    | none =>
      have hinj : Function.Injective fun b => ((some b, slots) : Option f.Content × Slots fs) :=
        fun b b' he => by
        simpa using he
      rw [accept_self, Reader.member_map fun b => ((some b, slots) : Option f.Content × Slots fs)]
      simp only [true_and]
      constructor
      · exact fun h => h.exists_of_map hinj
      · rintro ⟨b, rfl, h⟩
        exact h.map
    | some b =>
      have hfail : Slots.accept (f :: fs) ((some b, slots) : Option f.Content × Slots fs) f.name =
          Reader.fail .mismatch :=
        if_pos rfl
      rw [hfail]
      refine ⟨fun h => ?_, fun h => by cases h.1⟩
      cases h [] ends_nil
  · have hstep : Slots.accept (f :: fs) ((slot, slots) : Option f.Content × Slots fs) name =
        do return (slot, ← Slots.accept fs slots name) := if_neg hname
    have hinj : Function.Injective fun slots' => ((slot, slots') : Option f.Content × Slots fs) :=
      fun _ _ he => by
      simpa using he
    rw [hstep]
    simp only [hname, false_and, false_or, ne_eq, not_false_eq_true, true_and]
    constructor
    · exact fun h => h.exists_of_map hinj
    · rintro ⟨slots', rfl, h⟩
      exact h.map

/-- The members of a record fill their slots in any order. -/
theorem commutes_accept (fs : List (Field α)) : Reader.Commutes (Slots.accept fs) := by
  induction fs with
  | nil => exact fun {_ _ _ _ _ _ _} _ h h' => ⟨(), h', h⟩
  | cons f fs ih =>
    intro slots slots₁ slots₂ n m t u hne h h'
    obtain ⟨slot, slots⟩ := slots
    rcases takes_accept_iff.1 h with ⟨hn, rfl, b, rfl, hb⟩ | ⟨hn, slots₁, rfl, hslots₁⟩
    · rcases takes_accept_iff.1 h' with ⟨hm, -⟩ | ⟨hm, slots₂, rfl, hslots₂⟩
      · exact absurd (hn.symm.trans hm) hne
      · exact ⟨(none, slots₂), takes_accept_iff.2 (.inr ⟨hm, slots₂, rfl, hslots₂⟩),
          takes_accept_iff.2 (.inl ⟨hn, rfl, b, rfl, hb⟩)⟩
    · rcases takes_accept_iff.1 h' with ⟨hm, rfl, b, rfl, hb⟩ | ⟨hm, slots₂, rfl, hslots₂⟩
      · exact ⟨(some b, slots), takes_accept_iff.2 (.inl ⟨hm, rfl, b, rfl, hb⟩),
          takes_accept_iff.2 (.inr ⟨hn, slots₁, rfl, hslots₁⟩)⟩
      · obtain ⟨slots₁', hfirst, hsecond⟩ := ih hne hslots₁ hslots₂
        exact ⟨(slot, slots₁'), takes_accept_iff.2 (.inr ⟨hm, slots₁', rfl, hfirst⟩),
          takes_accept_iff.2 (.inr ⟨hn, slots₂, rfl, hsecond⟩)⟩

end Field

/-! ## Records -/

namespace Record
variable {r : Record α}

structure Faithful (r : Record α) : Prop where
  fields : ∀ f ∈ r.fields, f.Faithful
  names : (r.fields.map (·.name)).Nodup
  build : ∀ a, r.build (Field.Values.of a r.fields) = a

/-- An object whose members fill the slots of a record is read as what the slots hold. -/
theorem takes_object (ms : List (String × Value)) {slots : Field.Slots r.fields}
    {values : Field.Values r.fields}
    (hall : ∀ rest, Reader.bounded
      (fun fuel =>
        Reader.members (Field.Slots.accept r.fields) fuel true (Field.Slots.empty r.fields))
      (commas (ms.map fun n => memberText (n.1, render n.2)) ++ 0x7D :: rest) = .ok
      (slots, 0x7D :: rest))
    (hvalues : Field.Slots.complete? r.fields slots = some values) :
    Reader.Takes r.read (render (.object ms)) (r.build values) := by
  intro rest _
  have hdrop (bytes : Bytes) : Reader.drop (0x7B :: bytes) = .ok ((), bytes) := rfl
  rw [render_object, List.append_assoc, List.singleton_append, List.cons_append, read,
    Reader.bind_of_ok (Reader.peek_cons rfl _)]
  refine (Reader.bind_of_ok (hdrop _)).trans ?_
  refine (Reader.bind_of_ok (hall rest)).trans ?_
  rw [hvalues]
  exact Reader.bind_of_ok (Reader.mark_cons rfl rest)

theorem Faithful.codec (h : r.Faithful) : r.codec.Faithful where
  line {a _} hw := by
    obtain ⟨ns, ns', rfl, hns, hperm⟩ :=
      (hw : (Value.object (Field.written r.fields a)).Reordered _).exists_object
    refine IsLine.object fun n hn => ?_
    obtain ⟨m, hm, -, hvalue⟩ := exists_mem_of_forall₂ hns (hperm.mem_iff.2 hn)
    obtain ⟨f, hf, hwrite⟩ := List.mem_filterMap.1 hm
    obtain ⟨v, hv, rfl⟩ := Option.map_eq_some_iff.1 hwrite
    exact (h.fields f hf).line hv hvalue
  starts {a _} hw := by
    obtain ⟨-, ns', rfl, -⟩ :=
      (hw : (Value.object (Field.written r.fields a)).Reordered _).exists_object
    exact Starts.cons (by decide) _
  takes {a _} hw := by
    obtain ⟨ns, ns', rfl, hns, hperm⟩ :=
      (hw : (Value.object (Field.written r.fields a)).Reordered _).exists_object
    have hnodup : (ns.map (·.1)).Nodup :=
      hns.names ▸ h.names.sublist (Field.names_written r.fields a)
    have htakes := takes_object ns'
      (Reader.bounded_reordered (Field.commutes_accept r.fields) hperm hnodup
        (Field.folds_written h.fields h.names hns)) (Field.complete?_of h.fields a)
    rwa [h.build a] at htakes

end Record
end ControlPlane.Json
