import ControlPlane.Proofs.Dict
import ControlPlane.Proofs.Json.Value
import Mathlib.Data.List.Nodup

/-! # Members in any order

An object whose members are written in another order is read as the same: what one member
does to the state of the reader does not depend on the members of other names that stand
before it. So a step that commutes with itself on different names takes the members, in
whatever order, to one state.
-/
namespace ControlPlane

namespace Dict
variable {α : Type} {d e : Dict α}

theorem nodup_keys (d : Dict α) : d.keys.Nodup :=
  List.pairwise_map.2 (d.sorted.imp fun {a b} hlt he => by
    rw [he] at hlt
    exact String.lt_irrefl _ hlt)

/-- A dictionary is what its look-ups find. -/
theorem ext_get? (h : ∀ k, d.get? k = e.get? k) : d = e := by
  have hperm : d.entries.Perm e.entries := by
    refine (List.perm_ext_iff_of_nodup d.nodup_keys.of_map e.nodup_keys.of_map).2 fun ⟨k, v⟩ => ?_
    rw [mem_entries_iff, mem_entries_iff, h k]
  exact Dict.ext
    (hperm.eq_of_pairwise (fun _ _ _ _ hab hba => (String.lt_asymm hab hba).elim) d.sorted e.sorted)

theorem insert_comm (d : Dict α) {k k' : String} (v v' : α) (h : k ≠ k') :
    (d.insert k v).insert k' v' = (d.insert k' v').insert k v := by
  refine ext_get? fun l => ?_
  simp only [get?_insert]
  split
  · next hl => rw [if_neg fun he => h (he.trans hl.symm)]
  · rfl

theorem insert_injective (d : Dict α) (k : String) : Function.Injective (d.insert k) :=
  fun v v' h => by
  have hget := congrArg (·.get? k) h
  simpa using hget

end Dict

namespace Json

/-- The same value with the members of its objects, at any depth, in whatever order. -/
inductive Value.Reordered : Value → Value → Prop
  | refl (v : Value) : Reordered v v
  | array {vs ws : List Value} (items : List.Forall₂ Reordered vs ws) :
      Reordered (.array vs) (.array ws)
  | object {ms ns ns' : List (String × Value)} (names : ns.map (·.1) = ms.map (·.1))
    (values : List.Forall₂ (fun m n => Reordered m.2 n.2) ms ns) (order : ns.Perm ns') :
    Reordered (.object ms) (.object ns')

/-- What stands in the one list has what it is related to in the other. -/
theorem exists_mem_of_forall₂ {α β : Type} {R : α → β → Prop} {as : List α} {bs : List β}
    (h : List.Forall₂ R as bs) {b : β} (hb : b ∈ bs) : ∃ a ∈ as, R a b := by
  obtain ⟨i, hi, rfl⟩ := List.mem_iff_getElem.1 hb
  have hi' : i < as.length := h.length_eq ▸ hi
  exact ⟨as[i], List.getElem_mem hi', h.get hi' hi⟩

/-- Members by the same names, one for one, and under each name the same value in whatever order. -/
def Value.Alike (ms ns : List (String × Value)) : Prop :=
  List.Forall₂ (fun m n => n.1 = m.1 ∧ m.2.Reordered n.2) ms ns

theorem Value.Alike.names {ms ns : List (String × Value)} (h : Alike ms ns) :
    ns.map (·.1) = ms.map (·.1) := by
  induction h with
  | nil => rfl
  | cons h _ ih => rw [List.map_cons, List.map_cons, h.1, ih]

namespace Value.Reordered

theorem exists_array {vs : List Value} {w : Value} (h : Reordered (.array vs) w) :
    ∃ ws, w = .array ws ∧ List.Forall₂ Reordered vs ws := by
  cases h with
  | refl => exact ⟨vs, rfl, List.forall₂_same.2 fun v _ => .refl v⟩
  | array items => exact ⟨_, rfl, items⟩

theorem exists_object {ms : List (String × Value)} {w : Value} (h : Reordered (.object ms) w) :
    ∃ ns ns', w = .object ns' ∧ Alike ms ns ∧ ns.Perm ns' := by
  cases h with
  | refl => exact ⟨ms, ms, rfl, List.forall₂_same.2 fun m _ => ⟨rfl, .refl m.2⟩, .refl ms⟩
  | @object _ ns ns' names values order =>
    refine ⟨ns, ns', rfl, ?_, order⟩
    have hkeys : List.Forall₂ (· = ·) (ns.map (·.1)) (ms.map (·.1)) := by
      rw [List.forall₂_eq_eq_eq]
      exact names
    have hnames : List.Forall₂ (fun n m : String × Value => n.1 = m.1) ns ms :=
      List.forall₂_map_right_iff.1 (List.forall₂_map_left_iff.1 hkeys)
    exact List.forall₂_iff_get.2 ⟨values.length_eq, fun i hi hi' =>
      ⟨(List.forall₂_iff_get.1 hnames).2 i hi' hi, (List.forall₂_iff_get.1 values).2 i hi hi'⟩⟩

end Value.Reordered

namespace Reader
variable {α β σ : Type} {read : Reader α} {text : Bytes}

/-- What is read and passed through a function that loses nothing is what the function
makes of what is read. -/
theorem Takes.exists_of_map {f : α → β} (hf : Function.Injective f) {b : β}
    (h : Takes (do return f (← read)) text b) : ∃ a, f a = b ∧ Takes read text a := by
  have hread : ∀ rest, Ends rest → ∃ a, f a = b ∧ read (text ++ rest) = .ok (a, rest) := by
    intro rest hrest
    have hb :
        (read (text ++ rest) >>= fun p => Except.ok (f p.1, p.2)) = .ok (b, rest) := h rest hrest
    cases ha : read (text ++ rest) with
    | error fault =>
      rw [ha] at hb
      cases hb
    | ok p =>
      rw [ha] at hb
      cases hb
      exact ⟨p.1, rfl, rfl⟩
  obtain ⟨a, ha, -⟩ := hread [] ends_nil
  refine ⟨a, ha, fun rest hrest => ?_⟩
  obtain ⟨a', ha', hrest⟩ := hread rest hrest
  rw [hf (ha.trans ha'.symm)]
  exact hrest

/-- The value of a member, behind its colon. -/
def member (read : Reader α) : Reader α := do
  mark 0x3A
  read

theorem member_map (f : α → β) :
    (do mark 0x3A; return f (← read)) = (do return f (← member read) : Reader β) := by
  rw [member, bind_assoc]

/-- Two members of different names may be taken in either order. -/
def Commutes (step : σ → String → Reader σ) : Prop :=
  ∀ {s s₁ s₂ : σ} {n m : String} {t u : Bytes}, n ≠ m → Takes (step s n) t s₁ →
    Takes (step s₁ m) u s₂ →
    ∃ s₁', Takes (step s m) u s₁' ∧ Takes (step s₁' n) t s₂

theorem Folds.perm {step : σ → String → Reader σ} (hstep : Commutes step)
    {ms ms' : List (String × Bytes)} (hperm : ms.Perm ms') (hnames : (ms.map (·.1)).Nodup)
    {s s' : σ} (h : Folds step s ms s') : Folds step s ms' s' := by
  induction hperm generalizing s with
  | nil => exact h
  | cons m _ ih =>
    cases h with
    | cons hm hms => exact .cons hm (ih (List.nodup_cons.1 hnames).2 hms)
  | swap m m' ms =>
    obtain ⟨hne, -⟩ := List.nodup_cons.1 hnames
    cases h with
    | cons hm' hmore =>
      cases hmore with
      | cons hm hms =>
        obtain ⟨s₁, hfirst, hsecond⟩ := hstep (fun he => hne (by simp [he])) hm' hm
        exact .cons hfirst (.cons hsecond hms)
  | trans hperm _ ih ih' => exact ih' ((hperm.map _).nodup_iff.1 hnames) (ih hnames h)

/-- Members that are taken in one order are the object in any order. -/
theorem bounded_reordered {step : σ → String → Reader σ} (hstep : Commutes step)
    {ns ns' : List (String × Value)} (hperm : ns.Perm ns') (hnames : (ns.map (·.1)).Nodup)
    {s s' : σ} (h : Folds step s (ns.map fun n => (n.1, render n.2)) s') (rest : Bytes) :
    bounded (fun fuel => members step fuel true s)
      (commas (ns'.map fun n => memberText (n.1, render n.2)) ++ 0x7D :: rest) =
      .ok (s', 0x7D :: rest) := by
  have hfolds := h.perm hstep (hperm.map fun n => (n.1, render n.2)) (by rwa [List.map_map])
  have hall := bounded_members hfolds rest
  rwa [List.map_map] at hall

/-- The entries of a dictionary may be put in one after the other in any order. -/
theorem commutes_insert (read : Reader α) :
    Commutes fun (d : Dict α) name => do mark 0x3A; return d.insert name (← read) := by
  intro d d₁ d₂ n m t u hne h h'
  dsimp only at h h' ⊢
  rw [member_map] at h h'
  obtain ⟨v, rfl, hv⟩ := h.exists_of_map (d.insert_injective n)
  obtain ⟨w, rfl, hw⟩ := h'.exists_of_map (Dict.insert_injective _ m)
  refine ⟨d.insert m w, ?_, ?_⟩
  · rw [member_map]
    exact hw.map
  · rw [member_map, d.insert_comm v w hne]
    exact hv.map

end Reader
end Json
end ControlPlane
