import ControlPlane.Dict
import Mathlib.Data.List.Forall2
import Mathlib.Data.List.Induction

/-! # Looking up what a dictionary holds

A look-up after each of the operations, and the entries of a dictionary as the pairs that
its look-ups find. An entry with the greatest key is the last one. Two dictionaries are
compared entry by entry.
-/
namespace ControlPlane.Dict
variable {α : Type}

@[simp] theorem get?_empty (k : String) : ({} : Dict α).get? k = none := rfl

private theorem lookup_insertInto (key k : String) (v : α) (l : List (String × α)) :
    lookup k (insertInto key v l) = if key = k then some v else lookup k l := by
  induction l with
  | nil => simp [insertInto, lookup]
  | cons e l ih =>
    obtain ⟨k', v'⟩ := e
    simp only [insertInto]
    split
    · simp [lookup]
    · split
      · next h => subst h; by_cases hk : key = k <;> simp [lookup, hk]
      · next h =>
        simp only [lookup, ih]
        by_cases hk : key = k
        · subst hk; simp [Ne.symm h]
        · simp [hk]

theorem get?_insert (d : Dict α) (key k : String) (v : α) :
    (d.insert key v).get? k = if key = k then some v else d.get? k :=
  lookup_insertInto key k v d.entries

@[simp] theorem get?_insert_self (d : Dict α) (key : String) (v : α) :
    (d.insert key v).get? key = some v := by
  simp [get?_insert]

theorem get?_insert_of_ne (d : Dict α) {key k : String} (v : α) (h : key ≠ k) :
    (d.insert key v).get? k = d.get? k := by
  simp [get?_insert, h]

private theorem lookup_filter_ne (key k : String) (l : List (String × α)) :
    lookup k (l.filter fun e => e.1 != key) = if key = k then none else lookup k l := by
  induction l with
  | nil => simp [lookup]
  | cons e l ih =>
    obtain ⟨k', v'⟩ := e
    by_cases hk' : k' = key
    · subst hk'
      by_cases hk : k' = k <;> simp_all [lookup]
    · by_cases hk : k' = k
      · subst hk; simp [lookup, hk', Ne.symm hk']
      · simp [lookup, hk', hk, ih]

theorem get?_erase (d : Dict α) (key k : String) :
    (d.erase key).get? k = if key = k then none else d.get? k :=
  lookup_filter_ne key k d.entries

private theorem mem_of_lookup {k : String} {v : α} {l : List (String × α)}
    (h : lookup k l = some v) : (k, v) ∈ l := by
  induction l with
  | nil => simp [lookup] at h
  | cons e l ih =>
    obtain ⟨k', v'⟩ := e
    simp only [lookup] at h
    split at h
    · next hk => cases h; simp [hk]
    · exact List.mem_cons_of_mem _ (ih h)

private theorem lookup_of_mem {k : String} {v : α} {l : List (String × α)}
    (hl : l.Pairwise (fun a b => a.1 < b.1)) (h : (k, v) ∈ l) : lookup k l = some v := by
  induction l with
  | nil => simp at h
  | cons e l ih =>
    obtain ⟨k', v'⟩ := e
    obtain ⟨hlt, hl⟩ := List.pairwise_cons.1 hl
    rcases List.mem_cons.1 h with h | h
    · cases h; simp [lookup]
    · have hne : k' ≠ k := fun he => String.lt_irrefl k (he ▸ hlt _ h)
      simpa [lookup, hne] using ih hl h

theorem mem_entries_iff {d : Dict α} {k : String} {v : α} :
    (k, v) ∈ d.entries ↔ d.get? k = some v :=
  ⟨lookup_of_mem d.sorted, mem_of_lookup⟩

/-- A value of the upper dictionary hides that of the lower one. -/
theorem get?_overlay (lower upper : Dict α) (k : String) :
    (lower.overlay upper).get? k = (upper.get? k).or (lower.get? k) := by
  obtain ⟨l, hl⟩ := upper
  change (l.foldl (fun d e => d.insert e.1 e.2) lower).get? k = (lookup k l).or (lower.get? k)
  induction l generalizing lower with
  | nil => rfl
  | cons e l ih =>
    obtain ⟨hlt, hl⟩ := List.pairwise_cons.1 hl
    rw [List.foldl_cons, ih (lower.insert e.1 e.2) hl, get?_insert, lookup]
    split
    · next he =>
      subst he
      -- No later entry has the key of this one.
      have hnone : lookup e.1 l = none := by
        rw [Option.eq_none_iff_forall_ne_some]
        intro v hv
        exact String.lt_irrefl e.1 (hlt (e.1, v) (mem_of_lookup hv))
      rw [hnone]
      rfl
    · rfl

/-- What is found in the dictionary of a list is one of the list's entries. -/
theorem mem_of_get?_ofList {l : List (String × α)} {k : String} {v : α}
    (h : (ofList l).get? k = some v) : (k, v) ∈ l := by
  induction l using List.reverseRecOn with
  | nil => cases h
  | append_singleton l e ih =>
    have hlast : ofList (l ++ [e]) = (ofList l).insert e.1 e.2 := by
      rw [ofList, List.foldl_append]; rfl
    rw [hlast, get?_insert] at h
    split at h
    · next hkey =>
      cases h
      exact List.mem_append_right l (by rw [← hkey]; exact List.mem_singleton_self _)
    · exact List.mem_append_left [e] (ih h)

theorem mem_values_iff {d : Dict α} {v : α} : v ∈ d.values ↔ ∃ k, d.get? k = some v := by
  simp only [values, List.mem_map]
  constructor
  · rintro ⟨⟨k, v⟩, h, rfl⟩
    exact ⟨k, mem_entries_iff.1 h⟩
  · rintro ⟨k, h⟩
    exact ⟨(k, v), mem_entries_iff.2 h, rfl⟩

/-- The values of a dictionary whose values name their keys stand in order of the names. -/
theorem pairwise_values_lt {d : Dict α} {f : α → String} (h : ∀ k v, d.get? k = some v → f v = k) :
    d.values.Pairwise (fun a b => f a < f b) := by
  rw [values, List.pairwise_map]
  refine d.sorted.imp_of_mem fun {a b} ha hb hlt => ?_
  rwa [h a.1 a.2 (mem_entries_iff.1 ha), h b.1 b.2 (mem_entries_iff.1 hb)]

theorem pairwise_values_ne {d : Dict α} {f : α → String} (h : ∀ k v, d.get? k = some v → f v = k) :
    d.values.Pairwise (fun a b => f a ≠ f b) := by
  refine (pairwise_values_lt h).imp ?_
  intro a b hlt he
  rw [he] at hlt
  exact String.lt_irrefl _ hlt

theorem contains_iff {d : Dict α} {k : String} : d.contains k = true ↔ ∃ v, d.get? k = some v :=
  Option.isSome_iff_exists

/-- An entry whose key is after all others stands behind them. -/
theorem insertInto_of_lt {key : String} {v : α} {l : List (String × α)} (h : ∀ e ∈ l, e.1 < key) :
    insertInto key v l = l ++ [(key, v)] := by
  induction l with
  | nil => rfl
  | cons e l ih =>
    obtain ⟨hlt, hl⟩ := List.forall_mem_cons.1 h
    have hnot : ¬ key < e.1 := fun hgt => String.lt_irrefl _ (String.lt_trans hlt hgt)
    have hne : key ≠ e.1 := fun he => String.lt_irrefl _ (he ▸ hlt)
    rw [insertInto, if_neg hnot, if_neg hne, ih hl, List.cons_append]

/-- Entries that stand in order are those of their dictionary. -/
theorem entries_ofList {l : List (String × α)} (h : l.Pairwise (fun a b => a.1 < b.1)) :
    (ofList l).entries = l := by
  induction l using List.reverseRecOn with
  | nil => rfl
  | append_singleton l e ih =>
    obtain ⟨hl, -, hlast⟩ := List.pairwise_append.1 h
    rw [ofList, List.foldl_append, List.foldl_cons, List.foldl_nil, ← ofList, insert]
    dsimp only
    rw [ih hl]
    exact insertInto_of_lt fun e' he' => hlast e' he' e List.mem_cons_self

/-! ## Dictionaries of the same keys -/

section Rel
variable {β : Type} {R : α → β → Prop} {d : Dict α} {e : Dict β}

/-- The same keys, and under each of them values that are related. -/
def Rel (R : α → β → Prop) (d : Dict α) (e : Dict β) : Prop :=
  List.Forall₂ (fun x y => x.1 = y.1 ∧ R x.2 y.2) d.entries e.entries

theorem Rel.exists_get? (h : Rel R d e) {k : String} {v : α} (hk : d.get? k = some v) :
    ∃ w, e.get? k = some w ∧ R v w := by
  unfold Rel at h
  unfold get? at hk ⊢
  generalize d.entries = l at h hk
  generalize e.entries = l' at h
  induction h with
  | nil => cases hk
  | @cons x y l l' hxy _ ih =>
    obtain ⟨k', v'⟩ := x
    obtain ⟨k'', w⟩ := y
    obtain ⟨rfl, hvw⟩ := hxy
    simp only [lookup] at hk ⊢
    split at hk
    · next he =>
      cases hk
      exact ⟨w, if_pos he, hvw⟩
    · next hne =>
      rw [if_neg hne]
      exact ih hk

theorem Rel.insert (h : Rel R d e) (k : String) {v : α} {w : β} (hvw : R v w) :
    Rel R (d.insert k v) (e.insert k w) := by
  unfold Rel at h ⊢
  unfold Dict.insert
  dsimp only
  generalize d.entries = l at h
  generalize e.entries = l' at h
  induction h with
  | nil => exact .cons ⟨rfl, hvw⟩ .nil
  | @cons x y l l' hxy hl ih =>
    obtain ⟨k', v'⟩ := x
    obtain ⟨k'', w'⟩ := y
    obtain ⟨rfl, hvw'⟩ := hxy
    simp only [insertInto]
    split
    · exact .cons ⟨rfl, hvw⟩ (.cons ⟨rfl, hvw'⟩ hl)
    split
    · exact .cons ⟨rfl, hvw⟩ hl
    · exact .cons ⟨rfl, hvw'⟩ ih

theorem Rel.values (h : Rel R d e) : List.Forall₂ R d.values e.values := by
  unfold Dict.values
  exact List.forall₂_map_left_iff.2 (List.forall₂_map_right_iff.2 (h.imp fun _ _ h => h.2))

end Rel
end ControlPlane.Dict
