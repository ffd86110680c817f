import ControlPlane.Proofs.Toml.Document

/-! # Sections of a TOML document

A section is a header with pairs below it; it makes a table, or one more table of an array. Where no
name is used twice, the tables of a document are those of its sections, in order.
-/
namespace ControlPlane.Toml

namespace Entries
variable {front : Entries} {key : String} {node : Node}

theorem get?_append (h : front.get? key = none) (back : Entries) :
    get? key (front ++ back) = back.get? key := by
  have hnone : front.find? (·.1 == key) = none := Option.map_eq_none_iff.1 h
  rw [get?, List.find?_append, hnone, Option.none_or]
  rfl

theorem get?_last (h : front.get? key = none) (node : Node) :
    get? key (front ++ [(key, node)]) = some node := by
  rw [get?_append h, get?, List.find?_cons, beq_self_eq_true]
  rfl

theorem set_last (h : front.get? key = none) (node node' : Node) :
    set key node' (front ++ [(key, node)]) = front ++ [(key, node')] := by
  induction front with
  | nil => simp [set]
  | cons entry front ih =>
    obtain ⟨k, n⟩ := entry
    have hk : k ≠ key := by
      rintro rfl
      simp [get?] at h
    have hrest : get? key front = none := by simpa [get?, hk] using h
    rw [List.cons_append, set, if_neg hk, ih hrest]
    rfl

end Entries

namespace Reader
open Entries

/-- The node of a section: a table, or the last of the tables of an array with those before it. -/
def sectionNode (earlier : Option (List Entries)) (inner : Entries) : Node :=
  earlier.elim (.table .stated inner) fun items => .tables (inner :: items)

/-- The nodes of pairs. -/
def nodes (pairs : List (String × Written)) : Entries :=
  pairs.map fun (key, w) => (key, .value w.value)

def pairLines (pairs : List (String × Written)) : List Line := pairs.map fun (key, w) => .pair key w

variable {front inner : Entries} {name key : String}

theorem apply_pair (hfront : front.get? name = none) (earlier : Option (List Entries))
    (hinner : inner.get? key = none) (w : Written) :
    (Line.pair key w).apply ⟨[name], front ++ [(name, sectionNode earlier inner)]⟩ =
      some ⟨[name], front ++ [(name, sectionNode earlier (inner ++ [(key, .value w.value)]))]⟩ := by
  have hadd : addValue [] key w.value .stated inner = some (inner ++ [(key, .value w.value)]) := by
    simp [addValue, descend, hinner]
  rw [Line.apply, addBelow, descend, get?_last hfront]
  cases earlier with
  | none =>
    dsimp only [sectionNode, Option.elim, Option.getD]
    rw [Bool.false_and, if_neg Bool.false_ne_true, descend, hadd, Option.map_some, set_last hfront]
    rfl
  | some items =>
    dsimp only [sectionNode, Option.elim, Option.getD]
    rw [descend, hadd, Option.map_some, set_last hfront]
    rfl

theorem get?_append_singleton {key' : String} (hne : key' ≠ key) (h : inner.get? key = none)
    (node : Node) :
    get? key (inner ++ [(key', node)]) = none := by
  rw [get?_append h, get?, List.find?_cons, beq_eq_false_iff_ne.2 hne]
  rfl

theorem foldlM_pairs (hfront : front.get? name = none) (earlier : Option (List Entries))
    {pairs : List (String × Written)} (hkeys : (pairs.map (·.1)).Nodup)
    (hinner : ∀ p ∈ pairs, inner.get? p.1 = none) :
    (pairLines pairs).foldlM Line.apply ⟨[name], front ++ [(name, sectionNode earlier inner)]⟩ =
      some ⟨[name], front ++ [(name, sectionNode earlier (inner ++ nodes pairs))]⟩ := by
  induction pairs generalizing inner with
  | nil =>
    rw [nodes, List.map_nil, List.append_nil]
    rfl
  | cons pair pairs ih =>
    obtain ⟨key, w⟩ := pair
    obtain ⟨hkey, hkeys⟩ := List.nodup_cons.1 hkeys
    obtain ⟨hnow, hlater⟩ := List.forall_mem_cons.1 hinner
    have hfresh : ∀ p ∈ pairs, get? p.1 (inner ++ [(key, .value w.value)]) = none := by
      intro p hp
      have hne : key ≠ p.1 := fun he => hkey (List.mem_map.2 ⟨p, hp, he.symm⟩)
      exact get?_append_singleton hne (hlater p hp) _
    have hstep := ih hkeys hfresh
    rw [List.append_assoc] at hstep
    rw [pairLines, List.map_cons, List.foldlM_cons, apply_pair hfront earlier hnow]
    exact hstep

/-- Pairs that can be written: their keys need no quotes, and no key is used twice. -/
structure Writable (pairs : List (String × Written)) : Prop where
  distinct : (pairs.map (·.1)).Nodup
  fits : ∀ p ∈ pairs, IsBare p.1 ∧ p.2.Fits

theorem Writable.fits_pairLines {pairs : List (String × Written)} (h : Writable pairs) :
    ∀ l ∈ pairLines pairs, l.Fits := by
  intro l hl
  obtain ⟨p, hp, rfl⟩ := List.mem_map.1 hl
  exact h.fits p hp

/-! ## Tables -/

/-- The lines of a section that makes a table. -/
def tableLines (name : String) (pairs : List (String × Written)) : List Line :=
  .table name :: pairLines pairs

theorem fits_tableLines (hname : IsBare name) {pairs : List (String × Written)}
    (h : Writable pairs) :
    ∀ l ∈ tableLines name pairs, l.Fits :=
  List.forall_mem_cons.2 ⟨hname, h.fits_pairLines⟩

theorem foldlM_tableLines (hfront : front.get? name = none) {pairs : List (String × Written)}
    (h : Writable pairs) (header : List String) :
    (tableLines name pairs).foldlM Line.apply ⟨header, front⟩ =
      some ⟨[name], front ++ [(name, .table .stated (nodes pairs))]⟩ := by
  have happly : (Line.table name).apply ⟨header, front⟩ =
      some ⟨[name], front ++ [(name, sectionNode none [])]⟩ := by
    rw [Line.apply, openTable, descend, hfront]
    rfl
  rw [tableLines, List.foldlM_cons, happly]
  exact foldlM_pairs hfront none h.distinct fun _ _ => rfl

/-! ## Arrays of tables -/

/-- The lines of a section that makes one more table of an array, after a blank line. -/
def elementLines (name : String) (pairs : List (String × Written)) : List Line :=
  .blank :: .element name :: pairLines pairs

theorem fits_elementLines (hname : IsBare name) {pairs : List (String × Written)}
    (h : Writable pairs) :
    ∀ l ∈ elementLines name pairs, l.Fits :=
  List.forall_mem_cons.2 ⟨trivial, List.forall_mem_cons.2 ⟨hname, h.fits_pairLines⟩⟩

/-- The first section of an array makes it, and the others add to it. -/
theorem foldlM_elementLines (hfront : front.get? name = none) {entries : Entries}
    {items : List Entries}
    (hentries : (entries = front ∧ items = []) ∨ entries = front ++ [(name, .tables items)])
    {pairs : List (String × Written)} (h : Writable pairs) (header : List String) :
    (elementLines name pairs).foldlM Line.apply ⟨header, entries⟩ =
      some ⟨[name], front ++ [(name, .tables (nodes pairs :: items))]⟩ := by
  have happly : (Line.element name).apply ⟨header, entries⟩ =
      some ⟨[name], front ++ [(name, sectionNode (some items) [])]⟩ := by
    rw [Line.apply, openElement, descend]
    obtain ⟨rfl, rfl⟩ | rfl := hentries
    · rw [hfront]
      rfl
    · rw [get?_last hfront]
      dsimp only
      rw [set_last hfront]
      rfl
  rw [elementLines, List.foldlM_cons, Line.apply]
  change ((Line.element name).apply _ >>= fun p => (pairLines pairs).foldlM Line.apply p) = _
  rw [happly]
  exact foldlM_pairs hfront (some items) h.distinct fun _ _ => rfl

/-- The tables of an array come in the order of their sections. -/
theorem foldlM_flatMap_elementLines (hfront : front.get? name = none)
    {tables : List (List (String × Written))} (h : ∀ pairs ∈ tables, Writable pairs)
    (items : List Entries) (header : List String) :
    ((tables.flatMap (elementLines name)).foldlM Line.apply
      ⟨header, front ++ [(name, .tables items)]⟩).map (·.entries) =
      some (front ++ [(name, .tables ((tables.map nodes).reverse ++ items))]) := by
  induction tables generalizing items header with
  | nil => rfl
  | cons pairs tables ih =>
    obtain ⟨hnow, hlater⟩ := List.forall_mem_cons.1 h
    rw [List.flatMap_cons, List.foldlM_append, foldlM_elementLines hfront (.inr rfl) hnow,
      List.map_cons, List.reverse_cons, List.append_assoc]
    exact ih hlater (nodes pairs :: items) [name]

/-! ## What is read of them -/

theorem elements_eq (items : List Entries) :
    Node.elements items = items.map fun entries => .table (Node.members entries) := by
  induction items with
  | nil => rfl
  | cons entries items ih => rw [Node.elements, ih, List.map_cons]

end Reader
end ControlPlane.Toml
