import ControlPlane.Text.Split
import Mathlib.Data.List.Basic

/-! # Texts that are split are joined again

Joining the parts of a text gives the text, and splitting a text that was joined gives its parts,
each split once more where it holds the separator itself.
-/
namespace ControlPlane.Text
variable {separator : Char}

theorem splitOn_ne_nil (separator : Char) (cs : List Char) : splitOn separator cs ≠ [] := by
  cases cs with
  | nil => simp [splitOn]
  | cons c cs =>
    rw [splitOn]
    split
    · simp
    · split <;> simp

theorem intercalate_splitOn (separator : Char) (cs : List Char) :
    [separator].intercalate (splitOn separator cs) = cs := by
  induction cs with
  | nil => rfl
  | cons c cs ih =>
    obtain ⟨part, parts, hparts⟩ := List.exists_cons_of_ne_nil (splitOn_ne_nil separator cs)
    rw [splitOn, hparts]
    rw [hparts] at ih
    split
    · next hc =>
      rw [List.intercalate_cons_cons, ih, hc]
      rfl
    · cases parts with
      | nil => simpa using ih
      | cons part' parts =>
        rw [List.intercalate_cons_cons] at ih ⊢
        rw [← ih]
        rfl

theorem mem_intercalate {c : Char} {part : List Char} {parts : List (List Char)}
    (hpart : part ∈ parts) (hc : c ∈ part) : c ∈ [separator].intercalate parts := by
  induction parts with
  | nil => cases hpart
  | cons first parts ih =>
    cases parts with
    | nil =>
      obtain rfl := List.mem_singleton.1 hpart
      simpa using hc
    | cons second parts =>
      rw [List.intercalate_cons_cons, List.append_assoc]
      rcases List.mem_cons.1 hpart with rfl | hpart
      · exact List.mem_append_left _ hc
      · exact List.mem_append_right _ (List.mem_append_right _ (ih hpart))

theorem of_mem_intercalate {c : Char} {parts : List (List Char)}
    (h : c ∈ [separator].intercalate parts) :
    c = separator ∨ ∃ part ∈ parts, c ∈ part := by
  induction parts with
  | nil => simp at h
  | cons first parts ih =>
    cases parts with
    | nil => exact .inr ⟨first, List.mem_singleton_self _, by simpa using h⟩
    | cons second parts =>
      rw [List.intercalate_cons_cons, List.append_assoc] at h
      rcases List.mem_append.1 h with h | h
      · exact .inr ⟨first, List.mem_cons_self, h⟩
      rcases List.mem_append.1 h with h | h
      · exact .inl (List.mem_singleton.1 h)
      · obtain rfl | ⟨part, hpart, hc⟩ := ih h
        · exact .inl rfl
        · exact .inr ⟨part, List.mem_cons_of_mem _ hpart, hc⟩

/-- No part holds the separator. -/
theorem not_mem_of_mem_splitOn {cs part : List Char} (h : part ∈ splitOn separator cs) :
    separator ∉ part := by
  induction cs generalizing part with
  | nil =>
    obtain rfl := List.mem_singleton.1 h
    exact List.not_mem_nil
  | cons c cs ih =>
    obtain ⟨first, parts, hparts⟩ := List.exists_cons_of_ne_nil (splitOn_ne_nil separator cs)
    rw [splitOn, hparts] at h
    rw [hparts] at ih
    split at h
    · rcases List.mem_cons.1 h with rfl | h
      · exact List.not_mem_nil
      · exact ih h
    · next hc =>
      rcases List.mem_cons.1 h with rfl | h
      · rw [List.mem_cons, not_or]
        exact ⟨Ne.symm hc, ih List.mem_cons_self⟩
      · exact ih (List.mem_cons_of_mem _ h)

theorem splitOn_of_not_mem {cs : List Char} (h : separator ∉ cs) : splitOn separator cs = [cs] := by
  induction cs with
  | nil => rfl
  | cons c cs ih =>
    obtain ⟨hc, hcs⟩ := not_or.1 (List.mem_cons.not.1 h)
    rw [splitOn, if_neg (Ne.symm hc), ih hcs]

/-- A separator between two texts is where the parts of the one end and those of the other begin. -/
theorem splitOn_append (cs rest : List Char) :
    splitOn separator (cs ++ separator :: rest) =
      splitOn separator cs ++ splitOn separator rest := by
  induction cs with
  | nil => simp [splitOn]
  | cons c cs ih =>
    obtain ⟨part, parts, hparts⟩ := List.exists_cons_of_ne_nil (splitOn_ne_nil separator cs)
    rw [List.cons_append, splitOn, splitOn, ih, hparts]
    split <;> rfl

/-- Texts that were joined are split as each of them is. -/
theorem splitOn_intercalate_eq_flatMap {texts : List (List Char)} (hne : texts ≠ []) :
    splitOn separator ([separator].intercalate texts) = texts.flatMap (splitOn separator) := by
  induction texts with
  | nil => exact absurd rfl hne
  | cons text texts ih =>
    cases texts with
    | nil => simp
    | cons text' texts =>
      rw [List.intercalate_cons_cons, List.append_assoc, List.singleton_append, splitOn_append,
        ih (List.cons_ne_nil _ _)]
      rfl

/-- Parts without the separator are split as they were joined. -/
theorem splitOn_intercalate {parts : List (List Char)} (hne : parts ≠ [])
    (h : ∀ part ∈ parts, separator ∉ part) :
    splitOn separator ([separator].intercalate parts) = parts := by
  rw [splitOn_intercalate_eq_flatMap hne]
  induction parts with
  | nil => rfl
  | cons part parts ih =>
    obtain ⟨hpart, hparts⟩ := List.forall_mem_cons.1 h
    rw [List.flatMap_cons, splitOn_of_not_mem hpart, List.singleton_append]
    cases parts with
    | nil => rfl
    | cons => rw [ih (List.cons_ne_nil _ _) hparts]

/-- A separator behind every part but the last. -/
theorem intercalate_eq_flatMap {parts : List (List Char)} (hne : parts ≠ []) :
    [separator].intercalate parts =
      parts.dropLast.flatMap (· ++ [separator]) ++ parts.getLast hne := by
  induction parts with
  | nil => exact absurd rfl hne
  | cons part parts ih =>
    cases parts with
    | nil => simp
    | cons part' parts =>
      rw [List.intercalate_cons_cons, ih (List.cons_ne_nil _ _),
        List.dropLast_cons_of_ne_nil (List.cons_ne_nil _ _), List.flatMap_cons,
        List.getLast_cons (List.cons_ne_nil _ _)]
      simp only [List.append_assoc]

end ControlPlane.Text
