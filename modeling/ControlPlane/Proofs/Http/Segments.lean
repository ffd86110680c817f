import ControlPlane.Proofs.Http.Uri
import ControlPlane.Proofs.Text.Split
import Mathlib.Data.List.Forall2

/-! # The segments of a path

A path is put together from its segments as they are, and taken apart at its slashes. The segments
that are read off it, each of them decoded by itself, are those that it was put together from if and
only if each of these can stand in a path as it is: a segment that is cut short, split or decoded to
another text has fewer bytes left than it would need.
-/
namespace ControlPlane

/-- A text that stands in a path as it is: it holds characters of a path but no slash,
and no percent escape. -/
structure Plain (s : String) : Prop where
  inside : ∀ c ∈ s.toList, Uri.isPathChar c = true
  slash : '/' ∉ s.toList
  decoded : Percent.decode? s = some s

theorem plain_of_forall {s : String}
    (h : ∀ c ∈ s.toList, Uri.isPathChar c = true ∧ c ≠ '/' ∧ c ≠ '%') : Plain s where
  inside c hc := (h c hc).1
  slash hmem := (h _ hmem).2.1 rfl
  decoded := Percent.decode?_of_not_mem fun hmem => (h _ hmem).2.2 rfl

namespace Segments
variable {ss found : List String} {cs rest : List Char} {path : String} {query : Option String}

/-- The characters of a path that is put together from segments. -/
def joined (ss : List String) : List Char := ['/'].intercalate (ss.map String.toList)

/-- The segments of a path, not decoded. -/
def ofPath (path : String) : List String := (Text.splitOn '/' path.toList).map String.ofList

/-- The segments decode to others, one by one. -/
abbrev Decode : List String → List String → Prop :=
  List.Forall₂ fun s t => Percent.decode? s = some t

theorem joined_blank_cons (s : String) (ss : List String) :
    joined ("" :: s :: ss) = '/' :: joined (s :: ss) := by
  simp [joined]

theorem joined_ofPath (path : String) : joined (ofPath path) = path.toList := by
  have hparts : (ofPath path).map String.toList = Text.splitOn '/' path.toList := by
    rw [ofPath, List.map_map]
    exact (List.map_congr_left fun _ _ => String.toList_ofList).trans (List.map_id _)
  rw [joined, hparts, Text.intercalate_splitOn]

/-! ## Sizes -/

/-- The number of bytes that characters take. -/
def width (cs : List Char) : Nat := (cs.flatMap String.utf8EncodeChar).length

theorem width_append (cs ds : List Char) : width (cs ++ ds) = width cs + width ds := by
  rw [width, List.flatMap_append, List.length_append, width, width]

theorem eq_nil_of_width {cs : List Char} (h : width cs = 0) : cs = [] := by
  cases cs with
  | nil => rfl
  | cons c cs =>
    have hc := c.utf8Size_pos
    rw [width, List.flatMap_cons, List.length_append, String.length_utf8EncodeChar] at h
    omega

/-- The bytes of segments, with a slash for each of them. -/
def total : List String → Nat
  | [] => 0
  | s :: ss => width s.toList + 1 + total ss

theorem width_joined (hne : ss ≠ []) : width (joined ss) + 1 = total ss := by
  induction ss with
  | nil => exact absurd rfl hne
  | cons s ss ih =>
    cases ss with
    | nil => simp [joined, total]
    | cons s' ss =>
      have hmore := ih (List.cons_ne_nil _ _)
      have hslash : width ['/'] = 1 := rfl
      simp only [joined, List.map_cons, List.intercalate_cons_cons, width_append, hslash, total]
        at hmore ⊢
      omega

/-- Decoding makes segments smaller, or leaves each of them its size. -/
theorem total_decode {ts : List String} (h : Decode ss ts) :
    total ts ≤ total ss ∧
    (total ss ≤ total ts → List.Forall₂ (fun s t => width s.toList = width t.toList) ss ts) := by
  induction h with
  | nil => exact ⟨Nat.le_refl _, fun _ => .nil⟩
  | @cons s t ss ts hst _ ih =>
    have hle : width t.toList ≤ width s.toList := Percent.length_encode_le hst
    simp only [total]
    refine ⟨by omega, fun htotal => .cons (by omega) (ih.2 (by omega))⟩

/-- Segments of the same sizes that are joined to the same text are the same. -/
theorem eq_of_width {ts : List String}
    (h : List.Forall₂ (fun s t => width s.toList = width t.toList) ss ts)
    (heq : joined ss = joined ts) : ss = ts := by
  have happend {cs ds cs' ds' : List Char} (hwidth : width cs = width ds)
      (h : cs ++ cs' = ds ++ ds') : cs = ds ∧ cs' = ds' := by
    obtain ⟨extra, rfl, rfl⟩ | ⟨extra, rfl, rfl⟩ := List.append_eq_append_iff.1 h
    all_goals
      rw [width_append] at hwidth
      have hnone : width extra = 0 := by omega
      obtain rfl := eq_nil_of_width hnone
      simp
  induction h with
  | nil => rfl
  | @cons s t ss ts hst hmore ih =>
    cases hmore with
    | nil =>
      have hchars : s.toList = t.toList := by simpa [joined] using heq
      rw [String.toList_injective hchars]
    | @cons s' t' ss ts hst' hmore =>
      simp only [joined, List.map_cons, List.intercalate_cons_cons, List.append_assoc] at heq
      obtain ⟨hchars, hrest⟩ := happend hst heq
      rw [String.toList_injective hchars, ih (List.append_cancel_left hrest)]

/-- Nothing is lost where segments in front of a path decode to those that the path was put together
from: decoding made them no longer. -/
theorem eq_of_decode (hfound : found ≠ []) (hss : ss ≠ []) (hfront : joined found <+: joined ss)
    (hdecode : Decode found ss) : found = ss := by
  obtain ⟨extra, hextra⟩ := hfront
  have hfoundWidth := width_joined hfound
  have hwidth := width_joined hss
  obtain ⟨hle, hsame⟩ := total_decode hdecode
  rw [← hextra, width_append] at hwidth
  have hnone : width extra = 0 := by omega
  obtain rfl := eq_nil_of_width hnone
  rw [List.append_nil] at hextra
  exact eq_of_width (hsame (by omega)) hextra

/-! ## What is read off a path -/

theorem ofPath_ne_nil (path : String) : ofPath path ≠ [] := by
  rw [ofPath, Ne, List.map_eq_nil_iff]
  exact Text.splitOn_ne_nil '/' path.toList

/-- What was put together from segments and goes on with no character of a path is read as their
path at most. So these segments are what is read and decoded only if all of them are plain. -/
theorem plain_of_read (hss : ss ≠ []) (hrest : ∀ c ∈ rest.head?, Uri.isPathChar c = false)
    (hread : Uri.pathAndQuery? (joined ss ++ rest) = some (path, query))
    (hdecode : Decode (ofPath path) ss) :
    ofPath path = ss ∧ ∀ s ∈ ss, Plain s := by
  have hpath := Uri.toList_path hread
  have hfront : path.toList <+: joined ss := by
    rw [hpath, List.takeWhile_append]
    split
    · have hnone : rest.takeWhile Uri.isPathChar = [] := by
        cases rest with
        | nil => rfl
        | cons c rest => exact List.takeWhile_cons_of_neg (by simp [hrest c rfl])
      simp [hnone]
    · exact List.takeWhile_prefix Uri.isPathChar
  have hsame : ofPath path = ss :=
    eq_of_decode (ofPath_ne_nil path) hss (by rwa [joined_ofPath]) hdecode
  refine ⟨hsame, fun s hs => ⟨fun c hc => ?_, ?_, ?_⟩⟩
  · have hmem : c ∈ path.toList := by
      rw [← joined_ofPath, hsame]
      exact Text.mem_intercalate (List.mem_map_of_mem hs) hc
    rw [hpath] at hmem
    exact List.mem_takeWhile_imp hmem
  · rw [← hsame] at hs
    obtain ⟨part, hpart, rfl⟩ := List.mem_map.1 hs
    rw [String.toList_ofList]
    exact Text.not_mem_of_mem_splitOn hpart
  · rw [hsame] at hdecode
    exact List.forall₂_same.1 hdecode s hs

theorem inside_joined (h : ∀ s ∈ ss, Plain s) : ∀ c ∈ joined ss, Uri.isPathChar c = true := by
  intro c hc
  obtain rfl | ⟨part, hpart, hc⟩ := Text.of_mem_intercalate hc
  · rfl
  · obtain ⟨s, hs, rfl⟩ := List.mem_map.1 hpart
    exact (h s hs).inside c hc

theorem ofPath_joined (hss : ss ≠ []) (h : ∀ s ∈ ss, Plain s) :
    ofPath (String.ofList (joined ss)) = ss := by
  have hsplit : Text.splitOn '/' (joined ss) = ss.map String.toList := by
    refine Text.splitOn_intercalate (by simpa using hss) fun part hpart => ?_
    obtain ⟨s, hs, rfl⟩ := List.mem_map.1 hpart
    exact (h s hs).slash
  rw [ofPath, String.toList_ofList, hsplit, List.map_map]
  exact (List.map_congr_left fun _ _ => String.ofList_toList).trans (List.map_id _)

end Segments
end ControlPlane
