import ControlPlane.Formation
import ControlPlane.Identifier

/-! # Identifiers, names and keys apart

An identifier without its dashes has exactly thirty-two characters and an app name at most
thirty, so no name is an identifier; and since identifiers are of one length, a formation's key
tells its app and its release.
-/
namespace ControlPlane

namespace Text

/-- The digits of other scripts than the first come late. -/
theorem digit_or_beyond {c : Char} (h : isDecimalDigit c = true) :
    (0x30 ≤ c.toNat ∧ c.toNat < 0x3A) ∨ 0x660 ≤ c.toNat := by
  simp only [isDecimalDigit, List.any_eq_true, Bool.and_eq_true, decide_eq_true_eq] at h
  obtain ⟨first, hfirst, hle, hlt⟩ := h
  have hzeros : ∀ first ∈ zeros, first = 0x30 ∨ 0x660 ≤ first := by decide
  rcases hzeros first hfirst with rfl | hbeyond
  · exact .inl ⟨hle, hlt⟩
  · exact .inr (by omega)

theorem isDecimalDigit_of_le {c : Char} (hlow : '0' ≤ c) (hhigh : c ≤ '9') :
    isDecimalDigit c = true := by
  have hbound : c.toNat < 0x30 + 10 := Nat.lt_succ_of_le hhigh
  refine List.any_eq_true.2 ⟨0x30, by decide, ?_⟩
  rw [Bool.and_eq_true, decide_eq_true_eq, decide_eq_true_eq]
  exact ⟨hlow, hbound⟩

end Text

namespace Identifier

@[simp] theorem clean_clean (s : String) : clean (clean s) = clean s := by
  simp [clean]

private theorem length_dropDash_le (cs : List Char) : (dropDash cs).length ≤ cs.length := by
  unfold dropDash
  split <;> simp

private theorem dropDash_of_not_mem {cs : List Char} (h : '-' ∉ cs) : dropDash cs = cs := by
  unfold dropDash
  split
  · simp at h
  · rfl

/-- Groups take their sizes, and exactly their sizes where no dash stands. -/
private theorem length_of_inGroups {sizes : List Nat} {cs : List Char}
    (h : inGroups sizes cs = true) :
    sizes.foldr (· + ·) 0 ≤ cs.length ∧ ('-' ∉ cs → cs.length = sizes.foldr (· + ·) 0) := by
  induction sizes generalizing cs with
  | nil =>
    have hcs : cs = [] := by simpa [inGroups] using h
    simp [hcs]
  | cons n sizes ih =>
    simp only [inGroups, Bool.and_eq_true, beq_iff_eq, List.length_take] at h
    obtain ⟨⟨hn, -⟩, hrest⟩ := h
    have hdrop : (cs.drop n).length = cs.length - n := List.length_drop
    have hdash : '-' ∉ cs → '-' ∉ cs.drop n := fun hd hm => hd (List.mem_of_mem_drop hm)
    obtain ⟨hle, heq⟩ := ih hrest
    rw [List.foldr_cons]
    by_cases hs : sizes.isEmpty
    · rw [if_pos hs] at hle heq
      refine ⟨by omega, fun hd => ?_⟩
      have := heq (hdash hd)
      omega
    · rw [if_neg hs] at hle heq
      have hlen := length_dropDash_le (cs.drop n)
      refine ⟨by omega, fun hd => ?_⟩
      rw [dropDash_of_not_mem (hdash hd)] at heq
      have := heq (hdash hd)
      omega

theorem length_of_isId {s : String} (h : isId s = true) : 32 ≤ s.toList.length :=
  (length_of_inGroups h).1

/-- The length of an identifier in its clean form. -/
theorem length_of_isId_clean {s : String} (h : isId s = true) (hc : clean s = s) :
    s.toList.length = 32 := by
  refine (length_of_inGroups h).2 ?_
  rw [← hc]
  simp [clean]

private theorem mem_dropDash {cs : List Char} {c : Char} (h : c ∈ cs) :
    c = '-' ∨ c ∈ dropDash cs := by
  unfold dropDash
  split
  · exact List.mem_cons.1 h
  · exact .inr h

/-- An identifier holds hexadecimal digits and dashes. -/
theorem of_mem_inGroups {sizes : List Nat} {cs : List Char} (h : inGroups sizes cs = true)
    {c : Char} (hc : c ∈ cs) : isHexDigit c = true ∨ c = '-' := by
  induction sizes generalizing cs with
  | nil =>
    have hcs : cs = [] := by simpa [inGroups] using h
    rw [hcs] at hc
    cases hc
  | cons n sizes ih =>
    simp only [inGroups, Bool.and_eq_true, List.all_eq_true] at h
    obtain ⟨⟨-, hdigits⟩, hmore⟩ := h
    rw [← List.take_append_drop n cs] at hc
    rcases List.mem_append.1 hc with hc | hc
    · exact .inl (hdigits c hc)
    · split at hmore
      · exact ih hmore hc
      · rcases mem_dropDash hc with rfl | hc
        · exact .inr rfl
        · exact ih hmore hc

private theorem filter_dropDash (cs : List Char) :
    (dropDash cs).filter (· != '-') = cs.filter (· != '-') := by
  unfold dropDash
  split <;> simp

private theorem dash_not_mem_of_digits {cs : List Char} (h : cs.all isHexDigit = true) : '-' ∉ cs :=
  fun hmem =>
  absurd (List.all_eq_true.1 h _ hmem) (by decide)

/-- A text in groups is in groups without its dashes, for cleaning takes no digit away. -/
theorem inGroups_filter {sizes : List Nat} {cs : List Char} (h : inGroups sizes cs = true) :
    inGroups sizes (cs.filter (· != '-')) = true := by
  induction sizes generalizing cs with
  | nil =>
    obtain rfl : cs = [] := by simpa [inGroups] using h
    rfl
  | cons n sizes ih =>
    simp only [inGroups, Bool.and_eq_true, beq_iff_eq] at h
    obtain ⟨⟨hn, hdigits⟩, hmore⟩ := h
    have hfront : (cs.take n).filter (· != '-') = cs.take n := by
      rw [List.filter_eq_self]
      intro c hc
      rw [bne_iff_ne]
      rintro rfl
      exact dash_not_mem_of_digits hdigits hc
    have hfilter : cs.filter (· != '-') = cs.take n ++ (cs.drop n).filter (· != '-') := by
      rw [← hfront, ← List.filter_append, List.take_append_drop]
    have hclean : dropDash ((cs.drop n).filter (· != '-')) = (cs.drop n).filter (· != '-') :=
      dropDash_of_not_mem (by simp)
    have hrest := ih hmore
    rw [apply_ite (List.filter (· != '-')), filter_dropDash, ite_self] at hrest
    rw [hfilter, inGroups, List.take_left' hn, List.drop_left' hn, hn, hdigits, hclean,
      ite_self, hrest]
    simp

theorem isId_clean {s : String} (h : isId s = true) : isId (clean s) = true := by
  rw [isId, clean, String.toList_ofList]
  exact inGroups_filter h

theorem isHexDigit_of_mem_clean {s : String} (h : isId s = true) {c : Char}
    (hc : c ∈ (clean s).toList) :
    isHexDigit c = true := by
  have hdash : c ≠ '-' := by
    rw [clean, String.toList_ofList] at hc
    simpa using (List.mem_filter.1 hc).2
  exact (of_mem_inGroups (isId_clean h) hc).resolve_right hdash

end Identifier

private theorem length_le_utf8ByteSize (cs : List Char) :
    cs.length ≤ (String.ofList cs).utf8ByteSize := by
  induction cs with
  | nil => simp
  | cons c cs ih =>
    rw [String.ofList_cons, String.utf8ByteSize_append, String.utf8ByteSize_singleton,
      List.length_cons]
    have hc : 0 < c.utf8Size := Char.utf8Size_pos c
    omega

theorem AppName.length_le_of_isValid {name : String} (h : AppName.isValid name = true) :
    name.toList.length ≤ AppName.maxSize := by
  simp only [AppName.isValid, Bool.and_eq_true, decide_eq_true_eq] at h
  have hlen := length_le_utf8ByteSize name.toList
  rw [String.ofList_toList] at hlen
  exact Nat.le_trans hlen h.1

/-- No name can be taken for an identifier. -/
theorem AppName.not_isId {name : String} (h : AppName.isValid name = true) :
    Identifier.isId name = false := by
  rw [Bool.eq_false_iff]
  intro hid
  have hlong := Identifier.length_of_isId hid
  have hshort := length_le_of_isValid h
  rw [maxSize] at hshort
  omega

theorem Formation.keyOf_inj {app release app' release' : String}
    (hlen : app.toList.length = app'.toList.length) (h : keyOf app release = keyOf app' release') :
    app = app' ∧ release = release' := by
  have hl : app.toList ++ ('/' :: release.toList) = app'.toList ++ ('/' :: release'.toList) := by
    simpa [keyOf] using congrArg String.toList h
  obtain ⟨happ, hrel⟩ := List.append_inj hl hlen
  exact ⟨String.toList_inj.1 happ, String.toList_inj.1 (List.cons.inj hrel).2⟩

end ControlPlane
