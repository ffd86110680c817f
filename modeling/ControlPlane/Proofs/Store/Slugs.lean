import ControlPlane.Proofs.Store.Names
import ControlPlane.Proofs.Text.Split

/-! # Which texts are names of apps

A name is groups of letters and digits joined by single hyphens, at most thirty bytes of them.
Digits of every script count, so the names are the slugs, which know the digits 0 to 9 only, and
besides them just the texts that pass with digits of other scripts.
-/
namespace ControlPlane
namespace AppName

/-- One or more non-empty groups of characters of a kind, joined by single hyphens. -/
def Grouped (kind : Char → Bool) (cs : List Char) : Prop :=
  ∃ groups, groups ≠ [] ∧ (∀ group ∈ groups, group ≠ [] ∧ ∀ c ∈ group, kind c = true) ∧
    ['-'].intercalate groups = cs

def isSlugChar (c : Char) : Bool := ('a' ≤ c && c ≤ 'z') || ('0' ≤ c && c ≤ '9')

/-- One to thirty characters in groups of the letters a to z and the digits 0 to 9. -/
structure IsSlug (name : String) : Prop where
  nonempty : 1 ≤ name.toList.length
  short : name.toList.length ≤ 30
  grouped : Grouped isSlugChar name.toList

/-- At most thirty bytes in groups of the letters a to z and of decimal digits of any script. -/
structure IsName (name : String) : Prop where
  short : name.utf8ByteSize ≤ 30
  grouped : Grouped isLetterOrDigit name.toList

/-! ## Groups -/

section Groups
variable {kind kind' : Char → Bool} {cs first : List Char} {more : List (List Char)}

theorem Grouped.mono (hkind : ∀ c ∈ cs, kind c = true → kind' c = true) (h : Grouped kind cs) :
    Grouped kind' cs := by
  obtain ⟨groups, hne, hgroups, rfl⟩ := h
  refine ⟨groups, hne, fun group hgroup => ⟨(hgroups group hgroup).1, fun c hc => ?_⟩, rfl⟩
  exact hkind c (Text.mem_intercalate hgroup hc) ((hgroups group hgroup).2 c hc)

/-- What is in groups is of their kind or joins them. -/
theorem Grouped.of_mem (h : Grouped kind cs) {c : Char} (hc : c ∈ cs) :
    c = '-' ∨ kind c = true := by
  obtain ⟨groups, -, hgroups, rfl⟩ := h
  obtain rfl | ⟨group, hgroup, hc⟩ := Text.of_mem_intercalate hc
  · exact .inl rfl
  · exact .inr ((hgroups group hgroup).2 c hc)

theorem Grouped.ne_nil (h : Grouped kind cs) : cs ≠ [] := by
  rintro rfl
  obtain ⟨groups, hne, hgroups, hjoined⟩ := h
  obtain ⟨group, groups, rfl⟩ := List.exists_cons_of_ne_nil hne
  obtain ⟨c, hc⟩ := List.exists_mem_of_ne_nil _ (hgroups group List.mem_cons_self).1
  have hmem : c ∈ ['-'].intercalate (group :: groups) := Text.mem_intercalate List.mem_cons_self hc
  rw [hjoined] at hmem
  cases hmem

/-- The groups are the parts between the hyphens. -/
theorem grouped_iff (hhyphen : kind '-' = false) :
    Grouped kind cs ↔ ∀ group ∈ Text.splitOn '-' cs, group ≠ [] ∧ ∀ c ∈ group, kind c = true := by
  constructor
  · rintro ⟨groups, hne, hgroups, rfl⟩
    rwa [Text.splitOn_intercalate hne]
    intro group hgroup hmem
    rw [(hgroups group hgroup).2 _ hmem] at hhyphen
    cases hhyphen
  · exact fun h =>
      ⟨Text.splitOn '-' cs, Text.splitOn_ne_nil '-' cs, h, Text.intercalate_splitOn '-' cs⟩

theorem isLetterOrDigit_hyphen : isLetterOrDigit '-' = false := by decide

/-- A scan that is inside a group takes the rest of it, none perhaps; one that has to
begin a group does not. -/
theorem inGroups_iff_of_splitOn {fresh : Bool} (h : Text.splitOn '-' cs = first :: more) :
    inGroups fresh cs = true ↔
      (fresh = true → first ≠ []) ∧ (∀ c ∈ first, isLetterOrDigit c = true) ∧
      ∀ group ∈ more, group ≠ [] ∧ ∀ c ∈ group, isLetterOrDigit c = true := by
  induction cs generalizing fresh first more with
  | nil =>
    cases h
    simp [inGroups]
  | cons c cs ih =>
    obtain ⟨part, parts, hparts⟩ := List.exists_cons_of_ne_nil (Text.splitOn_ne_nil '-' cs)
    rw [Text.splitOn, hparts] at h
    split at h
    · next hc =>
      cases h
      rw [inGroups, hc, isLetterOrDigit_hyphen, beq_self_eq_true, Bool.true_and,
        if_neg Bool.false_ne_true, Bool.and_eq_true, ih hparts]
      simp [and_assoc]
    · next hc =>
      cases h
      rw [inGroups]
      by_cases hkind : isLetterOrDigit c = true
      · rw [if_pos hkind, ih hparts]
        simp [hkind]
      · simp [hkind, hc]

theorem inGroups_iff : inGroups true cs = true ↔ Grouped isLetterOrDigit cs := by
  obtain ⟨first, more, hparts⟩ := List.exists_cons_of_ne_nil (Text.splitOn_ne_nil '-' cs)
  rw [inGroups_iff_of_splitOn hparts, grouped_iff isLetterOrDigit_hyphen, hparts,
    List.forall_mem_cons]
  simp [and_assoc]

end Groups

/-! ## Names and slugs -/

theorem isValid_iff {name : String} : isValid name = true ↔ IsName name := by
  rw [isValid, Bool.and_eq_true, decide_eq_true_eq, inGroups_iff]
  exact ⟨fun h => ⟨h.1, h.2⟩, fun h => ⟨h.short, h.grouped⟩⟩

/-- A digit of the first script is one of the digits 0 to 9, and no other character of a
name has a code that low. -/
theorem isSlugChar_iff {c : Char} :
    isSlugChar c = true ↔ isLetterOrDigit c = true ∧ c.toNat < 128 := by
  simp only [isSlugChar, isLetterOrDigit, Bool.or_eq_true, Bool.and_eq_true, decide_eq_true_eq]
  constructor
  · rintro (⟨hlow, hhigh⟩ | ⟨hlow, hhigh⟩)
    · exact ⟨.inl ⟨hlow, hhigh⟩, Nat.lt_of_le_of_lt hhigh (by decide)⟩
    · exact ⟨.inr (Text.isDecimalDigit_of_le hlow hhigh), Nat.lt_of_le_of_lt hhigh (by decide)⟩
  · rintro ⟨hletter | hdigit, hcode⟩
    · exact .inl hletter
    · rcases Text.digit_or_beyond hdigit with ⟨hlow, hhigh⟩ | hbeyond
      · exact .inr ⟨hlow, Nat.le_of_lt_succ hhigh⟩
      · omega

/-- Characters of the first 128 codes take a byte each. -/
theorem utf8ByteSize_of_ascii {cs : List Char} (h : ∀ c ∈ cs, c.toNat < 128) :
    (String.ofList cs).utf8ByteSize = cs.length := by
  induction cs with
  | nil => rfl
  | cons c cs ih =>
    obtain ⟨hc, hcs⟩ := List.forall_mem_cons.1 h
    have hsize : c.utf8Size = 1 := Char.utf8Size_eq_one_iff.2 (Nat.le_of_lt_succ hc)
    rw [String.ofList_cons, String.utf8ByteSize_append, String.utf8ByteSize_singleton, ih hcs,
      List.length_cons, hsize, Nat.add_comm]

/-- The slugs are the names without a digit of another script. -/
theorem isSlug_iff {name : String} :
    IsSlug name ↔ IsName name ∧ ∀ c ∈ name.toList, c.toNat < 128 := by
  have hsize (hcodes : ∀ c ∈ name.toList, c.toNat < 128) :
      name.utf8ByteSize = name.toList.length := by
    rw [← utf8ByteSize_of_ascii hcodes, String.ofList_toList]
  constructor
  · rintro ⟨-, hshort, hgrouped⟩
    have hcodes : ∀ c ∈ name.toList, c.toNat < 128 := by
      intro c hc
      rcases hgrouped.of_mem hc with rfl | hkind
      · decide
      · exact (isSlugChar_iff.1 hkind).2
    exact ⟨⟨hsize hcodes ▸ hshort, hgrouped.mono fun c _ hkind => (isSlugChar_iff.1 hkind).1⟩,
      hcodes⟩
  · rintro ⟨⟨hshort, hgrouped⟩, hcodes⟩
    refine ⟨List.length_pos_iff.2 hgrouped.ne_nil, hsize hcodes ▸ hshort,
      hgrouped.mono fun c hc hkind => ?_⟩
    exact isSlugChar_iff.2 ⟨hkind, hcodes c hc⟩

end AppName

namespace Store

/-- The check of the name of a new app lets it pass: the app is created, or it is in
conflict with another one. -/
def Passes (s : Store) (m : Moment) (app : App) : Prop :=
  ∀ reason, s.createApp m app ≠ .error (.invalid reason)

/-- A text is a name in the store: that of an app, or one that leads to an app. -/
def HasName (s : Store) (name : String) : Prop :=
  (∃ row ∈ s.apps.values, row.app.name = name) ∨ ∃ id, s.appNames.get? name = some id

theorem passes_iff (s : Store) (m : Moment) (app : App) :
    s.Passes m app ↔ AppName.isValid app.name = true := by
  constructor
  · intro hpasses
    by_contra hinvalid
    have hcheck : ∃ reason, checkAppName app.name = .error (.invalid reason) := by
      rw [checkAppName, if_neg hinvalid]
      split <;> exact ⟨_, rfl⟩
    obtain ⟨reason, hcheck⟩ := hcheck
    exact hpasses reason (by rw [createApp, hcheck]; rfl)
  · intro hvalid reason
    rw [createApp, checkAppName_of_isValid hvalid]
    change (if s.appNames.contains app.name = true then _ else _) ≠ _
    split
    · simp
    · split <;> simp

theorem Indexed.isValid_of_hasName {s : Store} (hs : Indexed s) {name : String}
    (h : s.HasName name) :
    AppName.isValid name = true := by
  obtain ⟨row, hrow, rfl⟩ | ⟨id, hid⟩ := h
  · exact hs.valid _ row (hs.mem_values.1 hrow)
  · exact hs.name_valid hid

/-- A name passes the check of a new app, in any store, if and only if it is at most thirty bytes in
groups of the letters a to z and of decimal digits of any script, joined by single hyphens. Such
texts and no others are the names that a store has after some run of writes. Those among them that
have no digit of another script than the first are the slugs of one to thirty characters. -/
theorem names_passed (app : App) :
    (∀ (s : Store) m, s.Passes m app ↔ AppName.IsName app.name) ∧
    ((∃ ws, (performAll {} ws).HasName app.name) ↔ AppName.IsName app.name) ∧
    (AppName.IsSlug app.name ↔ AppName.IsName app.name ∧ ∀ c ∈ app.name.toList, c.toNat < 128) := by
  refine ⟨fun s m => (passes_iff s m app).trans AppName.isValid_iff, ?_, AppName.isSlug_iff⟩
  rw [← AppName.isValid_iff]
  constructor
  · rintro ⟨ws, hname⟩
    exact (indexed_performAll ws).isValid_of_hasName hname
  · intro hvalid
    obtain ⟨row, hget, -, -, hname⟩ := exists_first_app ⟨.epoch, ""⟩ hvalid
    exact ⟨_, .inl ⟨row, Dict.mem_values_iff.2 ⟨_, hget⟩, hname⟩⟩

/-- An app is created under a digit that is not one of 0 to 9, and the store has that
name, which is no slug. -/
theorem foreign_digit_passes :
    let m : Moment := ⟨.epoch, ""⟩
    ({} : Store).Passes m { name := "٣" } ∧
      (performAll {} [(m, .createApp { name := "٣" })]).HasName "٣" ∧
      ¬ AppName.IsSlug "٣" := by
  intro m
  refine ⟨(passes_iff _ _ _).2 (by decide +kernel), .inl (by decide +kernel), fun hslug => ?_⟩
  exact absurd ((AppName.isSlug_iff.1 hslug).2 '٣' (by decide)) (by decide)

end Store
end ControlPlane
