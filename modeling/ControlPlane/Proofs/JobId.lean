import ControlPlane.Identifier
import Mathlib.Data.List.TakeWhile
import Mathlib.Data.Set.Function

/-! # Job identifiers and their texts

A text is read as an address if it has something in front of its first hyphen and something
behind it; the address is the two halves, and it is written as the text again. Addresses are
those identifiers whose host has no hyphen and neither half of which is empty, so addresses and
such texts are one for one.
-/
namespace ControlPlane
namespace JobId

/-- Both halves are there, and the first hyphen of the text is the one that joins them. -/
structure IsAddress (id : JobId) : Prop where
  host : id.host ≠ ""
  plain : '-' ∉ id.host.toList
  job : id.job ≠ ""

instance (id : JobId) : Decidable id.IsAddress :=
  decidable_of_iff (id.host ≠ "" ∧ '-' ∉ id.host.toList ∧ id.job ≠ "")
    ⟨fun h => ⟨h.1, h.2.1, h.2.2⟩, fun h => ⟨h.host, h.plain, h.job⟩⟩

theorem toList_render (id : JobId) : id.render.toList = id.host.toList ++ '-' :: id.job.toList := by
  simp [render]

theorem render_inj_of_host {id id' : JobId} (hhost : id.host = id'.host)
    (h : id.render = id'.render) : id = id' := by
  have hl := congrArg String.toList h
  rw [toList_render, toList_render, hhost] at hl
  have hjob : id.job = id'.job := String.toList_inj.1 (List.cons.inj (List.append_cancel_left hl)).2
  cases id; cases id'
  simp_all

/-- A text is read as an identifier if and only if it is that identifier
rendered, and an address. -/
theorem parse?_eq_some_iff {text : String} {id : JobId} :
    parse? text = some id ↔ id.IsAddress ∧ text = id.render := by
  constructor
  · intro h
    have hsplit :
        text.toList.takeWhile (· != '-') ++ text.toList.dropWhile (· != '-') = text.toList :=
      List.takeWhile_append_dropWhile
    have hhead := List.head?_dropWhile_not (· != '-') text.toList
    dsimp only [parse?] at h
    split at h
    · cases h
    next d job hdrop =>
      rw [hdrop] at hsplit hhead
      obtain rfl : d = '-' := by simpa using hhead
      split at h
      · cases h
      next hthere =>
        cases h
        rw [Bool.or_eq_true, not_or, List.isEmpty_iff, List.isEmpty_iff] at hthere
        refine ⟨⟨by simpa using hthere.1, ?_, by simpa using hthere.2⟩, ?_⟩
        · intro hmem
          rw [String.toList_ofList] at hmem
          simpa using List.mem_takeWhile_imp hmem
        · rw [← String.toList_inj, toList_render, String.toList_ofList,
            String.toList_ofList, hsplit]
  · rintro ⟨hid, rfl⟩
    have hplain : ∀ c ∈ id.host.toList, (c != '-') = true := by
      intro c hc
      rw [bne_iff_ne]
      rintro rfl
      exact hid.plain hc
    have htake : id.render.toList.takeWhile (· != '-') = id.host.toList := by
      simp [toList_render, List.takeWhile_append_of_pos hplain]
    have hdrop : id.render.toList.dropWhile (· != '-') = '-' :: id.job.toList := by
      simp [toList_render, List.dropWhile_append_of_pos hplain]
    have hhost : id.host.toList.isEmpty = false := by simpa using hid.host
    have hjob : id.job.toList.isEmpty = false := by simpa using hid.job
    simp [parse?, htake, hdrop, hhost, hjob]

/-! ## One for one -/

/-- The text has a hyphen, with something in front of the first one and something behind it. -/
def HasHalves (text : String) : Prop :=
  ∃ host job, text.toList = host ++ '-' :: job ∧ '-' ∉ host ∧ host ≠ [] ∧ job ≠ []

theorem IsAddress.hasHalves {id : JobId} (h : id.IsAddress) : HasHalves id.render :=
  ⟨id.host.toList, id.job.toList, toList_render id, h.plain, by simpa using h.host, by
    simpa using h.job⟩

theorem exists_address_of_hasHalves {text : String} (h : HasHalves text) :
    ∃ id : JobId, id.IsAddress ∧ id.render = text := by
  obtain ⟨host, job, htext, hplain, hhost, hjob⟩ := h
  refine ⟨⟨String.ofList host, String.ofList job⟩,
    ⟨by simpa using hhost, ?_, by simpa using hjob⟩, ?_⟩
  · rwa [String.toList_ofList]
  · rw [← String.toList_inj, toList_render, String.toList_ofList, String.toList_ofList, htext]

theorem exists_parse?_iff {text : String} : (∃ id, parse? text = some id) ↔ HasHalves text := by
  constructor
  · rintro ⟨id, hread⟩
    obtain ⟨hid, rfl⟩ := parse?_eq_some_iff.1 hread
    exact hid.hasHalves
  · intro h
    obtain ⟨id, hid, rfl⟩ := exists_address_of_hasHalves h
    exact ⟨id, parse?_eq_some_iff.2 ⟨hid, rfl⟩⟩

theorem parse?_render_iff {id : JobId} : parse? id.render = some id ↔ id.IsAddress := by
  rw [parse?_eq_some_iff, and_iff_left rfl]

/-- Reading a text succeeds if and only if it has both halves; what it is read as is an address,
without a hyphen in its host, and is written as that text. An identifier is read back from its
text if and only if it is an address. So writing takes the addresses one for one to the texts
that have both halves. -/
theorem texts_biject :
    (∀ text, (∃ id, parse? text = some id) ↔ HasHalves text) ∧
    (∀ text id, parse? text = some id ↔ id.IsAddress ∧ text = id.render) ∧
    (∀ id, parse? id.render = some id ↔ id.IsAddress) ∧
    Set.BijOn render {id | id.IsAddress} {text | HasHalves text} := by
  refine ⟨fun text => exists_parse?_iff, fun text id => parse?_eq_some_iff,
    fun id => parse?_render_iff, fun id hid => IsAddress.hasHalves hid, ?_, fun text h => ?_⟩
  · intro id hid id' hid' h
    -- one text is read as one identifier only
    have hread : parse? id.render = some id := parse?_render_iff.2 hid
    have hread' : parse? id'.render = some id' := parse?_render_iff.2 hid'
    rw [h, hread'] at hread
    exact (Option.some.inj hread).symm
  · obtain ⟨id, hid, htext⟩ := exists_address_of_hasHalves h
    exact ⟨id, hid, htext⟩

/-- Behind the first hyphen anything goes, and nothing in front of it does not. -/
example : parse? "h-a-b-" = some ⟨"h", "a-b-"⟩ ∧ parse? "-job" = none ∧
    parse? "host-" = none := by decide

end JobId
end ControlPlane
