import ControlPlane.Formation
import ControlPlane.Proofs.Json.Record

/-! # Formations that are written are read

An app, a release, an artifact and a formation expanded with all three are read as they were
written, whatever texts stand in them, and so are the rows and records that the store keeps of them.
Process maps that are empty are written, and those that are missing are left out.
-/
namespace ControlPlane
open Json

/-- An optional timestamp. -/
private theorem faithful_timestamp {α : Type} (name : String) (get : α → Option Instant) :
    (Field.optional name get .instant).Faithful :=
  Field.faithful_optional name get Codec.faithful_instant Codec.neverNull_instant

/-- An empty dictionary is the one that may be left out. -/
private theorem eq_empty_of_isEmpty {α : Type} {d : Dict α} (h : (!d.isEmpty) = false) : d = {} :=
  Dict.ext (List.isEmpty_iff.1 (by simpa [Dict.isEmpty] using h))

theorem App.faithful : App.codec.Faithful := by
  refine Record.Faithful.codec ⟨?_, by decide, fun _ => rfl⟩
  simp only [App.record, List.forall_mem_cons, List.not_mem_nil, IsEmpty.forall_iff,
    implies_true, and_true]
  exact ⟨Field.faithful_defaulting _ _ Codec.faithful_string _,
    Field.faithful_required _ _ Codec.faithful_string,
    Field.faithful_defaulting _ _ Codec.faithful_bool _, faithful_timestamp _ _,
    faithful_timestamp _ _⟩

theorem AppRow.faithful : AppRow.codec.Faithful := by
  refine Record.Faithful.codec ⟨?_, by decide, fun _ => rfl⟩
  simp only [AppRow.record, List.forall_mem_cons, List.not_mem_nil, IsEmpty.forall_iff,
    implies_true, and_true]
  exact ⟨Field.faithful_required _ _ App.faithful,
    Field.faithful_defaulting _ _ (Codec.faithful_string.option Codec.neverNull_string) _,
    Field.faithful_defaulting _ _ (Codec.faithful_instant.option Codec.neverNull_instant) _⟩

theorem Artifact.faithful : Artifact.codec.Faithful := by
  refine Record.Faithful.codec ⟨?_, by decide, fun _ => rfl⟩
  simp only [Artifact.record, List.forall_mem_cons, List.not_mem_nil, IsEmpty.forall_iff,
    implies_true, and_true]
  exact ⟨Field.faithful_defaulting _ _ Codec.faithful_string _,
    Field.faithful_required _ _ Codec.faithful_string,
    Field.faithful_required _ _ Codec.faithful_string, faithful_timestamp _ _⟩

theorem ProcessType.faithful : ProcessType.codec.Faithful := by
  refine Record.Faithful.codec ⟨?_, by decide, fun _ => rfl⟩
  simp only [ProcessType.record, List.forall_mem_cons, List.not_mem_nil, IsEmpty.forall_iff,
    implies_true, and_true]
  exact ⟨Field.faithful_defaulting _ _ Codec.faithful_string.list _,
    Field.faithful_sparse _ _ Codec.faithful_string.dict fun _ => eq_empty_of_isEmpty⟩

theorem Release.faithful : Release.codec.Faithful := by
  refine Record.Faithful.codec ⟨?_, by decide, fun _ => rfl⟩
  simp only [Release.record, List.forall_mem_cons, List.not_mem_nil, IsEmpty.forall_iff,
    implies_true, and_true]
  exact ⟨Field.faithful_defaulting _ _ Codec.faithful_string _,
    Field.faithful_defaulting _ _ Codec.faithful_string _,
    Field.faithful_defaulting _ _ Codec.faithful_string.dict _,
    Field.faithful_sparse _ _ ProcessType.faithful.dict fun _ =>
      eq_empty_of_isEmpty, faithful_timestamp _ _⟩

theorem Formation.faithful : Formation.codec.Faithful := by
  refine Record.Faithful.codec ⟨?_, by decide, fun _ => rfl⟩
  simp only [Formation.record, List.forall_mem_cons, List.not_mem_nil, IsEmpty.forall_iff,
    implies_true, and_true]
  exact ⟨Field.faithful_defaulting _ _ Codec.faithful_string _,
    Field.faithful_defaulting _ _ Codec.faithful_string _,
    Field.faithful_defaulting _ _ Codec.faithful_int32.dict _, faithful_timestamp _ _,
    faithful_timestamp _ _⟩

theorem FormationRecord.faithful : FormationRecord.codec.Faithful := by
  refine Record.Faithful.codec ⟨?_, by decide, fun _ => rfl⟩
  simp only [FormationRecord.record, List.forall_mem_cons, List.not_mem_nil, IsEmpty.forall_iff,
    implies_true, and_true]
  exact ⟨Field.faithful_required _ _ Formation.faithful,
    Field.faithful_required _ _ Codec.faithful_uint64,
    Field.faithful_defaulting _ _ (Codec.faithful_instant.option Codec.neverNull_instant) _⟩

theorem ExpandedFormation.faithful : ExpandedFormation.codec.Faithful := by
  refine Record.Faithful.codec ⟨?_, by decide, fun _ => rfl⟩
  simp only [ExpandedFormation.record, List.forall_mem_cons, List.not_mem_nil, IsEmpty.forall_iff,
    implies_true, and_true]
  exact ⟨Field.faithful_required _ _ App.faithful, Field.faithful_required _ _ Release.faithful,
    Field.faithful_required _ _ Artifact.faithful,
    Field.faithful_optional _ _ Codec.faithful_int32.dict Codec.neverNull_dict,
    Field.faithful_required _ _ Codec.faithful_instant⟩

end ControlPlane
