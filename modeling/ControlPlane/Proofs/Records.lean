import ControlPlane.Attach.Request
import ControlPlane.Job
import ControlPlane.Proofs.Formation

/-! # Every record that is written is read

The records of the wire and of the store have one codec each, and all of them are faithful: the text
of a record is read as that record, in whatever order the members of its objects come, and so a
record that was read from any text at all is read from its own text again.
-/
namespace ControlPlane
open Json

theorem NewJob.faithful : NewJob.codec.Faithful := by
  refine Record.Faithful.codec ⟨?_, by decide, fun _ => rfl⟩
  simp only [NewJob.record, List.forall_mem_cons, List.not_mem_nil, IsEmpty.forall_iff,
    implies_true, and_true]
  exact ⟨Field.faithful_required _ _ Codec.faithful_string,
    Field.faithful_optional _ _ Codec.faithful_string Codec.neverNull_string,
    Field.faithful_defaulting _ _ Codec.faithful_string.list _,
    Field.faithful_defaulting _ _ Codec.faithful_string.dict _,
    Field.faithful_defaulting _ _ Codec.faithful_bool _,
    Field.faithful_defaulting _ _ Codec.faithful_uint16 _,
    Field.faithful_defaulting _ _ Codec.faithful_uint16 _⟩

theorem Job.faithful : Job.codec.Faithful := by
  have hempty (s : String) (h : (s != "") = false) : s = "" := by simpa using h
  refine Record.Faithful.codec ⟨?_, by decide, fun _ => rfl⟩
  simp only [Job.record, List.forall_mem_cons, List.not_mem_nil, IsEmpty.forall_iff,
    implies_true, and_true]
  exact ⟨Field.faithful_required _ _ Codec.faithful_string,
    Field.faithful_sparse _ _ Codec.faithful_string hempty,
    Field.faithful_sparse _ _ Codec.faithful_string hempty,
    Field.faithful_sparse _ _ Codec.faithful_string.list fun _ h =>
      List.isEmpty_iff.1 (by simpa using h)⟩

theorem ContainerConfig.faithful : ContainerConfig.codec.Faithful := by
  refine Record.Faithful.codec ⟨?_, by decide, fun _ => rfl⟩
  simp only [ContainerConfig.record, List.forall_mem_cons, List.not_mem_nil, IsEmpty.forall_iff,
    implies_true, and_true]
  have hflag (name : String) (get : ContainerConfig → Bool) :
      (Field.defaulting name get .bool false).Faithful :=
    Field.faithful_defaulting name get Codec.faithful_bool false
  exact ⟨Field.faithful_defaulting _ _ Codec.faithful_string _,
    Field.faithful_defaulting _ _ Codec.faithful_string.list _,
    Field.faithful_defaulting _ _ Codec.faithful_string.list _, hflag _ _, hflag _ _, hflag _ _,
    hflag _ _, hflag _ _, hflag _ _⟩

theorem HostJob.faithful : HostJob.codec.Faithful := by
  refine Record.Faithful.codec ⟨?_, by decide, fun _ => rfl⟩
  simp only [HostJob.record, List.forall_mem_cons, List.not_mem_nil, IsEmpty.forall_iff,
    implies_true, and_true]
  exact ⟨Field.faithful_defaulting _ _ Codec.faithful_string _,
    Field.faithful_defaulting _ _ Codec.faithful_string.dict _,
    Field.faithful_defaulting _ _ ContainerConfig.faithful _⟩

theorem Host.faithful : Host.codec.Faithful := by
  refine Record.Faithful.codec ⟨?_, by decide, fun _ => rfl⟩
  simp only [Host.record, List.forall_mem_cons, List.not_mem_nil, IsEmpty.forall_iff,
    implies_true, and_true]
  exact ⟨Field.faithful_required _ _ Codec.faithful_string,
    Field.faithful_defaulting _ _ HostJob.faithful.list _⟩

theorem ActiveJob.faithful : ActiveJob.codec.Faithful := by
  have hstatus : JobStatus.codec.Faithful := Codec.faithful_named fun status =>
    by cases status <;> rfl
  refine Record.Faithful.codec ⟨?_, by decide, fun _ => rfl⟩
  simp only [ActiveJob.record, List.forall_mem_cons, List.not_mem_nil, IsEmpty.forall_iff,
    implies_true, and_true]
  exact ⟨Field.faithful_required _ _ HostJob.faithful, Field.faithful_required _ _ hstatus,
    Field.faithful_optional _ _ Codec.faithful_instant Codec.neverNull_instant⟩

theorem HostEvent.faithful : HostEvent.codec.Faithful := by
  have hkind : HostEventKind.codec.Faithful := Codec.faithful_named fun kind =>
    by cases kind <;> rfl
  refine Record.Faithful.codec ⟨?_, by decide, fun _ => rfl⟩
  simp only [HostEvent.record, List.forall_mem_cons, List.not_mem_nil, IsEmpty.forall_iff,
    implies_true, and_true]
  exact ⟨Field.faithful_required _ _ Codec.faithful_string, Field.faithful_required _ _ hkind⟩

theorem AttachRequest.faithful : AttachRequest.codec.Faithful := by
  have hflags : AttachFlags.codec.Faithful := Codec.faithful_uint8.map fun _ => rfl
  refine Record.Faithful.codec ⟨?_, by decide, fun _ => rfl⟩
  simp only [AttachRequest.record, List.forall_mem_cons, List.not_mem_nil, IsEmpty.forall_iff,
    implies_true, and_true]
  exact ⟨Field.faithful_required _ _ Codec.faithful_string, Field.faithful_required _ _ hflags,
    Field.faithful_defaulting _ _ Codec.faithful_uint16 _,
    Field.faithful_defaulting _ _ Codec.faithful_uint16 _⟩

/-- The records of the wire and of the store. -/
inductive RecordKind
  | app | release | processType | artifact | formation | expandedFormation | newJob | job
  | host | hostJob | containerConfig | activeJob | hostEvent | attachRequest | formationRecord
  | appRow

namespace RecordKind

abbrev Content : RecordKind → Type
  | app => App
  | release => Release
  | processType => ProcessType
  | artifact => Artifact
  | formation => Formation
  | expandedFormation => ExpandedFormation
  | newJob => NewJob
  | job => Job
  | host => Host
  | hostJob => HostJob
  | containerConfig => ContainerConfig
  | activeJob => ActiveJob
  | hostEvent => HostEvent
  | attachRequest => AttachRequest
  | formationRecord => FormationRecord
  | appRow => AppRow

def codec : (kind : RecordKind) → Codec kind.Content
  | app => App.codec
  | release => Release.codec
  | processType => ProcessType.codec
  | artifact => Artifact.codec
  | formation => Formation.codec
  | expandedFormation => ExpandedFormation.codec
  | newJob => NewJob.codec
  | job => Job.codec
  | host => Host.codec
  | hostJob => HostJob.codec
  | containerConfig => ContainerConfig.codec
  | activeJob => ActiveJob.codec
  | hostEvent => HostEvent.codec
  | attachRequest => AttachRequest.codec
  | formationRecord => FormationRecord.codec
  | appRow => AppRow.codec

theorem faithful : (kind : RecordKind) → kind.codec.Faithful
  | app => App.faithful
  | release => Release.faithful
  | processType => ProcessType.faithful
  | artifact => Artifact.faithful
  | formation => Formation.faithful
  | expandedFormation => ExpandedFormation.faithful
  | newJob => NewJob.faithful
  | job => Job.faithful
  | host => Host.faithful
  | hostJob => HostJob.faithful
  | containerConfig => ContainerConfig.faithful
  | activeJob => ActiveJob.faithful
  | hostEvent => HostEvent.faithful
  | attachRequest => AttachRequest.faithful
  | formationRecord => FormationRecord.faithful
  | appRow => AppRow.faithful

/-- A record of any kind is read from the text it is written in, and from that text with the
members of its objects in any other order. A record read from whatever text is read again from
the text it is written in, and a formation that is read from the text of another is a deletion if
and only if that one is. -/
theorem written_is_read :
    (∀ (kind : RecordKind) (v : kind.Content), kind.codec.decode (kind.codec.encode v) = .ok v) ∧
    (∀ (kind : RecordKind) (v : kind.Content) (w : Value), (kind.codec.write v).Reordered w →
      kind.codec.decode (render w) = .ok v) ∧
    (∀ (kind : RecordKind) (text : Bytes) (v : kind.Content), kind.codec.decode text = .ok v →
      kind.codec.decode (kind.codec.encode v) = .ok v) ∧
    (∀ (f g : ExpandedFormation) (w : Value), (ExpandedFormation.codec.write f).Reordered w →
      ExpandedFormation.codec.decode (render w) = .ok g → g.isDeletion = f.isDeletion) := by
  refine ⟨fun kind => kind.faithful.decode_encode, fun kind _ _ => kind.faithful.decode_reordered,
    fun kind _ v _ => kind.faithful.decode_encode v, fun f g w hw hg => ?_⟩
  have hread := ExpandedFormation.faithful.decode_reordered hw
  rw [hg] at hread
  rw [Except.ok.inj hread]

/-- A release whose members, and those of its environment, come the last one
first; and a deletion. -/
theorem written_is_read_of_reversed :
    let release : Release := { id := "r", env := Dict.ofList [("A", "1"), ("B", "2")] }
    let reversed : Value :=
      .object [("env", .object [("B", .string "2"), ("A", .string "1")]), ("artifact", .string ""),
      ("id", .string "r")]
    let deletion : ExpandedFormation :=
      ⟨{ id := "a", name := "web" }, release, ⟨"i", "docker", "uri", none⟩, none, .epoch⟩
    (Release.codec.write release).Reordered reversed ∧
      Release.codec.decode (render reversed) = .ok release ∧
      Release.codec.decode (Release.codec.encode release) = .ok release ∧
      ∀ g, ExpandedFormation.codec.decode (ExpandedFormation.codec.encode deletion) = .ok g →
        g.isDeletion = true := by
  intro release reversed deletion
  have hwrite :
      Release.codec.write release = .object [("id", .string "r"), ("artifact", .string ""),
      ("env", .object [("A", .string "1"), ("B", .string "2")])] := by rfl
  have henv : (Value.object [("A", .string "1"), ("B", .string "2")]).Reordered
      (.object [("B", .string "2"), ("A", .string "1")]) :=
    .object rfl (.cons (.refl _) (.cons (.refl _) .nil)) (.swap _ _ _)
  have hreversed : (Release.codec.write release).Reordered reversed := by
    rw [hwrite]
    have horder := (List.reverse_perm [("id", Value.string "r"), ("artifact", .string ""),
      ("env", .object [("B", .string "2"), ("A", .string "1")])]).symm
    exact .object (by rfl) (.cons (.refl _) (.cons (.refl _) (.cons henv .nil))) horder
  have hread := written_is_read.2.1 .release release reversed hreversed
  exact ⟨hreversed, hread, written_is_read.2.2.1 .release _ release hread, fun g hg =>
    written_is_read.2.2.2 deletion g _ (.refl _) hg⟩

end RecordKind
end ControlPlane
