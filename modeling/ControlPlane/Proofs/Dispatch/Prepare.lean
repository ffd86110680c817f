import ControlPlane.Dispatch
import ControlPlane.Proofs.Dict
import ControlPlane.Proofs.Text.Utf8

/-! # The job that a request describes

A request names an app, a release of the store and, if it is typed, one of the release's process
types. Whatever is missing, the first of it is told; where nothing is, the job for a host says of
each setting where its value is from.
-/
namespace ControlPlane

namespace Environment

/-- The last layer that has a value for a key decides. -/
theorem get?_merge (layers : List (Dict String)) (k : String) :
    (merge layers).get? k = layers.reverse.findSome? (·.get? k) := by
  induction layers using List.reverseRecOn with
  | nil => rfl
  | append_singleton layers layer ih =>
    rw [merge, List.foldl_append, List.foldl_cons, List.foldl_nil, ← merge, Dict.get?_overlay, ih,
      List.reverse_append]
    cases h : layer.get? k <;> simp [h]

/-- The variables of some layers: each key once, in byte order of the keys, with the value of the
last layer that has one for it. -/
structure Layered (layers : List (Dict String)) (vars : List (String × String)) : Prop where
  sorted : vars.Pairwise fun a b => Utf8.encode a.1 < Utf8.encode b.1
  mem_iff : ∀ k v, (k, v) ∈ vars ↔ layers.reverse.findSome? (·.get? k) = some v

theorem layered_merge (layers : List (Dict String)) : Layered layers (merge layers).entries where
  sorted := (merge layers).sorted.imp Utf8.encode_lt_encode
  mem_iff k v := by rw [Dict.mem_entries_iff, get?_merge]

end Environment

namespace Dispatch
variable {s : Store} {app : String} {job : NewJob} {attach : Bool} {hostJob : HostJob}

/-- What a request names. -/
structure Named where
  app : App
  release : Release
  artifact : Artifact
  process : ProcessType

/-- The store has what a request names. A request without a process type stands for
one that says nothing. -/
structure Named.Resolves (r : Named) (s : Store) (app : String) (job : NewJob) : Prop where
  app : s.getApp? app = some r.app
  release : s.getRelease? job.release = some r.release
  artifact : s.getArtifact? r.release.artifact = some r.artifact
  process : match job.processType with
    | none => r.process = {}
    | some name => r.release.processes.get? name = some r.process

/-- A job for a host that is the one that a request describes. -/
structure Named.Describes (r : Named) (job : NewJob) (attach : Bool) (hostJob : HostJob) :
    Prop where
  image : hostJob.config.image = r.artifact.uri
  attributes :
    hostJob.attributes.entries = [("flotilla.app", r.app.id), ("flotilla.release", r.release.id)] ++
    (job.processType.map ("flotilla.type", ·)).toList
  cmd : hostJob.config.cmd = if job.cmd = [] ∧
    job.processType.isSome then r.process.cmd else job.cmd
  env : ∃ vars, Environment.Layered [r.release.env, r.process.env, job.env] vars ∧
    hostJob.config.env = vars.map fun e => e.1 ++ "=" ++ e.2
  tty : hostJob.config.tty = (attach && job.tty)
  input : hostJob.config.attachStdin = attach ∧ hostJob.config.openStdin = attach ∧
    hostJob.config.stdinOnce = attach
  output : hostJob.config.attachStdout = true ∧ hostJob.config.attachStderr = true

/-! ## What is missing -/

/-- What the store can lack of what a request names, numbered in the order in
which it is looked for. -/
inductive Missing (s : Store) (app : String) (job : NewJob) : Nat → DispatchError → Prop
  | app (h : s.getApp? app = none) : Missing s app job 0 (.appNotFound app)
  | release (h : s.getRelease? job.release = none) :
      Missing s app job 1 (.releaseNotFound job.release)
  | artifact {release : Release} (hrelease : s.getRelease? job.release = some release)
      (h : s.getArtifact? release.artifact = none) :
      Missing s app job 2 (.artifactNotFound release.artifact)
  | processType {release : Release} {name : String}
      (hrelease : s.getRelease? job.release = some release)
        (htype : job.processType = some name) (h : release.processes.get? name = none) :
        Missing s app job 3 (.processTypeNotFound release.id name)

/-- The error of the least number. -/
def First (faults : Nat → DispatchError → Prop) (e : DispatchError) : Prop :=
  ∃ n, faults n e ∧ ∀ m e', faults m e' → n ≤ m

variable {r : Named} {n : Nat} {e : DispatchError}

theorem Missing.lt_four (h : Missing s app job n e) : n < 4 := by
  cases h <;> decide

theorem Named.Resolves.not_missing (hr : r.Resolves s app job) : ¬ Missing s app job n e := by
  intro h
  cases h with
  | app h => simp [hr.app] at h
  | release h => simp [hr.release] at h
  | artifact hrelease h =>
    cases hr.release.symm.trans hrelease
    simp [hr.artifact] at h
  | processType hrelease htype h =>
    cases hr.release.symm.trans hrelease
    have hprocess := hr.process
    simp [htype, h] at hprocess

section First
variable {a : App} {release : Release} {artifact : Artifact} {name : String}

theorem first_app (happ : s.getApp? app = none) : First (Missing s app job) (.appNotFound app) :=
  ⟨0, .app happ, fun m _ _ => Nat.zero_le m⟩

theorem first_release (happ : s.getApp? app = some a)
    (hrelease : s.getRelease? job.release = none) :
    First (Missing s app job) (.releaseNotFound job.release) := by
  refine ⟨1, .release hrelease, fun m e' h => ?_⟩
  cases h with
  | app h => simp [happ] at h
  | release | artifact | processType => decide

theorem first_artifact (happ : s.getApp? app = some a)
    (hrelease : s.getRelease? job.release = some release)
    (hartifact : s.getArtifact? release.artifact = none) :
    First (Missing s app job) (.artifactNotFound release.artifact) := by
  refine ⟨2, .artifact hrelease hartifact, fun m e' h => ?_⟩
  cases h with
  | app h => simp [happ] at h
  | release h => simp [hrelease] at h
  | artifact | processType => decide

theorem first_processType (happ : s.getApp? app = some a)
    (hrelease : s.getRelease? job.release = some release)
    (hartifact : s.getArtifact? release.artifact = some artifact)
    (htype : job.processType = some name) (hprocess : release.processes.get? name = none) :
    First (Missing s app job) (.processTypeNotFound release.id name) := by
  refine ⟨3, .processType hrelease htype hprocess, fun m e' h => ?_⟩
  cases h with
  | app h => simp [happ] at h
  | release h => simp [hrelease] at h
  | artifact hrelease' h =>
    cases hrelease.symm.trans hrelease'
    simp [hartifact] at h
  | processType => decide

end First

/-- All that a request names is there, or the first of what is missing is told before
anything is asked of a host. -/
theorem resolves_or_missing (s : Store) (app : String) (job : NewJob) (attach : Bool) :
    (∃ r : Named, r.Resolves s app job) ∨ ∃ e, First (Missing s app job) e ∧
      (resolveApp s app = .error e ∨
        ∃ a, resolveApp s app = .ok a ∧ prepare s a job attach = .error e) := by
  rcases happ : s.getApp? app with _ | a
  · exact .inr ⟨_, first_app happ, .inl (by rw [resolveApp, happ])⟩
  have hresolve : resolveApp s app = .ok a := by rw [resolveApp, happ]
  rcases hrelease : s.getRelease? job.release with _ | release
  · exact .inr ⟨_, first_release happ hrelease, .inr ⟨a, hresolve, by rw [prepare, hrelease]⟩⟩
  rcases hartifact : s.getArtifact? release.artifact with _ | artifact
  · have hfails : prepare s a job attach = .error (.artifactNotFound release.artifact) := by
      simp only [prepare, hrelease, hartifact]
    exact .inr ⟨_, first_artifact happ hrelease hartifact, .inr ⟨a, hresolve, hfails⟩⟩
  rcases htype : job.processType with _ | name
  · exact .inl ⟨⟨a, release, artifact, {}⟩, happ, hrelease, hartifact, by rw [htype]⟩
  rcases hprocess : release.processes.get? name with _ | process
  · have hfails : prepare s a job attach = .error (.processTypeNotFound release.id name) := by
      simp only [prepare, processOf, hrelease, hartifact, htype, hprocess]
    exact .inr ⟨_, first_processType happ hrelease hartifact htype hprocess,
      .inr ⟨a, hresolve, hfails⟩⟩
  · exact .inl ⟨⟨a, release, artifact, process⟩, happ, hrelease, hartifact,
      by simp only [htype, hprocess]⟩

/-! ## What is prepared -/

/-- A command of the request's own goes before that of the process type. -/
theorem processOf_eq (hr : r.Resolves s app job) : processOf r.release job =
    .ok { r.process with cmd := if job.cmd = [] ∧ job.processType.isSome then r.process.cmd
      else job.cmd } := by
  have hprocess := hr.process
  unfold processOf
  cases htype : job.processType with
  | none =>
    simp only [htype] at hprocess
    simp [hprocess]
  | some name =>
    simp only [htype] at hprocess
    simp [hprocess]

theorem prepare_of_resolves (hr : r.Resolves s app job) (attach : Bool) :
    ∃ hostJob, prepare s r.app job attach = .ok hostJob ∧ hostJob.id = "" ∧
      r.Describes job attach hostJob := by
  rw [prepare, hr.release]
  dsimp only
  rw [hr.artifact, processOf_eq hr]
  refine ⟨_, rfl, rfl, ?_⟩
  constructor
  case image => rfl
  case attributes =>
    have hrelease : HostJob.appAttribute < HostJob.releaseAttribute := by decide
    have htype : HostJob.appAttribute < HostJob.typeAttribute ∧
        HostJob.releaseAttribute < HostJob.typeAttribute := by
      decide
    refine Dict.entries_ofList (List.pairwise_append.2 ⟨List.pairwise_pair.2 hrelease, ?_, ?_⟩)
    · cases job.processType with
      | none => exact .nil
      | some name => exact List.pairwise_singleton _ _
    · intro tag htag typed htyped
      obtain ⟨name, -, rfl⟩ := Option.map_eq_some_iff.1 (Option.mem_toList.1 htyped)
      rcases List.mem_pair.1 htag with rfl | rfl
      · exact htype.1
      · exact htype.2
  case cmd => rfl
  case env => exact ⟨_, Environment.layered_merge _, rfl⟩
  case tty => rfl
  case input => exact ⟨rfl, rfl, rfl⟩
  case output => exact ⟨rfl, rfl⟩

/-- The tag of a job's app. -/
theorem Named.Describes.tag (h : r.Describes job attach hostJob) :
    hostJob.attributes.get? HostJob.appAttribute = some r.app.id :=
  Dict.mem_entries_iff.1 (h.attributes ▸ List.mem_cons_self)

/-- What clients see of a job that a request describes. -/
theorem Named.Describes.ofHostJob (h : r.Describes job attach hostJob) (host : String) :
    Job.ofHostJob host hostJob =
      { id := host ++ "-" ++ hostJob.id
        processType := job.processType.getD ""
        release := r.release.id
        cmd := hostJob.config.cmd } := by
  have hrelease : hostJob.attributes.get? HostJob.releaseAttribute = some r.release.id :=
    Dict.mem_entries_iff.1 (h.attributes ▸ List.mem_cons_of_mem _ List.mem_cons_self)
  have htype : hostJob.attributes.get? HostJob.typeAttribute = job.processType := by
    rw [Dict.get?, h.attributes]
    cases job.processType <;> simp [Dict.lookup, HostJob.typeAttribute]
  rw [Job.ofHostJob, hrelease, htype]
  rfl

end Dispatch
end ControlPlane
