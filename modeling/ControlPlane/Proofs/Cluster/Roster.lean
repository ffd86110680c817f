import ControlPlane.Proofs.Dispatch.Address

/-! # Requests that leave every host its jobs

To list the jobs of an app, or to open a log, changes nothing of what the hosts know about their
jobs, whether it succeeds or fails. A run or a stop that fails changes nothing of it either.
-/
namespace ControlPlane

/-- What a host knows of its jobs: those that it runs, the number of the next one, and those
it was asked to stop. -/
def MemoryHost.roster (h : MemoryHost) : String × List ActiveJob × Nat × List String :=
  (h.id, h.jobs, h.nextJob, h.stopped)

namespace MemoryCluster
open Dispatch
variable {c c' : MemoryCluster} {α : Type}

/-- Of a cluster whose hosts stand under their identifiers, every host has the jobs it
had, and no host is new. -/
def SameRosters (c c' : MemoryCluster) : Prop :=
  c.Keyed →
    c'.Keyed ∧ ∀ k, (c'.hosts.get? k).map MemoryHost.roster = (c.hosts.get? k).map MemoryHost.roster

instance : Std.Refl SameRosters := ⟨fun _ hc => ⟨hc, fun _ => rfl⟩⟩

instance : Trans SameRosters SameRosters SameRosters where
  trans h h' hc := by
    obtain ⟨hc', hsame⟩ := h hc
    obtain ⟨hc'', hsame'⟩ := h' hc'
    exact ⟨hc'', fun k => (hsame' k).trans (hsame k)⟩

theorem sameRosters_of_get? (h : ∀ k, c'.hosts.get? k = c.hosts.get? k) : c.SameRosters c' := by
  intro hc
  refine ⟨fun k host hk => hc k host (by rw [← h k, hk]), fun k => by rw [h k]⟩

theorem sameRosters_putHost {h h' : MemoryHost} (hget : c.hosts.get? h.id = some h)
    (hsame : h'.roster = h.roster) :
    c.SameRosters (c.putHost h') := by
  intro hc
  have hid : h'.id = h.id := congrArg Prod.fst hsame
  refine ⟨hc.putHost h', fun k => ?_⟩
  rw [onlyHost_putHost]
  split
  · next hk => rw [← hk, hid, hget, Option.map_some, Option.map_some, hsame]
  · rfl

/-- An act on a host that leaves the host its jobs. -/
theorem leaves_onHost {act : MemoryHost → Except ClusterError α × MemoryHost}
    (hact : ∀ h, (act h).2.roster = h.roster) (dialed : MemoryHost) :
    Leaves SameRosters (onHost dialed act) := by
  intro c hc
  rcases hget : (c.hosts.get? dialed.id).filter (·.incarnation == dialed.incarnation) with _ | h
  · have hsame : (onHost dialed act c).2 = c := by rw [onHost, hget]
    rw [hsame]
    exact ⟨hc, fun _ => rfl⟩
  · have hput : (onHost dialed act c).2 = c.putHost (act h).2 := by rw [onHost, hget]
    have hthere := (Option.filter_eq_some_iff.1 hget).1
    have hid : h.id = dialed.id := hc _ h hthere
    rw [hput]
    exact sameRosters_putHost (hid ▸ hthere) (hact h) hc

theorem leaves_attach (now : Instant) (h : MemoryHost) (request : AttachRequest) (wait : Bool) :
    Leaves SameRosters ((client now h).attach request wait) :=
  leaves_onHost (fun _ => rfl) h

theorem leaves_connect (now : Instant) (h : MemoryHost) (request : AttachRequest) (wait : Bool) :
    Leaves SameRosters (AttachSession.connect (client now h) request wait) := by
  refine .bind (.liftM request.check) fun _ => ?_
  exact .bind ((leaves_attach now h request wait).adapt _) fun _ => .pure _

theorem leaves_listHosts (now : Instant) : Leaves SameRosters (cluster now).listHosts :=
  .of_eq fun _ => rfl

theorem leaves_dial (now : Instant) (host : String) :
    Leaves SameRosters ((cluster now).dial host) := by
  refine .of_eq fun c => ?_
  cases hget : c.hosts.get? host with
  | none => rw [dial_of_none now hget]
  | some h => rw [dial_of_get? now hget]

/-- Whom a cluster dials is a host in memory. -/
theorem answers_dial (now : Instant) (host : String) :
    Answers (fun dialed => ∃ h, dialed = client now h) ((cluster now).dial host) := by
  intro c dialed c' h
  cases hget : c.hosts.get? host with
  | none =>
    rw [dial_of_none now hget] at h
    cases h
  | some dialed =>
    rw [dial_of_get? now hget] at h
    cases h
    exact ⟨dialed, rfl⟩

/-! ## Dispatch -/

theorem leaves_listJobs (s : Store) (now : Instant) (app : String) :
    Leaves SameRosters (listJobs s (cluster now) app) := by
  refine .bind (.liftM _) fun _ => ?_
  exact .bind ((leaves_listHosts now).adapt _) fun _ => .pure _

theorem leaves_openLog (s : Store) (now : Instant) (app job : String) (follow : Bool) :
    Leaves SameRosters (openLog s (cluster now) app job follow) := by
  refine .bind (.liftM _) fun _ => .bind (.liftM _) fun id => ?_
  refine .bind_of_answers ((leaves_dial now id.host).adapt _)
    ((answers_dial now id.host).adapt _) ?_
  rintro _ ⟨h, rfl⟩
  exact (leaves_connect now h (logRequest id.job follow) false).adapt _

theorem kill_failsWithin (s : Store) (now : Instant) (app job : String) :
    FailsWithin SameRosters (kill s (cluster now) app job) := by
  intro c e c' h hc
  obtain ⟨e', herror⟩ | ⟨_, _, _, -, -, hok, -⟩ := kill_cases hc s now app job
  · rw [herror] at h
    cases h
    exact ⟨hc, fun _ => rfl⟩
  · rw [hok] at h
    cases h

theorem run_failsWithin (s : Store) (now : Instant) (app : String) (job : NewJob) (attach : Bool) :
    FailsWithin SameRosters (run s (cluster now) app job attach) := by
  intro c e c' h hc
  obtain ⟨e', c₁, herror, hsame, -⟩ | ⟨-, _, _, _, _, -, -, -, -, hok, -⟩ :=
    run_cases hc s now app job attach
  · rw [herror] at h
    cases h
    exact sameRosters_of_get? hsame hc
  · rw [hok] at h
    cases h

end MemoryCluster

/-- An attached run comes with its session, and a detached one with none. -/
theorem Dispatch.answers_run {σ : Type} (s : Store) (cluster : Cluster σ) (app : String)
    (job : NewJob) (attach : Bool) :
    Answers (fun out => out.2.isSome = attach) (run s cluster app job attach) := by
  rw [run_eq_place]
  refine Answers.bind fun p => ?_
  unfold finish
  split
  · next hattach =>
    rw [map_eq_pure_bind]
    exact .bind fun session => .pure hattach.symm
  · next hattach => exact .pure (by simpa using hattach)

end ControlPlane
