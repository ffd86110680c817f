import ControlPlane.Proofs.Cluster.Memory
import ControlPlane.Proofs.Dispatch.Prepare
import ControlPlane.Proofs.Dispatch.Run
import ControlPlane.Proofs.Placement

/-! # Dispatch over a cluster in memory

A run asks a single host, the one with the fewest jobs, and asks it at most twice: to take the job
on, and to attach to it. In memory the attach is always granted, so that a run that fails leaves all
hosts as they were, and one that succeeds leaves one host with one more job.
-/
namespace ControlPlane

theorem AttachRequest.check_eq_ok {request : AttachRequest} :
    request.check = .ok () ↔ request.job ≠ "" ∧
      request.flags.bits &&& (AttachFlags.stdout ||| .stderr ||| .stdin).bits ≠ 0 ∧
      (request.flags.contains .stream = true ∨ request.width = 0 ∧ request.height = 0) := by
  unfold check
  by_cases hjob : request.job = ""
  · simp [hjob]
  by_cases hstreams : request.flags.bits &&& (AttachFlags.stdout ||| .stderr ||| .stdin).bits = 0
  · simp [hjob, hstreams]
  cases hstays : request.flags.contains .stream <;>
    by_cases hwidth : request.width = 0 <;> by_cases hheight : request.height = 0 <;>
      simp [hjob, hstreams, hwidth, hheight]

namespace Dispatch
variable {s : Store} {app : App}

theorem resolveApp_eq_ok {text : String} :
    resolveApp s text = .ok app ↔ s.getApp? text = some app := by
  unfold resolveApp
  split <;> simp_all

theorem runRequest_check {id : String} (hid : id ≠ "") (job : NewJob) :
    (runRequest id job).check = .ok () :=
  AttachRequest.check_eq_ok.2 ⟨hid,
    by dsimp only [runRequest]; decide, .inl (by dsimp only [runRequest]; decide)⟩

theorem logRequest_check {id : String} (hid : id ≠ "") (follow : Bool) :
    (logRequest id follow).check = .ok () :=
  AttachRequest.check_eq_ok.2
    ⟨hid, by dsimp only [logRequest]; cases follow <;> decide, .inr ⟨rfl, rfl⟩⟩

end Dispatch

namespace MemoryCluster
open Dispatch
variable {now : Instant} {c : MemoryCluster}

theorem ask_dial {h : MemoryHost} (hget : c.hosts.get? h.id = some h) :
    ask ((cluster now).dial h.id) c = (.ok (client now h), c) :=
  adapt_of_ok _ (dial_of_get? now hget)

/-! ## The host of choice -/

/-- The host with the fewest jobs, and of those the one with the least identifier. -/
structure IsLeast (c : MemoryCluster) (h : MemoryHost) : Prop where
  there : c.hosts.get? h.id = some h
  le : ∀ k other, c.hosts.get? k = some other →
    h.jobs.length < other.jobs.length ∨ h.jobs.length = other.jobs.length ∧ h.id ≤ other.id

theorem IsLeast.noLater {h other : MemoryHost} {k : String} (hleast : c.IsLeast h)
    (hother : c.hosts.get? k = some other) :
    Placement.NoLater ⟨h.id, h.jobs.map (·.job)⟩ ⟨other.id, other.jobs.map (·.job)⟩ := by
  simpa [Placement.NoLater] using hleast.le k other hother

theorem IsLeast.unique {h h' : MemoryHost} (hleast : c.IsLeast h) (hleast' : c.IsLeast h') :
    h = h' := by
  have hid : h.id = h'.id := (hleast.noLater hleast'.there).id_eq (hleast'.noLater hleast.there)
  exact Option.some.inj (hleast.there.symm.trans (hid ▸ hleast'.there))

theorem choose_listHosts (hc : c.Keyed) {chosen : Host}
    (hchoose : Placement.choose c.listHosts = some chosen) :
    ∃ h, chosen = ⟨h.id, h.jobs.map (·.job)⟩ ∧ c.IsLeast h := by
  have hle := Placement.noLater_of_choose hchoose
  obtain ⟨h, hh, rfl⟩ := List.mem_map.1 (Placement.choose_mem hchoose)
  obtain ⟨k, hk⟩ := Dict.mem_values_iff.1 hh
  refine ⟨h, rfl, by rwa [hc k h hk], fun k' other hother => ?_⟩
  have hlisted : (⟨other.id, other.jobs.map (·.job)⟩ : Host) ∈ c.listHosts :=
    List.mem_map.2 ⟨other, Dict.mem_values_iff.2 ⟨k', hother⟩, rfl⟩
  simpa [Placement.NoLater] using hle _ hlisted

theorem get?_eq_none_of_choose (hchoose : Placement.choose c.listHosts = none) (k : String) :
    c.hosts.get? k = none := by
  have hnone : c.hosts.values = [] := List.map_eq_nil_iff.1 (Placement.choose_eq_none_iff.1 hchoose)
  rw [Option.eq_none_iff_forall_ne_some]
  intro h hk
  have hmem := Dict.mem_values_iff.2 ⟨k, hk⟩
  rw [hnone] at hmem
  cases hmem

/-! ## What stands against a run -/

/-- Why a run over hosts in memory fails, numbered in the order in which it is found out. -/
inductive Fault (s : Store) (c : MemoryCluster) (app : String) (job : NewJob) :
    Nat → DispatchError → Prop
  | missing {n : Nat} {e : DispatchError} (h : Missing s app job n e) : Fault s c app job n e
  | noHost (h : ∀ k, c.hosts.get? k = none) : Fault s c app job 4 .noEligibleHost
  | rejected {h : MemoryHost} {reason : String} (hleast : c.IsLeast h)
      (hreason : h.rejection = some reason) : Fault s c app job 5 (.rejected reason)

section Fault
variable {s : Store} {app : String} {job : NewJob} {r : Named} {n : Nat} {e : DispatchError}
  {h : MemoryHost}

theorem Fault.four_le (hfault : Fault s c app job n e) (hr : r.Resolves s app job) : 4 ≤ n := by
  cases hfault with
  | missing hmissing => exact absurd hmissing hr.not_missing
  | noHost | rejected => decide

theorem Fault.five_le (hfault : Fault s c app job n e) (hr : r.Resolves s app job)
    (hleast : c.IsLeast h) : 5 ≤ n := by
  cases hfault with
  | missing hmissing => exact absurd hmissing hr.not_missing
  | noHost hnone => exact absurd hleast.there (by simp [hnone])
  | rejected => decide

theorem not_fault (hr : r.Resolves s app job) (hleast : c.IsLeast h)
    (haccepts : h.rejection = none) :
    ¬ Fault s c app job n e := by
  intro hfault
  cases hfault with
  | missing hmissing => exact hr.not_missing hmissing
  | noHost hnone => exact absurd hleast.there (by simp [hnone])
  | rejected hleast' hreason =>
    rw [hleast'.unique hleast, haccepts] at hreason
    cases hreason

theorem first_fault_of_missing (hfirst : First (Missing s app job) e) :
    First (Fault s c app job) e := by
  obtain ⟨n, hmissing, hle⟩ := hfirst
  refine ⟨n, .missing hmissing, fun m e' hfault => ?_⟩
  have hlt := hmissing.lt_four
  cases hfault with
  | missing h => exact hle m e' h
  | noHost | rejected => omega

end Fault

/-! ## A run, up to the submission and after it -/

/-- A run up to the submission fails, and all hosts are as they were; or the host of
choice has taken its job. -/
theorem place_cases (hc : c.Keyed) (s : Store) (now : Instant) (app : String) (job : NewJob)
    (attach : Bool) :
    (∃ e c', place s (cluster now) app job attach c = (.error e, c') ∧
      (∀ k, c'.hosts.get? k = c.hosts.get? k) ∧
      First (Fault s c app job) e) ∨
    ∃ (r : Named) (hostJob : HostJob) (h : MemoryHost), r.Resolves s app job ∧
      r.Describes job attach hostJob ∧
      c.IsLeast h ∧ h.rejection = none ∧ place s (cluster now) app job attach c =
        (.ok ⟨client now h, (h.number hostJob).id, Job.ofHostJob h.id (h.number hostJob)⟩,
          (c.putHost (h.taking now hostJob)).emit h.incarnation
            ⟨(h.number hostJob).id, .create⟩) := by
  unfold place
  obtain ⟨r, hr⟩ | ⟨e, hfirst, hfails⟩ := resolves_or_missing s app job attach
  · have hresolve : resolveApp s app = .ok r.app := resolveApp_eq_ok.2 hr.app
    obtain ⟨hostJob, hprepare, hunnamed, hdescribes⟩ := prepare_of_resolves hr attach
    have hlist : ask (cluster now).listHosts c = (.ok c.listHosts, c) := rfl
    rw [hresolve, bind_of_ok (liftM_apply _ c), hprepare, bind_of_ok (liftM_apply _ c),
      bind_of_ok hlist]
    rcases hchoose : Placement.choose c.listHosts with _ | chosen
    · have hfault : Fault s c app job 4 .noEligibleHost := .noHost (get?_eq_none_of_choose hchoose)
      exact .inl ⟨_, c, rfl, fun _ => rfl, 4, hfault, fun _ _ h => h.four_le hr⟩
    obtain ⟨h, rfl, hleast⟩ := choose_listHosts hc hchoose
    have hadd := addJob_client now hleast.there hostJob
    dsimp only
    rw [bind_of_ok (ask_dial hleast.there), map_eq_pure_bind]
    rcases hreason : h.rejection with _ | reason
    · rw [MemoryHost.addJob_of_unnamed hreason hunnamed] at hadd
      exact .inr ⟨r, hostJob, h, hr, hdescribes, hleast, hreason, bind_of_ok (adapt_of_ok _ hadd)⟩
    · rw [MemoryHost.addJob_of_rejection hreason] at hadd
      exact .inl ⟨_, _, bind_of_error (adapt_of_error _ hadd), get?_putHost_of_get? hleast.there, 5,
        .rejected hleast hreason, fun _ _ h => h.five_le hr hleast⟩
  · refine .inl ⟨e, c, ?_, fun _ => rfl, first_fault_of_missing hfirst⟩
    obtain hresolve | ⟨a, hresolve, hprepare⟩ := hfails
    · rw [hresolve, bind_of_error (liftM_apply _ c)]
    · rw [hresolve, bind_of_ok (liftM_apply _ c), hprepare, bind_of_error (liftM_apply _ c)]

/-- An attach session is connected by an attach of its host, and has what that grants. -/
theorem connect_client {h : MemoryHost} (hget : c.hosts.get? h.id = some h)
    {request : AttachRequest} (hcheck : request.check = .ok ()) (wait : Bool) :
    AttachSession.connect (client now h) request wait c =
      (((h.attach request wait).1.mapError AttachError.cluster).map fun handle =>
        { host := client now h
          request
          hasControl := handle.hasControl
          peer := some handle.peer },
        c.putHost (h.attach request wait).2) := by
  have hpassed :
      (liftM request.check : ExceptT AttachError (StateM MemoryCluster) Unit) c = (.ok (), c) :=
    (liftM_apply request.check c).trans (by rw [hcheck])
  have hattach := attach_client now hget request wait
  refine (bind_of_ok hpassed).trans ?_
  cases hgrant : (h.attach request wait).1 with
  | error e =>
    rw [hgrant] at hattach
    exact bind_of_error (adapt_of_error _ hattach)
  | ok handle =>
    rw [hgrant] at hattach
    exact bind_of_ok (adapt_of_ok _ hattach)

/-- A session with a job of a host is opened, and all that changes is the host's record of
what was attached to. -/
theorem connect_of_mem {h : MemoryHost} (hget : c.hosts.get? h.id = some h) {active : ActiveJob}
    (hjob : active ∈ h.jobs) {request : AttachRequest} (hrequest : request.job = active.job.id)
    (hcheck : request.check = .ok ()) (wait : Bool) :
    ∃ session, AttachSession.connect (client now h) request wait c =
        (.ok session, c.putHost { h with attaches := h.attaches ++ [(request, wait)] }) ∧
      session.host = client now h ∧ session.request = request ∧ session.state = .connected := by
  obtain ⟨handle, hgrant⟩ := MemoryHost.exists_attach_eq_ok hjob request hrequest wait
  exact ⟨_, by rw [connect_client hget hcheck, hgrant]; rfl, rfl, rfl, rfl⟩

/-- An attached run asks the host that has just taken its job to attach to it,
and gets its session. -/
theorem finish_of_place {h h' : MemoryHost} (hget : c.hosts.get? h'.id = some h')
    (hid : h'.id = h.id) (hsame : h'.incarnation = h.incarnation) {active : ActiveJob}
    (hjob : active ∈ h'.jobs) (hnamed : active.job.id ≠ "") (job : NewJob) (attach : Bool)
    (j : Job) :
    ∃ session c', finish job attach ⟨client now h, active.job.id, j⟩ c = (.ok (j, session), c') ∧
      session.map (fun x => (x.host.host, x.request, x.state)) =
        (if attach then some (h.id, runRequest active.job.id job, .connected) else none) ∧
      c.OnlyHost { h' with
        attaches := h'.attaches ++
          if attach then [(runRequest active.job.id job, true)] else [] } c' := by
  cases attach with
  | false =>
    refine ⟨none, c, rfl, rfl, ?_⟩
    rw [if_neg Bool.false_ne_true, List.append_nil]
    exact onlyHost_of_get? hget
  | true =>
    obtain ⟨session, hconnect, hhost, hrequest, hstate⟩ :=
      connect_of_mem hget hjob rfl (runRequest_check hnamed job) true
    refine ⟨some session, _, ?_, ?_, onlyHost_putHost c _⟩
    · rw [finish, if_pos rfl, map_eq_pure_bind, client_congr now hid.symm hsame.symm]
      exact bind_of_ok (adapt_of_ok _ hconnect)
    · rw [if_pos rfl, Option.map_some, hhost, hrequest, hstate, ← hid]
      rfl

/-- A run fails, and all hosts are as they were; or the host of choice has one more job, under the
next of its numbers, and that is the job that is answered. -/
theorem run_cases (hc : c.Keyed) (s : Store) (now : Instant) (app : String) (job : NewJob)
    (attach : Bool) :
    (∃ e c', run s (cluster now) app job attach c = (.error e, c') ∧
      (∀ k, c'.hosts.get? k = c.hosts.get? k) ∧
      First (Fault s c app job) e) ∨
    ∃ (r : Named) (hostJob : HostJob) (h : MemoryHost)
      (session : Option (AttachSession MemoryCluster))
      (c' : MemoryCluster), r.Resolves s app job ∧ r.Describes job attach hostJob ∧ c.IsLeast h ∧
        h.rejection = none ∧
        run s (cluster now) app job attach c =
          (.ok (Job.ofHostJob h.id (h.number hostJob), session), c') ∧
        session.map (fun x => (x.host.host, x.request, x.state)) =
          (if attach then some (h.id, runRequest (h.number hostJob).id job, .connected) else none) ∧
        c.OnlyHost { h.taking now hostJob with
          attaches := h.attaches ++
            if attach then [(runRequest (h.number hostJob).id job, true)] else [] } c' := by
  rw [run_eq_place]
  obtain ⟨e, c', hplace, hsame, hfirst⟩ |
    ⟨r, hostJob, h, hr, hdescribes, hleast, haccepts, hplace⟩ :=
    place_cases hc s now app job attach
  · exact .inl ⟨e, c', bind_of_error hplace, hsame, hfirst⟩
  have hnamed : (h.number hostJob).id ≠ "" := by simp [MemoryHost.number]
  have hput : c.OnlyHost (h.taking now hostJob)
      ((c.putHost (h.taking now hostJob)).emit h.incarnation ⟨(h.number hostJob).id, .create⟩) :=
        onlyHost_putHost c _
  obtain ⟨session, c', hfinish, hsession, hhosts⟩ := finish_of_place (h := h) hput.get?_self rfl rfl
    (h.mem_jobs_taking now hostJob) hnamed job attach (Job.ofHostJob h.id (h.number hostJob))
  exact .inr ⟨r, hostJob, h, session, c', hr, hdescribes, hleast, haccepts,
    (bind_of_ok hplace).trans hfinish, hsession, hput.trans hhosts rfl⟩

end MemoryCluster
end ControlPlane
