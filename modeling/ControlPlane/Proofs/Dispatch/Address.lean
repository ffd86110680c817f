import ControlPlane.Proofs.Dispatch.Memory
import ControlPlane.Proofs.JobId

/-! # Job identifiers as addresses

The identifier that clients get of a job is read again when they ask for the job, and it is read as
the host in front of its first hyphen and the job behind it. So it leads back to its job if the host
has no hyphen in its own identifier, and to another host or to none if it has one.
-/
namespace ControlPlane
namespace Dispatch
variable {σ : Type} {s : Store} {cluster : Cluster σ} {app text : String} {id : JobId} {k k' : σ}

/-- A stop goes to the host and the job that the text is read as. -/
theorem kill_of_parse? (happ : ∃ a, s.getApp? app = some a) (h : JobId.parse? text = some id) :
    kill s cluster app text = (do
      let host ← ask (cluster.dial id.host)
      ask (host.stopJob id.job)) := by
  obtain ⟨a, ha⟩ := happ
  rw [kill, resolveApp, ha, resolveJob, h]
  rfl

/-- So does the attach that opens a log. -/
theorem openLog_of_parse? (happ : ∃ a, s.getApp? app = some a) (h : JobId.parse? text = some id)
    (follow : Bool) :
    openLog s cluster app text follow = (do
      let host ← ask (cluster.dial id.host)
      (AttachSession.connect host (logRequest id.job follow) false).adapt
        DispatchError.ofAttach) := by
  obtain ⟨a, ha⟩ := happ
  rw [openLog, resolveApp, ha, resolveJob, h]
  rfl

/-- Asked for by the text, the host of the identifier is dialed, and it alone is asked: to stop the
job, and to attach to it for its log. -/
structure Reaches (s : Store) (cluster : Cluster σ) (app text : String) (id : JobId) : Prop where
  kill : kill s cluster app text = (do
    let host ← ask (cluster.dial id.host)
    ask (host.stopJob id.job))
  log : ∀ follow, openLog s cluster app text follow = (do
    let host ← ask (cluster.dial id.host)
    (AttachSession.connect host (logRequest id.job follow) false).adapt DispatchError.ofAttach)

/-- An address reaches its own host, for its own job. The text of another identifier is refused, or
reaches another host. -/
structure Leads (s : Store) (cluster : Cluster σ) (app : String) (id : JobId) : Prop where
  home : id.IsAddress → Reaches s cluster app id.render id
  away : ¬ id.IsAddress →
    (kill s cluster app id.render = throw (.invalidJobId id.render) ∧
      ∀ follow, openLog s cluster app id.render follow = throw (.invalidJobId id.render)) ∨
    ∃ other : JobId, other.host ≠ id.host ∧ Reaches s cluster app id.render other

theorem reaches_of_parse? (happ : ∃ a, s.getApp? app = some a) (h : JobId.parse? text = some id) :
    Reaches s cluster app text id :=
  ⟨kill_of_parse? happ h, openLog_of_parse? happ h⟩

theorem leads (cluster : Cluster σ) (happ : ∃ a, s.getApp? app = some a) (id : JobId) :
    Leads s cluster app id := by
  refine ⟨fun haddress => reaches_of_parse? happ (JobId.parse?_render_iff.2 haddress),
    fun hnot => ?_⟩
  cases hread : JobId.parse? id.render with
  | none =>
    obtain ⟨a, ha⟩ := happ
    refine .inl ⟨?_, fun follow => ?_⟩
    · rw [kill, resolveApp, ha, resolveJob, hread]
      rfl
    · rw [openLog, resolveApp, ha, resolveJob, hread]
      rfl
  | some other =>
    obtain ⟨haddress, htext⟩ := JobId.parse?_eq_some_iff.1 hread
    refine .inr ⟨other, fun hhost => hnot ?_, reaches_of_parse? happ hread⟩
    rwa [← JobId.render_inj_of_host hhost htext.symm]

/-- The jobs of a list are jobs of the hosts that the cluster lists. -/
theorem of_listJobs_eq_ok {jobs : List Job} (h : listJobs s cluster app k = (.ok jobs, k')) :
    ∃ hosts, cluster.listHosts k = (.ok hosts, k') ∧
      ∀ j ∈ jobs, ∃ host ∈ hosts, ∃ job ∈ host.jobs, j.id = JobId.render ⟨host.id, job.id⟩ := by
  obtain ⟨a, k₁, happ, h⟩ := of_bind_eq_ok h
  rw [liftM_apply] at happ
  obtain ⟨-, rfl⟩ := Prod.mk.inj happ
  obtain ⟨hosts, k₂, hhosts, hjobs⟩ := of_bind_eq_ok h
  cases hjobs
  refine ⟨hosts, of_adapt_eq_ok hhosts, fun j hj => ?_⟩
  obtain ⟨host, hhost, hj⟩ := List.mem_flatMap.1 hj
  obtain ⟨job, hjob, rfl⟩ := List.mem_map.1 hj
  exact ⟨host, hhost, job, (List.mem_filter.1 hjob).1, rfl⟩

/-- The job of a run is the one that the host that was dialed has answered to. -/
theorem of_run_eq_ok {job : NewJob} {attach : Bool} {j : Job} {session : Option (AttachSession σ)}
    (h : run s cluster app job attach k = (.ok (j, session), k')) :
    ∃ host client hostJob id k₁ k₂ k₃, cluster.dial host k₁ = (.ok client, k₂) ∧
      client.addJob hostJob k₂ = (.ok id, k₃) ∧ j.id = JobId.render ⟨host, id⟩ := by
  obtain ⟨a, _, -, h⟩ := of_bind_eq_ok h
  obtain ⟨hostJob, _, -, h⟩ := of_bind_eq_ok h
  obtain ⟨hosts, _, -, h⟩ := of_bind_eq_ok h
  rcases hchoose : Placement.choose hosts with _ | chosen <;> rw [hchoose] at h
  · cases h
  obtain ⟨client, _, hdial, h⟩ := of_bind_eq_ok h
  obtain ⟨id, _, hadd, h⟩ := of_bind_eq_ok h
  refine ⟨chosen.id, client, hostJob, id, _, _, _, of_adapt_eq_ok hdial, of_adapt_eq_ok hadd, ?_⟩
  cases attach with
  | false => cases h; rfl
  | true =>
    obtain ⟨session', _, -, h⟩ := of_bind_eq_ok h
    cases h
    rfl

end Dispatch

namespace MemoryCluster
open Dispatch
variable {s : Store} {now : Instant} {app text : String} {c c' : MemoryCluster} {h : MemoryHost}
  {active : ActiveJob}
  {j : Job}

/-- The job is what clients see of a job of the host. -/
structure IsJobOf (c : MemoryCluster) (j : Job) (h : MemoryHost) (active : ActiveJob) : Prop where
  host : c.hosts.get? h.id = some h
  running : active ∈ h.jobs
  eq : j = Job.ofHostJob h.id active.job

/-- Asked for by the text, the host of a job is asked to stop that job, and to attach to it for its
log; and it does both. No other host is asked for anything. -/
structure Works (s : Store) (now : Instant) (app text : String) (c : MemoryCluster) (h : MemoryHost)
    (job : String) : Prop where
  kill : kill s (cluster now) app text c = (.ok (),
    (c.putHost
      { h with
        stopped := h.stopped ++ [job]
        jobs := h.jobs.filter (·.job.id != job) }).emit h.incarnation ⟨job, .stop⟩)
  log : ∀ follow, ∃ session, openLog s (cluster now) app text follow c = (.ok session,
      c.putHost { h with attaches := h.attaches ++ [(logRequest job follow, false)] }) ∧
    session.host.host = h.id ∧ session.request = logRequest job follow

theorem kill_on_host (happ : ∃ a, s.getApp? app = some a) (hget : c.hosts.get? h.id = some h)
    {job : String} (hread : JobId.parse? text = some ⟨h.id, job⟩) :
    kill s (cluster now) app text c = (.ok (), if (h.stopJob job).1
      then (c.putHost (h.stopJob job).2).emit h.incarnation ⟨job, .stop⟩
        else c.putHost (h.stopJob job).2) := by
  rw [kill_of_parse? happ hread, bind_of_ok (ask_dial hget)]
  exact adapt_of_ok _ (stopJob_client now hget job)

/-- The log of a text that is read as a job of a host is what an attach to that host is answered. -/
theorem openLog_of_get? (happ : ∃ a, s.getApp? app = some a) (hget : c.hosts.get? h.id = some h)
    {job : String} (hread : JobId.parse? text = some ⟨h.id, job⟩) (follow : Bool) :
    openLog s (cluster now) app text follow c =
      ((((h.attach (logRequest job follow) false).1.mapError AttachError.cluster).map fun handle =>
        { host := client now h, request := logRequest job follow, hasControl := handle.hasControl,
          peer := some handle.peer }).mapError DispatchError.ofAttach,
        c.putHost (h.attach (logRequest job follow) false).2) := by
  have hnamed : job ≠ "" := (JobId.parse?_eq_some_iff.1 hread).1.job
  rw [openLog_of_parse? happ hread, bind_of_ok (ask_dial hget), adapt_apply,
    connect_client hget (logRequest_check hnamed follow)]

theorem openLog_on_host (happ : ∃ a, s.getApp? app = some a) (hj : c.IsJobOf j h active)
    (hread : JobId.parse? text = some ⟨h.id, active.job.id⟩) (follow : Bool) :
    ∃ session, openLog s (cluster now) app text follow c = (.ok session,
        c.putHost { h with attaches := h.attaches ++ [(logRequest active.job.id follow, false)] }) ∧
      session.host.host = h.id ∧ session.request = logRequest active.job.id follow := by
  obtain ⟨handle, hgrant⟩ :=
    MemoryHost.exists_attach_eq_ok hj.running (logRequest active.job.id follow) rfl false
  exact ⟨_, by rw [openLog_of_get? happ hj.host hread, hgrant]; rfl, rfl, rfl⟩

/-- A job whose identifier the text is read as is stopped and attached to, whoever's it is. -/
theorem works_of_parse? (happ : ∃ a, s.getApp? app = some a) (hget : c.hosts.get? h.id = some h)
    (hjob : active ∈ h.jobs) (hread : JobId.parse? text = some ⟨h.id, active.job.id⟩) :
    Works s now app text c h active.job.id := by
  have hthere : (h.stopJob active.job.id).1 = true := MemoryHost.isSome_find? hjob
  refine ⟨?_, openLog_on_host happ ⟨hget, hjob, rfl⟩ hread⟩
  rw [kill_on_host happ hget hread, if_pos hthere]
  rfl

/-- A stop fails and changes nothing, or it is answered by the host that the
text is read to name. -/
theorem kill_cases (hc : c.Keyed) (s : Store) (now : Instant) (app text : String) :
    (∃ e, kill s (cluster now) app text c = (.error e, c)) ∨
    ∃ h job c', JobId.parse? text = some ⟨h.id, job⟩ ∧ c.hosts.get? h.id = some h ∧
      kill s (cluster now) app text c = (.ok (), c') ∧ c.OnlyHost (h.stopJob job).2 c' := by
  rcases happ : s.getApp? app with _ | a
  · refine .inl ⟨.appNotFound app, ?_⟩
    rw [kill, resolveApp, happ]
    rfl
  rcases hread : JobId.parse? text with _ | id
  · refine .inl ⟨.invalidJobId text, ?_⟩
    rw [kill, resolveApp, happ, resolveJob, hread]
    rfl
  rcases hget : c.hosts.get? id.host with _ | h
  · refine .inl ⟨.hostNotFound id.host, ?_⟩
    rw [kill_of_parse? ⟨a, happ⟩ hread]
    exact bind_of_error (adapt_of_error _ (dial_of_none now hget))
  · have hid : h.id = id.host := hc _ h hget
    rw [← hid] at hget
    have hread' : JobId.parse? text = some ⟨h.id, id.job⟩ := by rw [hread, hid]
    refine .inr ⟨h, id.job, _, hid ▸ rfl, hget, kill_on_host ⟨a, happ⟩ hget hread', fun k => ?_⟩
    split <;> exact onlyHost_putHost c (h.stopJob id.job).2 k

/-- The identifier of a job works if and only if it is an address. One that is none is read as that
of another job, if of any. -/
theorem works_iff (hc : c.Keyed) (happ : ∃ a, s.getApp? app = some a) (hj : c.IsJobOf j h active) :
    Works s now app j.id c h active.job.id ↔ JobId.IsAddress ⟨h.id, active.job.id⟩ := by
  have hid : j.id = JobId.render ⟨h.id, active.job.id⟩ := by rw [hj.eq]; rfl
  constructor
  · intro hworks
    obtain ⟨e, hfail⟩ | ⟨h', job, c', hread, -, hkill, hhosts⟩ := kill_cases hc s now app j.id
    · rw [hworks.kill] at hfail
      cases hfail
    obtain ⟨haddress, htext⟩ := JobId.parse?_eq_some_iff.1 hread
    -- A stop that went to another host would have left this one as it is, and it recorded the stop.
    have hhost : h'.id = h.id := by
      by_contra hne
      have hget := (hhosts.get?_of_ne hne).trans hj.host
      rw [hworks.kill] at hkill
      cases hkill
      have hstopped := (get?_putHost_self c _).symm.trans hget
      have hlength := congrArg (fun h => h.elim 0 fun h => h.stopped.length) hstopped
      simp at hlength
    have hsame := JobId.render_inj_of_host hhost (htext.symm.trans hid)
    rwa [← hsame]
  · intro haddress
    exact works_of_parse? happ hj.host hj.running (JobId.parse?_eq_some_iff.2 ⟨haddress, hid⟩)

/-! ## The jobs that are listed and run -/

theorem isJobOf_of_listJobs (now : Instant) (hc : c.Keyed) (happ : ∃ a, s.getApp? app = some a) :
    ∃ jobs, listJobs s (cluster now) app c = (.ok jobs, c) ∧
      ∀ j ∈ jobs, ∃ h active, c.IsJobOf j h active := by
  obtain ⟨a, ha⟩ := happ
  rw [listJobs, resolveApp, ha]
  refine ⟨_, rfl, fun j hj => ?_⟩
  obtain ⟨host, hhost, hj⟩ := List.mem_flatMap.1 hj
  obtain ⟨h, hh, rfl⟩ := List.mem_map.1 hhost
  obtain ⟨k, hk⟩ := Dict.mem_values_iff.1 hh
  obtain ⟨job, hjob, rfl⟩ := List.mem_map.1 hj
  obtain ⟨active, hactive, rfl⟩ := List.mem_map.1 (List.mem_filter.1 hjob).1
  exact ⟨h, active, by rwa [hc k h hk], hactive, rfl⟩

variable {job : NewJob} {attach : Bool}

theorem isJobOf_of_run (hc : c.Keyed) {session : Option (AttachSession MemoryCluster)}
    (hrun : run s (cluster now) app job attach c = (.ok (j, session), c')) :
    c'.Keyed ∧ ∃ h active, c'.IsJobOf j h active := by
  obtain ⟨e, c₁, hfail, -⟩ | ⟨-, hostJob, h, session', c₁, -, -, -, -, hok, -, hhosts⟩ :=
    run_cases hc s now app job attach
  · rw [hrun] at hfail
    cases hfail
  rw [hrun] at hok
  cases hok
  exact ⟨hc.onlyHost hhosts, _, _, hhosts.get?_self, h.mem_jobs_taking now hostJob, rfl⟩

/-- What a client is given for the identifier of a job, by a list or by a run, is the identifier of
a job on a host of the cluster. Whatever the cluster is, it leads to that host and that job as long
as it is an address, and to another host or to none if it is not. In memory, it works as long as it
is an address: stopping it and opening its log then reach that host for that job. It never works if
it is no address, as where the host's identifier has a hyphen. -/
theorem job_ids_work (now : Instant) (hc : c.Keyed) (happ : ∃ a, s.getApp? app = some a) :
    (∃ jobs, listJobs s (cluster now) app c = (.ok jobs, c) ∧
      ∀ j ∈ jobs, ∃ h active, c.IsJobOf j h active ∧
      (Works s now app j.id c h active.job.id ↔ JobId.IsAddress ⟨h.id, active.job.id⟩)) ∧
    (∀ job attach j session c', run s (cluster now) app job attach c = (.ok (j, session), c') →
      ∃ h active, c'.IsJobOf j h active ∧
        (Works s now app j.id c' h active.job.id ↔ JobId.IsAddress ⟨h.id, active.job.id⟩)) ∧
    ∀ {σ : Type} (cluster : Cluster σ) (k k' : σ),
      (∀ jobs, listJobs s cluster app k = (.ok jobs, k') →
        ∃ hosts, cluster.listHosts k = (.ok hosts, k') ∧
        ∀ j ∈ jobs, ∃ host ∈ hosts, ∃ job ∈ host.jobs,
          j.id = JobId.render ⟨host.id, job.id⟩ ∧ Leads s cluster app ⟨host.id, job.id⟩) ∧
      ∀ job attach j session, run s cluster app job attach k = (.ok (j, session), k') →
        ∃ host client hostJob id k₁ k₂ k₃, cluster.dial host k₁ = (.ok client, k₂) ∧
          client.addJob hostJob k₂ = (.ok id, k₃) ∧
          j.id = JobId.render ⟨host, id⟩ ∧ Leads s cluster app ⟨host, id⟩ := by
  refine ⟨?_, fun job attach j session c' hrun => ?_, fun cluster k k' =>
    ⟨fun jobs hlist => ?_, fun job attach j session hrun => ?_⟩⟩
  · obtain ⟨jobs, hlist, hjobs⟩ := isJobOf_of_listJobs now hc happ
    refine ⟨jobs, hlist, fun j hj => ?_⟩
    obtain ⟨h, active, hj⟩ := hjobs j hj
    exact ⟨h, active, hj, works_iff hc happ hj⟩
  · obtain ⟨hc', h, active, hj⟩ := isJobOf_of_run hc hrun
    exact ⟨h, active, hj, works_iff hc' happ hj⟩
  · obtain ⟨hosts, hhosts, hjobs⟩ := of_listJobs_eq_ok hlist
    refine ⟨hosts, hhosts, fun j hj => ?_⟩
    obtain ⟨host, hhost, job, hjob, hid⟩ := hjobs j hj
    exact ⟨host, hhost, job, hjob, hid, leads cluster happ _⟩
  · obtain ⟨host, client, hostJob, id, k₁, k₂, k₃, hdial, hadd, hid⟩ := of_run_eq_ok hrun
    exact ⟨host, client, hostJob, id, k₁, k₂, k₃, hdial, hadd, hid, leads cluster happ _⟩

/-- A host that runs a job, and a new one whose identifier begins with the
first one's and a hyphen. -/
def sampleCluster : MemoryCluster :=
  (run sampleStore (cluster .epoch) "web" sampleJob false
    (({} : MemoryCluster).addHost "host")).2.addHost "host-a"

/-- The new host gets the next job, for it has none yet. -/
def sampleAfter : MemoryCluster :=
  (run sampleStore (cluster .epoch) "web" sampleJob false sampleCluster).2

theorem job_ids_work_of_hyphen :
    (∃ j h active, sampleCluster.IsJobOf j h active ∧
      Works sampleStore .epoch "web" j.id sampleCluster h active.job.id) ∧
    ∃ j session c' h active, run sampleStore (cluster .epoch) "web" sampleJob false sampleCluster =
      (.ok (j, session), c') ∧ c'.IsJobOf j h active ∧
      ¬ Works sampleStore .epoch "web" j.id c' h active.job.id := by
  have happ : ∃ a, sampleStore.getApp? "web" = some a :=
    Option.isSome_iff_exists.1 (by decide +kernel)
  have hc : sampleCluster.Keyed := by
    have hran :
        (run sampleStore (cluster .epoch) "web" sampleJob false
          (({} : MemoryCluster).addHost "host")).1.isOk =
        true := by decide +kernel
    rcases hrun : run sampleStore (cluster .epoch) "web" sampleJob false
      (({} : MemoryCluster).addHost "host") with ⟨e | ⟨j, session⟩, c'⟩
    · rw [hrun] at hran
      cases hran
    · have hc' := (isJobOf_of_run (keyed_empty.addHost "host") hrun).1
      rw [sampleCluster, hrun]
      exact hc'.addHost "host-a"
  obtain ⟨⟨jobs, hlist, hjobs⟩, hruns, -⟩ := job_ids_work .epoch hc happ
  constructor
  · have hsome :
      (listJobs sampleStore (cluster .epoch) "web" sampleCluster).1.toOption.map
        (·.length) = some 1 := by
      decide +kernel
    rw [hlist] at hsome
    obtain ⟨j, rfl⟩ := List.length_eq_one_iff.1 (Option.some.inj hsome)
    obtain ⟨h, active, hj, hworks⟩ := hjobs j (by simp)
    have haddress : ∀ h ∈ sampleCluster.hosts.values, ∀ active ∈ h.jobs,
        JobId.IsAddress ⟨h.id, active.job.id⟩ := by
      decide +kernel
    exact ⟨j, h, active, hj,
      hworks.2 (haddress h (Dict.mem_values_iff.2 ⟨_, hj.host⟩) active hj.running)⟩
  · have hran :
      (run sampleStore (cluster .epoch) "web" sampleJob false sampleCluster).1.toOption.map
        (·.1.id) =
        some "host-a-job0" := by decide +kernel
    have hno : ∀ h ∈ sampleAfter.hosts.values, ∀ active ∈ h.jobs,
        JobId.render ⟨h.id, active.job.id⟩ = "host-a-job0" →
        ¬ JobId.IsAddress ⟨h.id, active.job.id⟩ := by
      decide +kernel
    rw [sampleAfter] at hno
    rcases hrun : run sampleStore (cluster .epoch) "web" sampleJob false sampleCluster
      with ⟨e | ⟨j, session⟩, c'⟩ <;> rw [hrun] at hran hno
    · cases hran
    · obtain ⟨h, active, hj, hworks⟩ := hruns sampleJob false j session c' hrun
      have hid : JobId.render ⟨h.id, active.job.id⟩ = "host-a-job0" := by
        rw [← Option.some.inj hran, hj.eq]
        rfl
      refine ⟨j, session, c', h, active, rfl, hj, fun h' => ?_⟩
      exact hno h (Dict.mem_values_iff.2 ⟨_, hj.host⟩) active hj.running hid (hworks.1 h')

/-- What is done to the hosts: by their identifiers, the jobs they were asked to stop, the jobs they
run, and the jobs they were asked to attach to. -/
def asked (c : MemoryCluster) : List (String × List String × List String × List String) :=
  c.hosts.values.map fun h => (h.id, h.stopped, h.jobs.map (·.job.id), h.attaches.map (·.1.job))

/-- The job that runs on `host-a` is stopped by its identifier, and the stop is answered; but it was
sent to `host`, for a job that never was there. So is the attach for its log, which fails. -/
theorem job_id_misread :
    (run sampleStore (cluster .epoch) "web" sampleJob false sampleCluster).1.toOption.map (·.1.id) =
      some "host-a-job0" ∧
    sampleAfter.asked = [("host", [], ["job0"], []), ("host-a", [], ["job0"], [])] ∧
    (kill sampleStore (cluster .epoch) "web" "host-a-job0" sampleAfter).1.isOk = true ∧
    (kill sampleStore (cluster .epoch) "web" "host-a-job0" sampleAfter).2.asked =
      [("host", ["a-job0"], ["job0"], []), ("host-a", [], ["job0"], [])] ∧
    (openLog sampleStore (cluster .epoch) "web" "host-a-job0" false sampleAfter).1.isOk = false ∧
    (openLog sampleStore (cluster .epoch) "web" "host-a-job0" false sampleAfter).2.asked =
      [("host", [], ["job0"], ["a-job0"]), ("host-a", [], ["job0"], [])] := by
  decide +kernel

end MemoryCluster
end ControlPlane
