import ControlPlane.Proofs.Dispatch.Address

/-! # What the name of an app decides about its jobs

A listing shows the jobs that are tagged with the app, and no others. To stop a job, or to open its
log, an app has to be named that is there, and it does not matter which: the host and the job are
those of the job's identifier. Requests about an app's own jobs are not affected by the jobs of
others, for what they look at are the hosts' records of the job they name: its being there, and what
an attach to it gets to read.
-/
namespace ControlPlane

/-- Whether a job is tagged with an app. -/
def ActiveJob.isOf (app : String) (active : ActiveJob) : Bool :=
  active.job.attributes.get? HostJob.appAttribute == some app

/-- Two states of one host that differ in jobs of other apps alone. -/
structure MemoryHost.AgreeOn (app : String) (h h' : MemoryHost) : Prop where
  others : h' = { h with jobs := h'.jobs }
  jobs : h'.jobs.filter (·.isOf app) = h.jobs.filter (·.isOf app)

namespace MemoryHost.AgreeOn
variable {app : String} {h h' : MemoryHost}

theorem id_eq (hsame : AgreeOn app h h') : h'.id = h.id := by rw [hsame.others]

theorem incarnation_eq (hsame : AgreeOn app h h') : h'.incarnation = h.incarnation :=
  by rw [hsame.others]

/-- A job of the app is on both. -/
theorem mem (hsame : AgreeOn app h h') {active : ActiveJob} (hjob : active ∈ h.jobs)
    (htag : active.isOf app = true) :
    active ∈ h'.jobs := by
  have hmem : active ∈ h'.jobs.filter (·.isOf app) := by
    rw [hsame.jobs]
    exact List.mem_filter.2 ⟨hjob, htag⟩
  exact (List.mem_filter.1 hmem).1

theorem stopJob (hsame : AgreeOn app h h') (job : String) :
    AgreeOn app (h.stopJob job).2 (h'.stopJob job).2 where
  others := by
    have hothers := hsame.others
    cases h
    cases h'
    simp_all [MemoryHost.stopJob]
  jobs := by
    have hjobs := hsame.jobs
    simp only [MemoryHost.stopJob, List.filter_filter]
    rw [List.filter_congr fun _ _ => Bool.and_comm _ _, ← List.filter_filter, hjobs,
      List.filter_filter]
    exact List.filter_congr fun _ _ => Bool.and_comm _ _

theorem attach (hsame : AgreeOn app h h') (request : AttachRequest) (wait : Bool) :
    AgreeOn app (h.attach request wait).2 (h'.attach request wait).2 where
  others := by
    have hothers := hsame.others
    cases h
    cases h'
    simp_all [MemoryHost.attach]
  jobs := hsame.jobs

/-- What an attach to a job gets to read is the same on both if the job is on both. -/
theorem attach_fst (hsame : AgreeOn app h h') (request : AttachRequest)
    (hthere : (h.find? request.job).isSome = true) (hthere' : (h'.find? request.job).isSome = true)
    (wait : Bool) :
    (h'.attach request wait).1 = (h.attach request wait).1 := by
  have hid := hsame.id_eq
  have hhandler : h'.handler = h.handler := by rw [hsame.others]
  have houtput : h'.output = h.output := by rw [hsame.others]
  have hpeer : h'.peer? request.job = h.peer? request.job := by
    obtain ⟨active, hactive⟩ := Option.isSome_iff_exists.1 hthere
    obtain ⟨active', hactive'⟩ := Option.isSome_iff_exists.1 hthere'
    rw [MemoryHost.peer?, MemoryHost.peer?, hhandler, houtput, hactive, hactive']
    rfl
  simp only [MemoryHost.attach, hpeer, notFound, hid]

end MemoryHost.AgreeOn

/-- A session is with the host and for the request that it was opened with. -/
theorem AttachSession.answers_connect {σ : Type} (host : HostClient σ) (request : AttachRequest)
    (wait : Bool) :
    Answers (fun session => session.host = host ∧ session.request = request)
      (connect host request wait) :=
  .bind fun _ => .bind fun _ => .pure ⟨rfl, rfl⟩

namespace MemoryCluster
open Dispatch
variable {s : Store} {now : Instant} {app text : String} {a : App} {c c' : MemoryCluster}
  {h : MemoryHost}
  {active : ActiveJob}

/-! ## Listing -/

/-- The jobs that are tagged with an app, host by host. -/
def jobsTagged (app : String) (c : MemoryCluster) : List Job :=
  c.hosts.values.flatMap fun h => (h.jobs.filter (·.isOf app)).map fun active =>
    Job.ofHostJob h.id active.job

theorem listJobs_eq_jobsTagged (happ : s.getApp? app = some a) (now : Instant) (c : MemoryCluster) :
    listJobs s (cluster now) app c = (.ok (c.jobsTagged a.id), c) := by
  have hlisted : c.listHosts.flatMap (jobsOf a) = c.jobsTagged a.id := by
    rw [listHosts, List.flatMap_map]
    refine List.flatMap_congr fun h _ => ?_
    rw [jobsOf, List.filter_map, List.map_map]
    rfl
  rw [← hlisted, listJobs, resolveApp, happ]
  rfl

theorem mem_jobsTagged_iff (hc : c.Keyed) {j : Job} :
    j ∈ c.jobsTagged app ↔ ∃ h active, c.IsJobOf j h active ∧ active.isOf app = true := by
  simp only [jobsTagged, List.mem_flatMap, List.mem_map, List.mem_filter]
  constructor
  · rintro ⟨h, hh, active, ⟨hjob, htag⟩, rfl⟩
    obtain ⟨k, hk⟩ := Dict.mem_values_iff.1 hh
    exact ⟨h, active, ⟨by rwa [hc k h hk], hjob, rfl⟩, htag⟩
  · rintro ⟨h, active, hj, htag⟩
    exact ⟨h, Dict.mem_values_iff.2 ⟨h.id, hj.host⟩, active, ⟨hj.running, htag⟩, hj.eq.symm⟩

/-! ## Stops and logs -/

/-- Of the app that a request names nothing is asked but that it is there. -/
theorem kill_congr {app' : String} (happ : ∃ a, s.getApp? app = some a)
    (happ' : ∃ a, s.getApp? app' = some a) {σ : Type} (cluster : Cluster σ) (text : String) :
    kill s cluster app text = kill s cluster app' text := by
  obtain ⟨a, ha⟩ := happ
  obtain ⟨a', ha'⟩ := happ'
  rw [kill, kill, resolveApp, resolveApp, ha, ha']
  rfl

theorem openLog_congr {app' : String} (happ : ∃ a, s.getApp? app = some a)
    (happ' : ∃ a, s.getApp? app' = some a) {σ : Type} (cluster : Cluster σ) (text : String)
    (follow : Bool) :
    openLog s cluster app text follow = openLog s cluster app' text follow := by
  obtain ⟨a, ha⟩ := happ
  obtain ⟨a', ha'⟩ := happ'
  rw [openLog, openLog, resolveApp, resolveApp, ha, ha']
  rfl

/-- Asked for by the text, a job of the host is left running by a stop, and no session with it
is opened for its log. -/
structure Spares (s : Store) (now : Instant) (app text : String) (c : MemoryCluster)
    (h : MemoryHost) (active : ActiveJob) : Prop where
  kill : ∃ h', (kill s (cluster now) app text c).2.hosts.get? h.id = some h' ∧ active ∈ h'.jobs
  log : ∀ follow session c', openLog s (cluster now) app text follow c = (.ok session, c') →
    session.host.host = h.id → session.request.job ≠ active.job.id

theorem kill_spares (hc : c.Keyed) (now : Instant) (app : String)
    (hget : c.hosts.get? h.id = some h) (hjob : active ∈ h.jobs)
    (hread : JobId.parse? text ≠ some ⟨h.id, active.job.id⟩) :
    ∃ h', (kill s (cluster now) app text c).2.hosts.get? h.id = some h' ∧ active ∈ h'.jobs := by
  obtain ⟨e, hfail⟩ | ⟨asked, job, c', hasked, hget', hkill, hhosts⟩ := kill_cases hc s now app text
  · rw [hfail]
    exact ⟨h, hget, hjob⟩
  rw [hkill]
  by_cases hid : asked.id = h.id
  · rw [hid, hget] at hget'
    cases hget'
    -- The host is the job's own, so it is another job that was asked for.
    have hne : active.job.id ≠ job := by
      rintro rfl
      exact hread hasked
    exact ⟨_, hhosts.get?_self, List.mem_filter.2 ⟨hjob, by simpa using hne⟩⟩
  · exact ⟨h, (hhosts.get?_of_ne hid).trans hget, hjob⟩

/-- A session is with the job that the text is read as. -/
theorem parse?_of_openLog (hc : c.Keyed) {follow : Bool} {session : AttachSession MemoryCluster}
    (hopen : openLog s (cluster now) app text follow c = (.ok session, c')) :
    JobId.parse? text = some ⟨session.host.host, session.request.job⟩ := by
  rcases happ : s.getApp? app with _ | a
  · rw [openLog, resolveApp, happ] at hopen
    cases hopen
  rcases hread : JobId.parse? text with _ | id
  · rw [openLog, resolveApp, happ, resolveJob, hread] at hopen
    cases hopen
  rw [openLog_of_parse? ⟨a, happ⟩ hread] at hopen
  rcases hget : c.hosts.get? id.host with _ | h
  · have hdial : ask ((cluster now).dial id.host) c = (.error (.hostNotFound id.host), c) :=
      adapt_of_error _ (dial_of_none now hget)
    rw [bind_of_error hdial] at hopen
    cases hopen
  · have hid : h.id = id.host := hc _ h hget
    rw [← hid] at hget hopen
    rw [bind_of_ok (ask_dial hget)] at hopen
    obtain ⟨hhost, hrequest⟩ := (AttachSession.answers_connect (client now h) _ false).adapt _ hopen
    have hnamed : (⟨h.id, id.job⟩ : JobId) = id := by rw [hid]
    rw [hhost, hrequest]
    exact congrArg some hnamed.symm

theorem spares_of_parse? (hc : c.Keyed) (now : Instant) (app : String)
    (hget : c.hosts.get? h.id = some h) (hjob : active ∈ h.jobs)
    (hread : JobId.parse? text ≠ some ⟨h.id, active.job.id⟩) :
    Spares s now app text c h active where
  kill := kill_spares hc now app hget hjob hread
  log follow session c' hopen hhost hjob := hread (by rw [parse?_of_openLog hc hopen, hhost, hjob])

/-! ## Requests about the jobs of one app -/

/-- Two states of a cluster that differ in jobs of other apps alone. -/
structure AgreeOn (app : String) (c c' : MemoryCluster) : Prop where
  hosts : Dict.Rel (MemoryHost.AgreeOn app) c.hosts c'.hosts
  incarnations : c'.incarnations = c.incarnations
  listeners : c'.listeners = c.listeners

/-- The text is read as the identifier of a job of the app. -/
def NamesJobOf (app : String) (c : MemoryCluster) (text : String) : Prop :=
  ∃ h active, c.hosts.get? h.id = some h ∧ active ∈ h.jobs ∧ active.isOf app = true ∧
    JobId.parse? text = some ⟨h.id, active.job.id⟩

inductive JobRequest
  | list
  | kill (text : String)
  | log (text : String) (follow : Bool)

inductive JobReply
  | listed (jobs : List Job)
  | stopped
  | opened (session : AttachSession MemoryCluster)

/-- A list is about all jobs of the app, a stop and a log are about the one that is named. -/
def JobRequest.IsAbout (app : String) (c : MemoryCluster) : JobRequest → Prop
  | .list => True
  | .kill text | .log text _ => c.NamesJobOf app text

def answer (s : Store) (now : Instant) (app : String) (c : MemoryCluster) :
    JobRequest → Except DispatchError JobReply × MemoryCluster
  | .list => (listJobs s (cluster now) app c).map (·.map .listed) id
  | .kill text => (kill s (cluster now) app text c).map (·.map fun () => .stopped) id
  | .log text follow => (openLog s (cluster now) app text follow c).map (·.map .opened) id

/-- The answers to requests that come one after another, each at its own time, and what they
leave. -/
def answerAll (s : Store) (app : String) :
    MemoryCluster → List (Instant × JobRequest) →
    List (Except DispatchError JobReply) × MemoryCluster
  | c, [] => ([], c)
  | c, (now, request) :: later =>
    let rest := answerAll s app (answer s now app c request).2 later
    ((answer s now app c request).1 :: rest.1, rest.2)

/-- Each request is about jobs of the app when its turn comes. -/
def KeepsTo (s : Store) (a : App) (app : String) :
    MemoryCluster → List (Instant × JobRequest) → Prop
  | _, [] => True
  | c, (now, request) :: later =>
    request.IsAbout a.id c ∧ KeepsTo s a app (answer s now app c request).2 later

namespace AgreeOn

theorem putHost {h' : MemoryHost} (hsame : AgreeOn app c c') (hhost : MemoryHost.AgreeOn app h h') :
    AgreeOn app (c.putHost h) (c'.putHost h') where
  hosts := by
    rw [MemoryCluster.putHost, MemoryCluster.putHost, hhost.id_eq]
    exact hsame.hosts.insert h.id hhost
  incarnations := hsame.incarnations
  listeners := hsame.listeners

theorem emit (hsame : AgreeOn app c c') {incarnation incarnation' : Nat}
    (heq : incarnation' = incarnation) (event : HostEvent) :
    AgreeOn app (c.emit incarnation event) (c'.emit incarnation' event) where
  hosts := hsame.hosts
  incarnations := hsame.incarnations
  listeners := by rw [MemoryCluster.emit, MemoryCluster.emit, hsame.listeners, heq]

theorem jobsTagged_eq (hsame : AgreeOn app c c') : c'.jobsTagged app = c.jobsTagged app := by
  have hvalues := hsame.hosts.values
  unfold jobsTagged
  generalize c.hosts.values = hosts, c'.hosts.values = hosts' at hvalues
  induction hvalues with
  | nil => rfl
  | cons hhost _ ih => rw [List.flatMap_cons, List.flatMap_cons, ih, hhost.jobs, hhost.id_eq]

/-- A job of the app that is named in the one is named in the other too. -/
theorem exists_host (hsame : AgreeOn app c c') (hnames : c.NamesJobOf app text) :
    ∃ h h' active, c.hosts.get? h.id = some h ∧ c'.hosts.get? h'.id = some h' ∧
      MemoryHost.AgreeOn app h h' ∧
      active ∈ h.jobs ∧ active ∈ h'.jobs ∧ JobId.parse? text = some ⟨h.id, active.job.id⟩ ∧
      JobId.parse? text = some ⟨h'.id, active.job.id⟩ := by
  obtain ⟨h, active, hget, hjob, htag, hread⟩ := hnames
  obtain ⟨h', hget', hhost⟩ := hsame.hosts.exists_get? hget
  rw [← hhost.id_eq] at hget'
  exact ⟨h, h', active, hget, hget', hhost, hjob, hhost.mem hjob htag, hread,
    by rw [hread, hhost.id_eq]⟩

theorem kill (happ : s.getApp? app = some a) (now : Instant) (hsame : AgreeOn a.id c c')
    (hnames : c.NamesJobOf a.id text) :
    (kill s (cluster now) app text c').1 = (kill s (cluster now) app text c).1 ∧
      AgreeOn a.id (kill s (cluster now) app text c).2 (kill s (cluster now) app text c').2 := by
  obtain ⟨h, h', active, hget, hget', hhost, hjob, hjob', hread, hread'⟩ := hsame.exists_host hnames
  have hworks : Works s now app text c h active.job.id := works_of_parse? ⟨a, happ⟩ hget hjob hread
  have hworks' : Works s now app text c' h' active.job.id :=
    works_of_parse? ⟨a, happ⟩ hget' hjob' hread'
  rw [hworks.kill, hworks'.kill]
  exact ⟨rfl, (hsame.putHost (hhost.stopJob active.job.id)).emit hhost.incarnation_eq _⟩

theorem openLog (happ : s.getApp? app = some a) (now : Instant) (hsame : AgreeOn a.id c c')
    (hnames : c.NamesJobOf a.id text) (follow : Bool) :
    (openLog s (cluster now) app text follow c').1 = (openLog s (cluster now) app text follow c).1 ∧
      AgreeOn a.id (openLog s (cluster now) app text follow c).2
        (openLog s (cluster now) app text follow c').2 := by
  obtain ⟨h, h', active, hget, hget', hhost, hjob, hjob', hread, hread'⟩ := hsame.exists_host hnames
  have hgranted := hhost.attach_fst (logRequest active.job.id follow) (MemoryHost.isSome_find? hjob)
    (MemoryHost.isSome_find? hjob') false
  have hclient : client now h' = client now h := client_congr now hhost.id_eq hhost.incarnation_eq
  rw [openLog_of_get? ⟨a, happ⟩ hget hread, openLog_of_get? ⟨a, happ⟩ hget' hread',
    hclient, hgranted]
  exact ⟨rfl, hsame.putHost (hhost.attach ..)⟩

end AgreeOn

/-- A request about jobs of the app is answered alike, and leaves the two alike. -/
theorem AgreeOn.answer (happ : s.getApp? app = some a) (now : Instant) (hsame : AgreeOn a.id c c')
    {request : JobRequest} (habout : request.IsAbout a.id c) :
    (answer s now app c' request).1 = (answer s now app c request).1 ∧
      AgreeOn a.id (answer s now app c request).2 (answer s now app c' request).2 := by
  cases request with
  | list =>
    rw [MemoryCluster.answer, MemoryCluster.answer, listJobs_eq_jobsTagged happ,
      listJobs_eq_jobsTagged happ, hsame.jobsTagged_eq]
    exact ⟨rfl, hsame⟩
  | kill text =>
    obtain ⟨hreply, hleft⟩ := hsame.kill happ now habout
    exact ⟨congrArg (Except.map fun _ => JobReply.stopped) hreply, hleft⟩
  | log text follow =>
    obtain ⟨hreply, hleft⟩ := hsame.openLog happ now habout follow
    exact ⟨congrArg (Except.map JobReply.opened) hreply, hleft⟩

/-- All requests, one after another: each finds the two alike and leaves them so. -/
theorem AgreeOn.answerAll (happ : s.getApp? app = some a) (hsame : AgreeOn a.id c c')
    {requests : List (Instant × JobRequest)} (hkeeps : KeepsTo s a app c requests) :
    (answerAll s app c' requests).1 = (answerAll s app c requests).1 ∧
      AgreeOn a.id (answerAll s app c requests).2 (answerAll s app c' requests).2 := by
  induction requests generalizing c c' with
  | nil => exact ⟨rfl, hsame⟩
  | cons request later ih =>
    obtain ⟨now, request⟩ := request
    obtain ⟨habout, hlater⟩ := hkeeps
    obtain ⟨hreply, hleft⟩ := hsame.answer happ now habout
    obtain ⟨hreplies, hleft⟩ := ih hleft hlater
    exact ⟨List.cons_eq_cons.2 ⟨hreply, hreplies⟩, hleft⟩

/-- A list shows an app the jobs that are tagged with it. Stops and logs ask no more of the app
than that it is there, and go to the job that the text is read as, whosever it is, and to no
other. How an app's requests about its own jobs are answered, and what they leave, does not depend
on the jobs of others. -/
theorem only_lists_keep_to_app (now : Instant) (hc : c.Keyed) (happ : s.getApp? app = some a) :
    (∃ jobs, listJobs s (cluster now) app c = (.ok jobs, c) ∧
      ∀ j, j ∈ jobs ↔ ∃ h active, c.IsJobOf j h active ∧ active.isOf a.id = true) ∧
    (∀ app', (∃ a', s.getApp? app' = some a') → ∀ text,
      kill s (cluster now) app text c = kill s (cluster now) app' text c ∧
      ∀ follow, openLog s (cluster now) app text follow c =
        openLog s (cluster now) app' text follow c) ∧
    (∀ h active, c.hosts.get? h.id = some h → active ∈ h.jobs → ∀ text,
      if JobId.parse? text = some ⟨h.id, active.job.id⟩ then Works s now app text c h active.job.id
      else Spares s now app text c h active) ∧
    ∀ c', AgreeOn a.id c c' → ∀ requests, KeepsTo s a app c requests →
      (answerAll s app c' requests).1 = (answerAll s app c requests).1 ∧
      AgreeOn a.id (answerAll s app c requests).2 (answerAll s app c' requests).2 := by
  have hthere : ∃ a, s.getApp? app = some a := ⟨a, happ⟩
  refine ⟨⟨_, listJobs_eq_jobsTagged happ now c, fun j => mem_jobsTagged_iff hc⟩,
    fun app' happ' text => ⟨?_, fun follow => ?_⟩, fun h active hget hjob text => ?_,
    fun c' hsame requests hkeeps => hsame.answerAll happ hkeeps⟩
  · rw [kill_congr hthere happ']
  · rw [openLog_congr hthere happ']
  · split
    · next hread => exact works_of_parse? hthere hget hjob hread
    · next hread => exact spares_of_parse? hc now app hget hjob hread

/-- Two apps, of which one has a release. -/
def sharedStore : Store :=
  (sampleStore.perform ⟨.epoch, ""⟩
    (.createApp { id := "fedcba9876543210fedcba9876543210", name := "shop" })).1

/-- A job of the first app. -/
def webJob (id : String) : ActiveJob :=
  ⟨{ id, attributes := Dict.ofList [(HostJob.appAttribute, "0123456789abcdef0123456789abcdef")] },
    .running, none⟩

/-- A job of the other one. -/
def shopJob (id : String) : ActiveJob :=
  ⟨{ id, attributes := Dict.ofList [(HostJob.appAttribute, "fedcba9876543210fedcba9876543210")] },
    .running, none⟩

def hostOf (jobs : List ActiveJob) : MemoryHost := { id := "host0", incarnation := 0, jobs }

def clusterOf (jobs : List ActiveJob) : MemoryCluster :=
  (({} : MemoryCluster).addHost "host0").putHost (hostOf jobs)

theorem only_lists_keep_to_app_of_shared :
    let h := hostOf [webJob "job0", shopJob "job1"]
    let c := clusterOf [webJob "job0", shopJob "job1"]
    let requests := [(.epoch, .list), (.epoch, .kill "host0-job0")]
    (listJobs sharedStore (cluster .epoch) "web" c).1.toOption.map (·.map (·.id)) =
      some ["host0-job0"] ∧
    Works sharedStore .epoch "web" "host0-job1" c h "job1" ∧
    Spares sharedStore .epoch "web" "host0-job1" c h (webJob "job0") ∧
    (answerAll sharedStore "web" (clusterOf [webJob "job0"]) requests).1 =
      (answerAll sharedStore "web" c requests).1 := by
  intro h c requests
  have hc : c.Keyed := (keyed_empty.addHost "host0").putHost _
  have hweb : (sharedStore.getApp? "web").map (·.id) = some "0123456789abcdef0123456789abcdef" := by
    decide +kernel
  obtain ⟨a, happ, hid⟩ := Option.map_eq_some_iff.1 hweb
  obtain ⟨-, -, hjobs, hothers⟩ := only_lists_keep_to_app .epoch hc happ
  have hget : c.hosts.get? h.id = some h := by decide +kernel
  have hsame : AgreeOn a.id c (clusterOf [webJob "job0"]) := by
    rw [hid]
    exact ⟨.cons ⟨rfl, rfl, by decide +kernel⟩ .nil, rfl, rfl⟩
  have hkeeps : KeepsTo sharedStore a "web" c requests := by
    have hlist : (answer sharedStore .epoch "web" c .list).2 = c := by decide +kernel
    refine ⟨trivial, ?_, trivial⟩
    rw [hlist, hid]
    exact ⟨h, webJob "job0", hget, by decide +kernel, by decide +kernel, by decide +kernel⟩
  refine ⟨by decide +kernel, ?_, ?_, (hothers _ hsame requests hkeeps).1⟩
  · have hshop := hjobs h (shopJob "job1") hget (by decide +kernel) "host0-job1"
    rwa [if_pos (by decide +kernel)] at hshop
  · have hown := hjobs h (webJob "job0") hget (by decide +kernel) "host0-job1"
    rwa [if_neg (by decide +kernel)] at hown

/-- The job of the other app is stopped for the first one, and attached to for it. If two jobs have
one identifier, then the first app's list shows that of the other's job. -/
theorem jobs_of_others_reached :
    let c := clusterOf [webJob "job0", shopJob "job1"]
    (sharedStore.getApp? "web").map (·.id) = some "0123456789abcdef0123456789abcdef" ∧
    (sharedStore.getApp? "shop").map (·.id) = some "fedcba9876543210fedcba9876543210" ∧
    c.asked = [("host0", [], ["job0", "job1"], [])] ∧
    (kill sharedStore (cluster .epoch) "web" "host0-job1" c).2.asked =
      [("host0", ["job1"], ["job0"], [])] ∧
    (openLog sharedStore (cluster .epoch) "web" "host0-job1" false c).1.isOk = true ∧
    (openLog sharedStore (cluster .epoch) "web" "host0-job1" false c).2.asked =
      [("host0", [], ["job0", "job1"], ["job1"])] ∧
    (listJobs sharedStore (cluster .epoch) "web"
      (clusterOf [webJob "job0", shopJob "job0"])).1.toOption.map
        (·.map (·.id)) = some ["host0-job0"] := by
  decide +kernel

end MemoryCluster
end ControlPlane
