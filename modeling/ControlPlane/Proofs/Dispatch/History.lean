import ControlPlane.Proofs.Dispatch.Address
import Mathlib.Data.List.Basic
import Mathlib.Data.List.Pairwise

/-! # Hosts that get their jobs by runs, and their histories

A history has an entry for every run and every kill that succeeded. As long as nothing else gives
a host a job, and no host is added twice, each host runs what its history leaves there: the jobs
that were run on it and that no kill has named since. No two runs answer one identifier, for no
host uses a number twice.
-/
namespace ControlPlane

/-- The host that the identifier of a job names. -/
def Job.host (j : Job) : String := ((JobId.parse? j.id).map (·.host)).getD ""

namespace MemoryCluster
open Dispatch

/-! ## Histories -/

/-- A run for an app, with the job that it answered, or a kill, with the text
that it was asked for by. -/
inductive Outcome
  | ran (app : String) (job : Job)
  | killed (text : String)
  deriving DecidableEq

def Outcome.jobId? : Outcome → Option String
  | .ran _ job => some job.id
  | .killed _ => none

/-- The jobs that were run, each with its app, and that no kill has named since. -/
def standing : List Outcome → List (String × Job)
  | [] => []
  | .ran app job :: later =>
    if .killed job.id ∈ later then standing later else (app, job) :: standing later
  | .killed _ :: later => standing later

/-- What is done to a cluster in memory. Runs and kills read the store as it is by then. -/
inductive Call
  | addHost (host : String)
  | rejectJobs (host reason : String)
  | run (s : Store) (now : Instant) (app : String) (job : NewJob) (attach : Bool)
  | kill (s : Store) (now : Instant) (app text : String)

def Call.host? : Call → Option String
  | .addHost host => some host
  | _ => none

/-- Makes a host refuse every later job. -/
def rejectJobs (c : MemoryCluster) (host reason : String) : MemoryCluster :=
  match c.hosts.get? host with
  | none => c
  | some h => c.putHost { h with rejection := some reason }

/-- What an act leaves, and the entry of its answer, if it has one. -/
def entered {α : Type} (result : Except DispatchError α × MemoryCluster)
    (entry : α → Option Outcome) :
    MemoryCluster × Option Outcome :=
  (result.2, result.1.toOption.bind entry)

/-- The cluster after a call, and what the call adds to the history. -/
def perform (c : MemoryCluster) : Call → MemoryCluster × Option Outcome
  | .addHost host => (c.addHost host, none)
  | .rejectJobs host reason => (c.rejectJobs host reason, none)
  | .run s now app job attach =>
    entered (Dispatch.run s (cluster now) app job attach c) fun (placed, _) =>
      (s.getApp? app).map fun a => .ran a.id placed
  | .kill s now app text => entered (Dispatch.kill s (cluster now) app text c) fun () =>
    some (.killed text)

def performAll (c : MemoryCluster) (calls : List Call) : MemoryCluster :=
  calls.foldl (fun c call => (c.perform call).1) c

def history : MemoryCluster → List Call → List Outcome
  | _, [] => []
  | c, call :: calls => (c.perform call).2.toList ++ history (c.perform call).1 calls

theorem performAll_append (c : MemoryCluster) (calls : List Call) (call : Call) :
    c.performAll (calls ++ [call]) = ((c.performAll calls).perform call).1 := by
  rw [performAll, List.foldl_append]
  rfl

theorem history_append (c : MemoryCluster) (calls : List Call) (call : Call) :
    history c (calls ++ [call]) =
      history c calls ++ ((c.performAll calls).perform call).2.toList := by
  induction calls generalizing c with
  | nil => exact List.append_nil _
  | cons first calls ih =>
    rw [List.cons_append, history, ih, history, List.append_assoc]
    rfl

/-- Each host is added once, and its identifier can stand in front of a hyphen. -/
structure Admitted (calls : List Call) : Prop where
  once : (calls.filterMap Call.host?).Nodup
  plain : ∀ host ∈ calls.filterMap Call.host?, host ≠ "" ∧ '-' ∉ host.toList

instance (calls : List Call) : Decidable (Admitted calls) :=
  decidable_of_iff ((calls.filterMap Call.host?).Nodup ∧
    ∀ host ∈ calls.filterMap Call.host?, host ≠ "" ∧ '-' ∉ host.toList)
    ⟨fun h => ⟨h.1, h.2⟩, fun h => ⟨h.once, h.plain⟩⟩

theorem Admitted.cons {call : Call} {calls : List Call} (h : Admitted (call :: calls)) :
    Admitted calls ∧ ∀ host, call.host? = some host → host ∉ calls.filterMap Call.host? := by
  obtain ⟨honce, hplain⟩ := h
  rw [List.filterMap_cons] at honce hplain
  cases hcall : call.host? with
  | none =>
    rw [hcall] at honce hplain
    exact ⟨⟨honce, hplain⟩, nofun⟩
  | some host =>
    rw [hcall] at honce hplain
    obtain ⟨hnew, honce⟩ := List.nodup_cons.1 honce
    refine ⟨⟨honce, fun k hk => hplain k (List.mem_cons_of_mem _ hk)⟩, ?_⟩
    rintro _ ⟨⟩
    exact hnew

/-! ## One more entry -/

section Standing
variable {hist : List Outcome} {app text : String} {job : Job}

theorem mem_of_mem_standing (h : (app, job) ∈ standing hist) : .ran app job ∈ hist := by
  induction hist with
  | nil => cases h
  | cons o later ih =>
    cases o with
    | ran app' job' =>
      rw [standing] at h
      split at h
      · exact List.mem_cons_of_mem _ (ih h)
      · rcases List.mem_cons.1 h with h | h
        · cases h
          exact List.mem_cons_self
        · exact List.mem_cons_of_mem _ (ih h)
    | killed => exact List.mem_cons_of_mem _ (ih h)

theorem standing_append_ran :
    standing (hist ++ [.ran app job]) = standing hist ++ [(app, job)] := by
  induction hist with
  | nil => rfl
  | cons o later ih =>
    cases o with
    | ran app' job' =>
      rw [List.cons_append, standing, standing, ih]
      by_cases h : .killed job'.id ∈ later <;> simp [h]
    | killed => exact ih

theorem standing_append_killed :
    standing (hist ++ [.killed text]) = (standing hist).filter (·.2.id != text) := by
  induction hist with
  | nil => rfl
  | cons o later ih =>
    cases o with
    | ran app' job' =>
      rw [List.cons_append, standing, standing, ih]
      by_cases h : .killed job'.id ∈ later
      · simp [h]
      · by_cases ht : job'.id = text
        · subst ht; simp [h]
        · simp [h, ht]
    | killed => exact ih

/-- Where every identifier was answered once, an answer is told by its identifier. -/
theorem ran_inj (hdistinct : (hist.filterMap Outcome.jobId?).Nodup) {app' : String} {job' : Job}
    (h : .ran app job ∈ hist) (h' : .ran app' job' ∈ hist) (hid : job.id = job'.id) :
    app = app' ∧ job = job' := by
  rw [List.Nodup, List.pairwise_filterMap] at hdistinct
  by_contra hne
  have hsymm : Std.Symm fun o o' : Outcome => ∀ id, o.jobId? = some id →
      ∀ id', o'.jobId? = some id' → id ≠ id' :=
    ⟨fun o o' h id hid id' hid' => (h id' hid' id hid).symm⟩
  exact hdistinct.forall h h' (by simpa using hne) _ rfl _ rfl hid

/-- What stands on a host. -/
def standingOn (host : String) (hist : List Outcome) : List (String × Job) :=
  (standing hist).filter (·.2.host == host)

theorem standingOn_append_ran (host : String) : standingOn host (hist ++ [.ran app job]) =
    if job.host = host then standingOn host hist ++ [(app, job)] else standingOn host hist := by
  rw [standingOn, standing_append_ran, List.filter_append, ← standingOn]
  split
  · next h => simp [h]
  · next h => simp [h]

theorem standingOn_append_killed (host : String) :
    standingOn host (hist ++ [.killed text]) = (standingOn host hist).filter (·.2.id != text) := by
  rw [standingOn, standing_append_killed, List.filter_comm, ← standingOn]

end Standing

/-! ## What a call does to the hosts -/

/-- What a call may do, by the name of the host that it adds: the cluster it leaves and what
it adds to the history. -/
inductive Effect (c : MemoryCluster) : Option String → MemoryCluster → Option Outcome → Prop
  | idle {c' : MemoryCluster} (hsame : ∀ k, c'.hosts.get? k = c.hosts.get? k) :
      Effect c none c' none
  | added {c' : MemoryCluster} {h : MemoryHost} (hjobs : h.jobs = []) (hhosts : c.OnlyHost h c') :
      Effect c (some h.id) c' none
  | barred {c' : MemoryCluster} {h h' : MemoryHost} (hget : c.hosts.get? h.id = some h)
      (hh' : h' = { h with rejection := h'.rejection }) (hhosts : c.OnlyHost h' c') :
      Effect c none c' none
  | ran {c' : MemoryCluster} {app : String} {job : HostJob} {now : Instant} {h h' : MemoryHost}
      (htag : job.attributes.get? HostJob.appAttribute = some app)
      (hget : c.hosts.get? h.id = some h)
      (hh' : h' = { h.taking now job with attaches := h'.attaches }) (hhosts : c.OnlyHost h' c') :
      Effect c none c' (some (.ran app (Job.ofHostJob h.id (h.number job))))
  | killed {c' : MemoryCluster} {text job : String} {h : MemoryHost}
      (hread : JobId.parse? text = some ⟨h.id, job⟩)
        (hget : c.hosts.get? h.id = some h) (hhosts : c.OnlyHost (h.stopJob job).2 c') :
        Effect c none c' (some (.killed text))

section Step
variable {c c' : MemoryCluster} {host? : Option String} {o? : Option Outcome} {k : String}

theorem perform_effect (hc : c.Keyed) (call : Call) :
    Effect c call.host? (c.perform call).1 (c.perform call).2 := by
  cases call with
  | addHost host =>
    have hhosts : c.OnlyHost { id := host, incarnation := c.incarnations } (c.addHost host) :=
      fun _ => Dict.get?_insert ..
    exact .added rfl hhosts
  | rejectJobs host reason =>
    rw [perform, rejectJobs]
    split
    · exact .idle fun _ => rfl
    · next h hget => exact .barred (by rwa [hc _ h hget]) rfl (onlyHost_putHost c _)
  | run s now app job attach =>
    rw [perform]
    obtain ⟨e, c', hrun, hsame, -⟩ |
      ⟨r, hostJob, h, session, c', hr, hdescribes, hleast, -, hrun, -, hhosts⟩ :=
      run_cases hc s now app job attach
    · rw [hrun]
      exact .idle hsame
    · rw [hrun, hr.app]
      exact .ran hdescribes.tag hleast.there rfl hhosts
  | kill s now app text =>
    rw [perform]
    obtain ⟨e, hkill⟩ | ⟨h, job, c', hread, hget, hkill, hhosts⟩ := kill_cases hc s now app text
    · rw [hkill]
      exact .idle fun _ => rfl
    · rw [hkill]
      exact .killed hread hget hhosts

/-- No call but the one that adds it brings a host. -/
theorem Effect.get?_eq_none (heffect : Effect c host? c' o?) (hk : c.hosts.get? k = none)
    (hne : host? ≠ some k) :
    c'.hosts.get? k = none := by
  have hother {h h' : MemoryHost} (hget : c.hosts.get? h.id = some h) (hid : h'.id = h.id)
      (hhosts : c.OnlyHost h' c') : c'.hosts.get? k = none := by
    rw [hhosts.get?_of_ne, hk]
    rintro rfl
    rw [hid, hget] at hk
    cases hk
  cases heffect with
  | idle hsame => rw [hsame, hk]
  | added hjobs hhosts => rw [hhosts.get?_of_ne fun he => hne (congrArg some he), hk]
  | barred hget hh' hhosts => exact hother hget (by rw [hh']) hhosts
  | ran htag hget hh' hhosts => exact hother hget (by rw [hh']; rfl) hhosts
  | @killed _ _ job h hread hget hhosts =>
    have hid : (h.stopJob job).2.id = h.id := rfl
    exact hother hget hid hhosts

/-- Hosts stay under their own identifiers. -/
theorem Effect.keyed (heffect : Effect c host? c' o?) (hc : c.Keyed) : c'.Keyed := by
  cases heffect with
  | idle hsame => exact fun k h hk => hc k h (hsame k ▸ hk)
  | added _ hhosts | barred _ _ hhosts | ran _ _ _ hhosts | killed _ _ hhosts =>
    exact hc.onlyHost hhosts

end Step

/-! ## A run of calls and its history -/

/-- A job as clients see it, with the app that its tag names. -/
def shown (host : String) (active : ActiveJob) : Option String × Job :=
  (active.job.attributes.get? HostJob.appAttribute, Job.ofHostJob host active.job)

/-- A history that tells of all jobs of a cluster: every job was answered once, under a number that
its host has used, and each host runs what stands on it. -/
structure Recorded (c : MemoryCluster) (hist : List Outcome) : Prop where
  keyed : c.Keyed
  plain : ∀ h, c.hosts.get? h.id = some h → h.id ≠ "" ∧ '-' ∉ h.id.toList
  distinct : (hist.filterMap Outcome.jobId?).Nodup
  numbered : ∀ app job, .ran app job ∈ hist → ∃ h n, c.hosts.get? h.id = some h ∧ n < h.nextJob ∧
    JobId.parse? job.id = some ⟨h.id, "job" ++ toString n⟩
  jobs : ∀ h, c.hosts.get? h.id = some h →
    h.jobs.map (shown h.id) = (standingOn h.id hist).map fun p => (some p.1, p.2)

theorem recorded_empty : Recorded {} [] where
  keyed := keyed_empty
  plain h hget := by simp at hget
  distinct := List.nodup_nil
  numbered app job h := by cases h
  jobs h hget := by simp at hget

theorem number_inj {n n' : Nat} (h : "job" ++ toString n = "job" ++ toString n') : n = n' := by
  have hl := congrArg String.toList h
  rw [String.toList_append, String.toList_append] at hl
  have hdigits : Nat.toDigits 10 n = Nat.toDigits 10 n' := by
    simpa only [Nat.toString_eq_ofList_toDigits, String.toList_ofList]
      using List.append_cancel_left hl
  rw [← Nat.ofDigitChars_ten_toDigits (n := n), hdigits, Nat.ofDigitChars_ten_toDigits]

namespace Recorded
variable {c c' : MemoryCluster} {hist hist' : List Outcome} {h h' : MemoryHost}
  {app text : String} {job : Job}

theorem of_same (hr : Recorded c hist) (hsame : ∀ k, c'.hosts.get? k = c.hosts.get? k) :
    Recorded c' hist where
  keyed k h hk := hr.keyed k h (hsame k ▸ hk)
  plain h hget := hr.plain h (hsame h.id ▸ hget)
  distinct := hr.distinct
  numbered app job hran := by simpa only [hsame] using hr.numbered app job hran
  jobs h hget := hr.jobs h (hsame h.id ▸ hget)

/-- Where one host is replaced, what is left to show is about that host and what was
added to the history. -/
theorem of_onlyHost (hr : Recorded c hist) (hhosts : c.OnlyHost h' c')
    (hplain : h'.id ≠ "" ∧ '-' ∉ h'.id.toList)
    (hnext : ∀ h, c.hosts.get? h'.id = some h → h.nextJob ≤ h'.nextJob)
    (hdistinct : (hist'.filterMap Outcome.jobId?).Nodup)
    (hnumbered : ∀ app job, .ran app job ∈ hist' → .ran app job ∈ hist ∨
      ∃ n < h'.nextJob, JobId.parse? job.id = some ⟨h'.id, "job" ++ toString n⟩)
    (hown : h'.jobs.map (shown h'.id) = (standingOn h'.id hist').map fun p => (some p.1, p.2))
    (hother : ∀ k, h'.id ≠ k → standingOn k hist' = standingOn k hist) : Recorded c' hist' where
  keyed := hr.keyed.onlyHost hhosts
  plain h hget := by
    by_cases he : h'.id = h.id
    · rwa [← he]
    · exact hr.plain h (hhosts.get?_of_ne he ▸ hget)
  distinct := hdistinct
  numbered app job hran := by
    obtain hran | ⟨n, hn, hread⟩ := hnumbered app job hran
    · obtain ⟨h, n, hget, hn, hread⟩ := hr.numbered app job hran
      by_cases he : h'.id = h.id
      · exact ⟨h', n, hhosts.get?_self, Nat.lt_of_lt_of_le hn (hnext h (he ▸ hget)), he ▸ hread⟩
      · exact ⟨h, n, (hhosts.get?_of_ne he).trans hget, hn, hread⟩
    · exact ⟨h', n, hhosts.get?_self, hn, hread⟩
  jobs h hget := by
    by_cases he : h'.id = h.id
    · obtain rfl : h' = h := Option.some.inj (hhosts.get?_self.symm.trans (he ▸ hget))
      exact hown
    · rw [hother _ he]
      exact hr.jobs h (hhosts.get?_of_ne he ▸ hget)

/-- A job that stands on a host stands on one of the cluster. -/
theorem exists_host (hr : Recorded c hist) (hmem : (app, job) ∈ standing hist) :
    ∃ h, c.hosts.get? h.id = some h ∧ job.host = h.id := by
  obtain ⟨h, n, hget, -, hread⟩ := hr.numbered app job (mem_of_mem_standing hmem)
  exact ⟨h, hget, by rw [Job.host, hread]; rfl⟩

theorem added (hr : Recorded c hist) (hnew : c.hosts.get? h.id = none)
    (hplain : h.id ≠ "" ∧ '-' ∉ h.id.toList) (hjobs : h.jobs = []) (hhosts : c.OnlyHost h c') :
    Recorded c' hist := by
  refine hr.of_onlyHost hhosts hplain ?_ hr.distinct (fun _ _ => .inl) ?_ fun _ _ => rfl
  · intro h' hget
    rw [hnew] at hget
    cases hget
  · have hnone : standingOn h.id hist = [] := by
      refine List.filter_eq_nil_iff.2 fun p hp => ?_
      obtain ⟨h', hget, hhost⟩ := hr.exists_host hp
      rw [hhost, beq_iff_eq]
      intro he
      rw [he, hnew] at hget
      cases hget
    rw [hnone, hjobs]
    rfl

theorem barred (hr : Recorded c hist) (hget : c.hosts.get? h.id = some h)
    (hh' : h' = { h with rejection := h'.rejection }) (hhosts : c.OnlyHost h' c') :
    Recorded c' hist := by
  have hid : h'.id = h.id := by rw [hh']
  refine hr.of_onlyHost hhosts (hid ▸ hr.plain h hget) ?_ hr.distinct (fun _ _ => .inl) ?_
    fun _ _ => rfl
  · intro h₁ hget₁
    rw [hid, hget] at hget₁
    cases hget₁
    rw [hh']
  · have hjobs : h'.jobs = h.jobs := by rw [hh']
    rw [hjobs, hid]
    exact hr.jobs h hget

/-- The next number of a host was given to none of its jobs. -/
theorem ran (hr : Recorded c hist) {hostJob : HostJob} {now : Instant}
    (htag : hostJob.attributes.get? HostJob.appAttribute = some app)
    (hget : c.hosts.get? h.id = some h)
    (hh' : h' = { h.taking now hostJob with attaches := h'.attaches }) (hhosts : c.OnlyHost h' c') :
    Recorded c' (hist ++ [.ran app (Job.ofHostJob h.id (h.number hostJob))]) := by
  have hid : h'.id = h.id := by rw [hh']; rfl
  have hnext : h'.nextJob = h.nextJob + 1 := by rw [hh']; rfl
  obtain ⟨hnamed, hplain⟩ := hr.plain h hget
  have hread : JobId.parse? (Job.ofHostJob h.id (h.number hostJob)).id =
      some ⟨h.id, "job" ++ toString h.nextJob⟩ :=
    JobId.parse?_eq_some_iff.2 ⟨⟨hnamed, hplain, by simp⟩, rfl⟩
  have hhost : (Job.ofHostJob h.id (h.number hostJob)).host = h.id := by rw [Job.host, hread]; rfl
  refine hr.of_onlyHost hhosts (hid ▸ ⟨hnamed, hplain⟩) ?_ ?_ ?_ ?_ ?_
  · intro h₁ hget₁
    rw [hid, hget] at hget₁
    cases hget₁
    rw [hnext]
    exact Nat.le_succ _
  · rw [List.filterMap_append, List.nodup_append]
    refine ⟨hr.distinct, List.pairwise_singleton _ _, ?_⟩
    intro id hold id' hnew he
    cases List.mem_singleton.1 hnew
    obtain ⟨o, ho, hid⟩ := List.mem_filterMap.1 hold
    cases o with
    | killed => cases hid
    | ran app₁ job₁ =>
      obtain ⟨h₁, n, hget₁, hn, hread₁⟩ := hr.numbered app₁ job₁ ho
      rw [Option.some.inj hid, he, hread] at hread₁
      obtain ⟨hsame, hnumber⟩ := JobId.mk.inj (Option.some.inj hread₁)
      rw [← hsame, hget] at hget₁
      cases hget₁
      exact absurd hn (number_inj hnumber ▸ Nat.lt_irrefl _)
  · intro app' job hran
    rcases List.mem_append.1 hran with hran | hran
    · exact .inl hran
    · cases List.mem_singleton.1 hran
      exact .inr ⟨h.nextJob, by rw [hnext]; exact Nat.lt_succ_self _, by rw [hread, hid]⟩
  · rw [hid, standingOn_append_ran, if_pos hhost, List.map_append, ← hr.jobs h hget, hh']
    change (h.jobs ++ [_]).map (shown h.id) = _
    rw [List.map_append]
    exact congrArg (_ ++ [·]) (Prod.ext htag rfl)
  · intro k hk
    rw [standingOn_append_ran, if_neg]
    rwa [hhost, ← hid]

theorem killed (hr : Recorded c hist) {job : String} (hread : JobId.parse? text = some ⟨h.id, job⟩)
    (hget : c.hosts.get? h.id = some h) (hhosts : c.OnlyHost (h.stopJob job).2 c') :
    Recorded c' (hist ++ [.killed text]) := by
  refine hr.of_onlyHost hhosts (hr.plain h hget) ?_ ?_ ?_ ?_ ?_
  · intro h₁ hget₁
    cases hget.symm.trans hget₁
    exact Nat.le_refl _
  · rw [List.filterMap_append]
    exact (List.append_nil _).symm ▸ hr.distinct
  · intro app' job' hran
    rcases List.mem_append.1 hran with hran | hran
    · exact .inl hran
    · cases List.mem_singleton.1 hran
  · have htext : text = JobId.render ⟨h.id, job⟩ := (JobId.parse?_eq_some_iff.1 hread).2
    have hnamed (active : ActiveJob) :
        (active.job.id != job) = ((shown h.id active).2.id != text) := by
      rw [Bool.eq_iff_iff, bne_iff_ne, bne_iff_ne, htext]
      refine not_congr ⟨fun he => by rw [← he]; rfl, fun he => ?_⟩
      have hsame : (⟨h.id, active.job.id⟩ : JobId) = ⟨h.id, job⟩ := JobId.render_inj_of_host rfl he
      exact congrArg (·.job) hsame
    calc (h.jobs.filter (·.job.id != job)).map (shown h.id)
        = (h.jobs.map (shown h.id)).filter (·.2.id != text) := by
          rw [List.filter_map]
          exact congrArg _ (List.filter_congr fun active _ => hnamed active)
      _ = ((standingOn h.id hist).map fun p => (some p.1, p.2)).filter (·.2.id != text) := by
        rw [hr.jobs h hget]
      _ = ((standingOn h.id hist).filter (·.2.id != text)).map fun p =>
        (some p.1, p.2) := List.filter_map ..
      _ = (standingOn h.id (hist ++ [.killed text])).map fun p =>
        (some p.1, p.2) := by rw [standingOn_append_killed]
  · intro k hk
    rw [standingOn_append_killed, List.filter_eq_self]
    intro p hp
    rw [bne_iff_ne]
    rintro rfl
    have hhost : p.2.host = k := by simpa using (List.mem_filter.1 hp).2
    rw [Job.host, hread] at hhost
    exact hk hhost

end Recorded

section Run
variable {c c' : MemoryCluster} {hist : List Outcome} {host? : Option String} {o? : Option Outcome}

theorem Effect.recorded (hr : Recorded c hist) (heffect : Effect c host? c' o?)
    (hnew : ∀ host, host? = some host → c.hosts.get? host = none ∧ host ≠ "" ∧ '-' ∉ host.toList) :
    Recorded c' (hist ++ o?.toList) := by
  cases heffect with
  | idle hsame =>
    rw [Option.toList_none, List.append_nil]
    exact hr.of_same hsame
  | added hjobs hhosts =>
    rw [Option.toList_none, List.append_nil]
    obtain ⟨hnone, hplain⟩ := hnew _ rfl
    exact hr.added hnone hplain hjobs hhosts
  | barred hget hh' hhosts =>
    rw [Option.toList_none, List.append_nil]
    exact hr.barred hget hh' hhosts
  | ran htag hget hh' hhosts => exact hr.ran htag hget hh' hhosts
  | killed hread hget hhosts => exact hr.killed hread hget hhosts

theorem Recorded.performAll (hr : Recorded c hist) (calls : List Call) (hcalls : Admitted calls)
    (hnew : ∀ host ∈ calls.filterMap Call.host?, c.hosts.get? host = none) :
    Recorded (c.performAll calls) (hist ++ history c calls) := by
  induction calls generalizing c hist with
  | nil => rw [history, List.append_nil]; exact hr
  | cons call calls ih =>
    have heffect := perform_effect hr.keyed call
    have hr' : Recorded (c.perform call).1 (hist ++ (c.perform call).2.toList) := by
      refine heffect.recorded hr fun host hhost => ?_
      have hmem : host ∈ (call :: calls).filterMap Call.host? :=
        List.mem_filterMap.2 ⟨call, List.mem_cons_self, hhost⟩
      exact ⟨hnew host hmem, hcalls.plain host hmem⟩
    change Recorded ((c.perform call).1.performAll calls) _
    rw [history, ← List.append_assoc]
    obtain ⟨hrest, honce⟩ := hcalls.cons
    refine ih hr' hrest fun host hmem => heffect.get?_eq_none (hnew host ?_) fun hhost =>
      honce host hhost hmem
    rw [List.filterMap_cons]
    split
    · exact hmem
    · exact List.mem_cons_of_mem _ hmem

end Run

end MemoryCluster
end ControlPlane
