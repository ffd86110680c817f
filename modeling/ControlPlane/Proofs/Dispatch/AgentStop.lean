import ControlPlane.Proofs.Cluster.AgentAddress
import ControlPlane.Proofs.Dispatch.Address

/-! # Which job is stopped by way of an agent

The same request to stop a job goes to a host in memory by itself, and to an agent by the target
of a request. Where agents stop jobs as hosts in memory do, the two stop the same job if the
job's identifier can stand in a path as it is. If it cannot, then the agent stops none, or the
job that the target is read as.
-/
namespace ControlPlane
open Dispatch Http

namespace MemoryCluster
variable {now : Instant} {c : MemoryCluster} {host job : String}

/-- Asks a host of the cluster to stop a job. -/
def stopOn (now : Instant) (host job : String) : ClusterAct MemoryCluster Unit := do
  let client ← (cluster now).dial host
  client.stopJob job

/-- A job runs on a host of the cluster. -/
def Runs (c : MemoryCluster) (host : String) (active : ActiveJob) : Prop :=
  ∃ h, c.hosts.get? host = some h ∧ active ∈ h.jobs

/-- A stop ends the jobs of that identifier on that host, and no others. -/
theorem runs_stopOn (now : Instant) (hc : c.Keyed) {k : String} {active : ActiveJob} :
    (stopOn now host job c).2.Runs k active ↔
      c.Runs k active ∧ ¬ (k = host ∧ active.job.id = job) := by
  cases hget : c.hosts.get? host with
  | none =>
    have hstop : stopOn now host job c = (.error (.hostNotFound host), c) :=
      bind_of_error (dial_of_none now hget)
    rw [hstop]
    refine ⟨fun hruns => ⟨hruns, ?_⟩, And.left⟩
    rintro ⟨rfl, -⟩
    obtain ⟨h, hh, -⟩ := hruns
    rw [hget] at hh
    cases hh
  | some h =>
    have hid : h.id = host := hc _ h hget
    subst hid
    have hstop : stopOn now h.id job c = (client now h).stopJob job c :=
      bind_of_ok (dial_of_get? now hget)
    have hhosts : c.OnlyHost (h.stopJob job).2 (stopOn now h.id job c).2 := by
      intro k
      rw [hstop, stopJob_client now hget]
      split <;> exact onlyHost_putHost c (h.stopJob job).2 k
    by_cases hk : k = h.id
    · subst hk
      have hleft : (stopOn now h.id job c).2.hosts.get? h.id = some (h.stopJob job).2 :=
        hhosts.get?_self
      simp [Runs, hleft, hget, MemoryHost.stopJob]
    · have hleft : (stopOn now h.id job c).2.hosts.get? k = c.hosts.get? k :=
        hhosts.get?_of_ne (Ne.symm hk)
      simp [Runs, hleft, hk]

/-- A stop by way of the dispatcher leaves the cluster as the stop on the host does. -/
theorem snd_kill {s : Store} {app text : String} {id : JobId} (happ : ∃ a, s.getApp? app = some a)
    (hread : JobId.parse? text = some id) (now : Instant) (c : MemoryCluster) :
    (kill s (cluster now) app text c).2 = (stopOn now id.host id.job c).2 := by
  rw [kill_of_parse? happ hread]
  cases hget : c.hosts.get? id.host with
  | none =>
    have hdial := dial_of_none now hget
    have hask : ask ((cluster now).dial id.host) c = (.error (.hostNotFound id.host), c) :=
      adapt_of_error _ hdial
    rw [bind_of_error hask, stopOn, bind_of_error hdial]
  | some h =>
    have hdial := dial_of_get? now hget
    have hask : ask ((cluster now).dial id.host) c = (.ok (client now h), c) := adapt_of_ok _ hdial
    rw [bind_of_ok hask, stopOn, bind_of_ok hdial]
    rfl

end MemoryCluster

namespace Agents
open MemoryCluster
variable {agents : Agents MemoryCluster} {now : Instant} {hosts : List HostConfig}
  {host address job : String}

/-- What an agent answers that stops jobs as the host in memory does: success, or that
the host is not there. -/
def stopAnswer (now : Instant) (host job : String) :
    ExceptT String (StateM MemoryCluster) (Reply MemoryCluster) := fun c =>
  (.ok { status := if (stopOn now host job c).1.isOk then 200 else 404 }, (stopOn now host job c).2)

/-- The agents at the configured addresses stop jobs as the hosts in memory do. -/
def StopAsHosts (agents : Agents MemoryCluster) (now : Instant) (hosts : List HostConfig) : Prop :=
  ∀ host agent, (Agent.ofConfig agents.network hosts).get? host = some agent → ∀ job request,
    agents.answer agent.address (.job .stop job) request = stopAnswer now host job

/-- What is made of the reply to a stop leaves the world as it is. -/
theorem snd_finish_stop {σ : Type} (a : Agent σ) (reply : Reply σ) (w : AgentWorld σ) :
    ((JobCall.stop job).finish a reply w).2 = w := by
  by_cases hstatus : 200 ≤ reply.status ∧ reply.status < 300
  · rw [JobCall.finish, Agent.check, if_pos hstatus]
    rfl
  · obtain ⟨e, he⟩ := Agent.check_of_failure a.host a.address "DELETE" (.job job) hstatus
    rw [JobCall.finish, he a.network]
    rfl

/-- A stop of one job that is read as that of another does what a host in
memory does for the other. -/
theorem snd_perform_stop {asked : String}
    (hstops : ∀ request, agents.answer address (.job .stop job) request =
      stopAnswer now host job) (hread : agents.read? address (.stop asked) = some (.job .stop job))
    (w : AgentWorld MemoryCluster) :
    ((JobCall.stop asked).perform (agents.agent host address) w).2 =
      { w with network := (stopOn now host job w.network).2 } := by
  obtain ⟨p, -, -, hperform⟩ := perform_of_read host hread
  have hhandle :
      agents.handle host address (.job .stop job) ((JobCall.stop asked).request address p) w =
      (.ok { status := if (stopOn now host job w.network).1.isOk then 200 else 404 },
        { w with network := (stopOn now host job w.network).2 }) := by
    rw [handle, hstops]
    rfl
  rw [hperform, bind_of_ok hhandle, snd_finish_stop]

section Kill
variable {s : Store} {app text : String} {id : JobId} {agent : Agent MemoryCluster}

/-- A stop over agents is the call to the agent of the host that the text is read as. -/
theorem snd_kill_cluster (happ : ∃ a, s.getApp? app = some a) (hread : JobId.parse? text = some id)
    (hagent : (Agent.ofConfig agents.network hosts).get? id.host = some agent)
    (w : AgentWorld MemoryCluster) :
    (kill s (Agent.cluster agents.network hosts) app text w).2 =
      ((JobCall.stop id.job).perform (agents.agent id.host agent.address) w).2 := by
  have hdial :
      ask ((Agent.cluster agents.network hosts).dial id.host) w = (.ok agent.client, w) := by
    refine adapt_of_ok _ ?_
    simp only [Agent.cluster, hagent]
    rfl
  have heq : agent = agents.agent id.host agent.address := Agent.eq_of_get? hagent
  rw [kill_of_parse? happ hread, bind_of_ok hdial, ← heq]
  rfl

theorem read?_stop {asked : String} {routed : AgentCall}
    (h : agents.read? address (.stop asked) = some routed) :
    ∃ job, routed = .job .stop job := by
  rw [read?] at h
  split at h
  · obtain ⟨p, -, hread⟩ := Option.bind_eq_some_iff.1 h
    exact AgentCall.ofSegments?_delete hread
  · cases h

/-- The jobs that run after a stop over agents: all that ran, but for those that the target
of the stop is read as. -/
theorem runs_kill_iff (hstops : agents.StopAsHosts now hosts) (happ : ∃ a, s.getApp? app = some a)
    (hread : JobId.parse? text = some id)
    (hagent : (Agent.ofConfig agents.network hosts).get? id.host = some agent)
    {w : AgentWorld MemoryCluster} (hw : w.network.Keyed) {k : String} {active : ActiveJob} :
    (kill s (Agent.cluster agents.network hosts) app text w).2.network.Runs k active ↔
      w.network.Runs k active ∧
      ¬ (k = id.host ∧
        agents.read? agent.address (.stop id.job) = some (.job .stop active.job.id)) := by
  rw [snd_kill_cluster happ hread hagent]
  cases hrouted : agents.read? agent.address (.stop id.job) with
  | none =>
    obtain ⟨e, he⟩ := perform_of_unread id.host hrouted
    have hfail : (JobCall.stop id.job).perform (agents.agent id.host agent.address) w =
        (.error e, w) := he agents.answer w
    simp [hfail]
  | some routed =>
    obtain ⟨job, rfl⟩ := read?_stop hrouted
    rw [snd_perform_stop (hstops _ _ hagent job) hrouted, runs_stopOn now hw]
    simp [eq_comm]

/-- A stop that is read as itself leaves the hosts as it does where it goes to them directly. -/
theorem network_kill_of_read (hstops : agents.StopAsHosts now hosts)
    (happ : ∃ a, s.getApp? app = some a) (hread : JobId.parse? text = some id)
    (hagent : (Agent.ofConfig agents.network hosts).get? id.host = some agent)
    (hown : agents.read? agent.address (.stop id.job) = some (.job .stop id.job))
    (w : AgentWorld MemoryCluster) :
    (kill s (Agent.cluster agents.network hosts) app text w).2.network =
      (kill s (MemoryCluster.cluster now) app text w.network).2 := by
  rw [snd_kill_cluster happ hread hagent, snd_perform_stop (hstops _ _ hagent id.job) hown,
    snd_kill happ hread]

/-- A stop over agents stops no job but those that it stops where it goes to the hosts directly, if
and only if the job's identifier is not read as that of another job. -/
theorem spares_others_iff (hstops : agents.StopAsHosts now hosts)
    (happ : ∃ a, s.getApp? app = some a) (hread : JobId.parse? text = some id)
    (hagent : (Agent.ofConfig agents.network hosts).get? id.host = some agent) :
    (∀ (w : AgentWorld MemoryCluster) k active, w.network.Keyed →
      (kill s (MemoryCluster.cluster now) app text w.network).2.Runs k active →
        (kill s (Agent.cluster agents.network hosts) app text w).2.network.Runs k active) ↔
      ∀ job, agents.read? agent.address (.stop id.job) = some (.job .stop job) → job = id.job := by
  constructor
  · intro hspares job hrouted
    by_contra hne
    -- The host runs the job that the identifier is read as.
    let active : ActiveJob := ⟨{ id := job }, .running, none⟩
    let c := ({} : MemoryCluster).putHost { id := id.host, incarnation := 0, jobs := [active] }
    have hc : c.Keyed := keyed_empty.putHost _
    have hruns : c.Runs id.host active := ⟨_, get?_putHost_self _ _, List.mem_singleton_self active⟩
    have hafter : (kill s (MemoryCluster.cluster now) app text c).2.Runs id.host active := by
      rw [snd_kill happ hread, runs_stopOn now hc]
      exact ⟨hruns, fun h => hne h.2⟩
    obtain ⟨-, hnot⟩ :=
      (runs_kill_iff hstops happ hread hagent hc).1
        (hspares { network := c } id.host active hc hafter)
    exact hnot ⟨rfl, hrouted⟩
  · intro hsame w k active hw hafter
    rw [snd_kill happ hread, runs_stopOn now hw] at hafter
    rw [runs_kill_iff hstops happ hread hagent hw]
    exact ⟨hafter.1, fun h => hafter.2 ⟨h.1, hsame _ h.2⟩⟩

end Kill

/-- A call about a job does what the agent does for the call that it reads off the target, and makes
what it can of the reply; or it is not read, and fails whatever the agents would do for others. An
identifier is read as itself if and only if it can stand in a path as it is and is not empty. Where
agents stop jobs as hosts in memory do, a stop that is read as itself leaves the hosts as it does
where it goes to them directly, and the jobs that end are those of the host that the target is read
as. So none ends but those that end where the stop goes to the hosts directly, if and only if the
identifier is not read as that of another job. -/
theorem acts_on_job_it_reads {σ : Type} (agents : Agents σ) (host address : String) :
    (∀ call routed, agents.read? address call = some routed →
      ∃ p, Uri.pathAndQuery? call.endpoint.target.toList = some p ∧
        AgentCall.ofRequest? (call.request address p) = some routed ∧
        call.perform (agents.agent host address) = (do
          call.finish (agents.agent host address)
            (← agents.handle host address routed (call.request address p)))) ∧
    (∀ call, agents.read? address call = none →
      ∃ e, ∀ answer w, call.perform (agent { agents with answer } host address) w = (.error e, w)) ∧
    (∀ call : JobCall, AgentCall.ofTarget? call.verb.method call.endpoint.target = some call.own ↔
      Plain call.job ∧ call.job ≠ "") ∧
    ∀ (agents : Agents MemoryCluster) now hosts, agents.StopAsHosts now hosts →
      ∀ (s : Store) app text id agent, (∃ a, s.getApp? app = some a) → JobId.parse? text = some id →
      (Agent.ofConfig agents.network hosts).get? id.host = some agent →
        (agents.read? agent.address (.stop id.job) = some (.job .stop id.job) → ∀ w,
          (kill s (Agent.cluster agents.network hosts) app text w).2.network =
            (kill s (MemoryCluster.cluster now) app text w.network).2) ∧
        (∀ (w : AgentWorld MemoryCluster) k active, w.network.Keyed →
          ((kill s (Agent.cluster agents.network hosts) app text w).2.network.Runs k active ↔
            w.network.Runs k active ∧
              ¬ (k = id.host ∧
                agents.read? agent.address (.stop id.job) = some (.job .stop active.job.id)))) ∧
        ((∀ (w : AgentWorld MemoryCluster) k active, w.network.Keyed →
          (kill s (MemoryCluster.cluster now) app text w.network).2.Runs k active →
            (kill s (Agent.cluster agents.network hosts) app text w).2.network.Runs k active) ↔
          ∀ job, agents.read? agent.address (.stop id.job) = some (.job .stop job) →
            job = id.job) := by
  refine ⟨fun _ _ => perform_of_read host, fun _ => perform_of_unread host,
    fun _ => JobCall.ofTarget?_eq_own_iff, ?_⟩
  intro agents now hosts hstops s app text id agent happ hread hagent
  exact ⟨network_kill_of_read hstops happ hread hagent,
    fun _ _ _ hw => runs_kill_iff hstops happ hread hagent hw,
    spares_others_iff hstops happ hread hagent⟩

/-- One agent that knows stops and nothing else. -/
def sampleAgents : Agents MemoryCluster where
  isUp address := address == "10.0.0.5:1113"
  isAuthority address h := by
    obtain rfl := eq_of_beq h
    exact ⟨by decide, by simp [Uri.endsAuthority], _, rfl, rfl⟩
  answer _ call _ := match call with
    | .job .stop job => stopAnswer .epoch "host0" job
    | _ => return { status := 501 }
  refusal _ := { status := 404 }
  isRefusal _ := by decide

def sampleConfig : List HostConfig := [⟨"host0", "10.0.0.5:1113"⟩]

/-- A host that runs one job. -/
def sampleHosts : MemoryCluster :=
  ({} : MemoryCluster).putHost
    { id := "host0", incarnation := 0, jobs := [⟨{ id := "job0" }, .running, none⟩] }

theorem stopAsHosts_sample : sampleAgents.StopAsHosts .epoch sampleConfig := by
  intro host agent hagent job request
  obtain ⟨config, hconfig, heq⟩ := List.mem_map.1 (Dict.mem_of_get?_ofList hagent)
  obtain rfl := List.mem_singleton.1 hconfig
  cases heq
  rfl

/-- The identifier "job0" is read as itself, and "job0?x" is read as "job0". -/
theorem acts_on_job_it_reads_of_query :
    Plain "job0" ∧
      (∀ w, (kill sampleStore (Agent.cluster sampleAgents.network sampleConfig)
          "web" "host0-job0" w).2.network =
        (kill sampleStore (MemoryCluster.cluster .epoch) "web" "host0-job0" w.network).2) ∧
      ¬ ∀ (w : AgentWorld MemoryCluster) k active, w.network.Keyed →
        (kill sampleStore (MemoryCluster.cluster .epoch)
            "web" "host0-job0?x" w.network).2.Runs k active →
          (kill sampleStore (Agent.cluster sampleAgents.network sampleConfig)
            "web" "host0-job0?x" w).2.network.Runs k active := by
  obtain ⟨-, -, hown, hkill⟩ := acts_on_job_it_reads sampleAgents "host0" "10.0.0.5:1113"
  have happ : ∃ a, sampleStore.getApp? "web" = some a :=
    Option.isSome_iff_exists.1 (by decide +kernel)
  have hagent : (Agent.ofConfig sampleAgents.network sampleConfig).get? "host0" =
      some (sampleAgents.agent "host0" "10.0.0.5:1113") := rfl
  have hplain := hkill sampleAgents .epoch sampleConfig stopAsHosts_sample sampleStore "web"
    "host0-job0" ⟨"host0", "job0"⟩ _ happ (by decide +kernel) hagent
  have hquery := hkill sampleAgents .epoch sampleConfig stopAsHosts_sample sampleStore "web"
    "host0-job0?x" ⟨"host0", "job0?x"⟩ _ happ (by decide +kernel) hagent
  refine ⟨((hown (.stop "job0")).1 (by decide +kernel)).1, hplain.1 (by decide +kernel),
    fun hspares => ?_⟩
  exact absurd (hquery.2.2.1 hspares "job0" (by decide +kernel)) (by decide)

/-- What runs on the host. -/
def sampleJobs (c : MemoryCluster) : List String :=
  (c.hosts.get? "host0").elim [] fun h => h.jobs.map (·.job.id)

/-- The job "job0" is stopped by calls for "job0?x", which names no job. -/
theorem stops_another_job :
    let world : AgentWorld MemoryCluster := { network := sampleHosts }
    let stop : Except ClusterError Unit × AgentWorld MemoryCluster :=
      (sampleAgents.agent "host0" "10.0.0.5:1113").client.stopJob "job0?x" world
    let overAgents :=
      kill sampleStore (Agent.cluster sampleAgents.network sampleConfig) "web" "host0-job0?x" world
    let direct := kill sampleStore (MemoryCluster.cluster .epoch) "web" "host0-job0?x" sampleHosts
    sampleJobs sampleHosts = ["job0"] ∧ stop.1 = .ok () ∧ sampleJobs stop.2.network = [] ∧
      sampleJobs overAgents.2.network = [] ∧ sampleJobs direct.2 = ["job0"] := by
  decide +kernel

end Agents
end ControlPlane
