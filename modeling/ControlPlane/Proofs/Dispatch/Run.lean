import ControlPlane.Cluster.Agent
import ControlPlane.Dispatch
import ControlPlane.Proofs.Cluster.Booked
import ControlPlane.Proofs.Store.Write

/-! # What a run leaves behind

A run has two parts: up to the point where a host accepts its job, and the attach after it. What
fails in the first part leaves no job. What fails in the second leaves the job running: nothing
stops it, and nobody is told its identifier.
-/
namespace ControlPlane
namespace Dispatch
variable {σ : Type} {s : Store} {cluster : Cluster σ} {app : String} {job : NewJob} {attach : Bool}

/-- A job that a host has accepted, under the host's identifier for it. -/
structure Placed (σ : Type) where
  host : HostClient σ
  id : String
  job : Job

namespace Placed

def jobId (p : Placed σ) : JobId := ⟨p.host.host, p.id⟩

def booked (p : Placed σ) : Placed (Booked σ) := { p with host := Booked.client p.host }

end Placed

/-- A run up to the point where a host accepts its job. -/
def place (s : Store) (cluster : Cluster σ) (app : String) (job : NewJob) (attach : Bool) :
    DispatchAct σ (Placed σ) := do
  let app ← resolveApp s app
  let hostJob ← prepare s app job attach
  let hosts ← ask cluster.listHosts
  match Placement.choose hosts with
  | none => throw .noEligibleHost
  | some chosen =>
    let host ← ask (cluster.dial chosen.id)
    (fun id => ⟨host, id, Job.ofHostJob chosen.id { hostJob with id }⟩) <$> ask
      (host.addJob hostJob)

/-- What a run does once its job is accepted. -/
def finish (job : NewJob) (attach : Bool) (p : Placed σ) :
    DispatchAct σ (Job × Option (AttachSession σ)) :=
  if attach then
    (fun session => (p.job, some session)) <$>
      (AttachSession.connect p.host (runRequest p.id job) true).adapt DispatchError.ofAttach
  else return (p.job, none)

theorem run_eq_place (s : Store) (cluster : Cluster σ) (app : String) (job : NewJob)
    (attach : Bool) :
    run s cluster app job attach = place s cluster app job attach >>= finish job attach := by
  rw [run, place]
  simp only [bind_assoc]
  refine bind_congr fun app => bind_congr fun hostJob => bind_congr fun hosts => ?_
  cases Placement.choose hosts with
  | none => rfl
  | some chosen =>
    simp only [bind_assoc, bind_map_left, finish]
    refine bind_congr fun host => bind_congr fun id => ?_
    split
    · rw [map_eq_pure_bind]
    · rfl

/-! ## A run on a booked cluster -/

theorem place_follows (s : Store) (cluster : Cluster σ) (app : String) (job : NewJob)
    (attach : Bool) :
    Booked.Follows (place s cluster app job attach)
      (place s (Booked.cluster cluster) app job attach) Placed.booked
        fun p running => running ++ [p.jobId] := by
  refine .bind (.liftM _) fun app => .bind (.liftM _) fun hostJob =>
    .bind ((Booked.listHosts_follows cluster).adapt _) fun hosts => ?_
  simp only [id]
  cases Placement.choose hosts with
  | none => exact .throw _ _ _
  | some chosen =>
    refine .bind ((Booked.dial_follows cluster chosen.id).adapt _) fun host => ?_
    exact ((Booked.addJob_follows host hostJob).adapt _).map (fun _ => rfl) fun _ => rfl

theorem connect_follows (host : HostClient σ) (request : AttachRequest) (wait : Bool) :
    Booked.Follows (AttachSession.connect host request wait)
      (AttachSession.connect (Booked.client host) request wait)
        (fun session => { session with host := Booked.client session.host }) Booked.unchanged := by
  refine .bind (.liftM _) fun _ =>
    .bind ((Booked.attach_follows host request wait).adapt _) fun handle => ?_
  exact .pure _ _

theorem finish_follows (job : NewJob) (attach : Bool) (p : Placed σ) :
    Booked.Follows (finish job attach p) (finish job attach p.booked)
      (fun out =>
        (out.1, out.2.map fun session => { session with host := Booked.client session.host }))
      Booked.unchanged := by
  cases attach with
  | false => exact .pure _ _
  | true =>
    refine .map ((connect_follows p.host (runRequest p.id job) true).adapt _)
      (fun _ => rfl) fun _ => rfl

/-- Whatever the hosts answer, a run that fails leaves no job if it fails before a host has accepted
one, so in particular if it is a detached run. An attached run whose attach fails leaves just the
job that the host accepted. -/
theorem run_error_leaves {w w' : σ} {e : DispatchError}
    (h : run s cluster app job attach w = (.error e, w')) :
    ∃ running, run s (Booked.cluster cluster) app job attach ⟨w, []⟩ = (.error e, ⟨w', running⟩) ∧
      ((running = [] ∧ place s cluster app job attach w = (.error e, w')) ∨
        attach = true ∧ ∃ p w₁ err, place s cluster app job attach w = (.ok p, w₁) ∧
          AttachSession.connect p.host (runRequest p.id job) true w₁ = (.error err, w') ∧
          e = .ofAttach err ∧
          running = [p.jobId]) := by
  have hplace := place_follows s cluster app job attach w []
  rw [run_eq_place] at h ⊢
  rcases hp : place s cluster app job attach w with ⟨e' | p, w₁⟩ <;> rw [hp] at hplace
  · rw [bind_of_error hp] at h
    cases h
    exact ⟨[], bind_of_error hplace, .inl ⟨rfl, rfl⟩⟩
  -- The job is in the book from here on, and nothing that follows strikes it out.
  rw [bind_of_ok hp] at h
  have hfinish := finish_follows job attach p w₁ [p.jobId]
  rw [h] at hfinish
  refine ⟨[p.jobId], (bind_of_ok hplace).trans hfinish, .inr ?_⟩
  cases attach with
  | false => cases h
  | true =>
    refine ⟨rfl, p, w₁, ?_⟩
    rcases hc : AttachSession.connect p.host (runRequest p.id job) true w₁ with ⟨err | session, w₂⟩
    · have hfail := adapt_of_error DispatchError.ofAttach hc
      rw [finish, if_pos rfl, map_eq_pure_bind, bind_of_error hfail] at h
      cases h
      exact ⟨err, rfl, rfl, rfl, rfl⟩
    · have hok := adapt_of_ok DispatchError.ofAttach hc
      rw [finish, if_pos rfl, map_eq_pure_bind, bind_of_ok hok] at h
      cases h

/-! ## An agent that accepts jobs and grants no attach -/

/-- An app with a release and its artifact. -/
def sampleStore : Store :=
  let m : Moment := ⟨.epoch, ""⟩
  Store.performAll {} [
    (m, .createArtifact { id := "image", kind := "docker", uri := "registry/web" }),
    (m, .createRelease { id := "release", artifact := "image" }),
    (m, .createApp { id := "0123456789abcdef0123456789abcdef", name := "web" })]

/-- It keeps what it was asked for. -/
def deafAgent : Http.Network (List (String × String)) where
  exchange _ request := fun asked =>
    let reply : Http.Reply (List (String × String)) :=
      if request.method = "GET" then { status := 200, body := ActiveJob.codec.list.encode [] }
      else if request.path = "/host/jobs"
        then { status := 200, body := submission.codec.encode "job0" }
      else { status := 500 }
    (.ok reply, asked ++ [(request.method, request.path)])

def deafCluster : Cluster (AgentWorld (List (String × String))) :=
  Agent.cluster deafAgent [⟨"host0", "10.0.0.5:1113"⟩]

def sampleJob : NewJob := { release := "release", cmd := ["serve"] }

theorem run_error_leaves_of_deaf :
    ∃ e w' id, run sampleStore deafCluster "web" sampleJob true { network := [] } = (.error e, w') ∧
      run sampleStore (Booked.cluster deafCluster) "web" sampleJob true ⟨{ network := [] }, []⟩ =
        (.error e, ⟨w', [id]⟩) := by
  have hfail : (run sampleStore deafCluster "web" sampleJob true { network := [] }).1.isOk =
      false := by decide +kernel
  have hplaced :
      (place sampleStore deafCluster "web" sampleJob true { network := [] }).1.isOk = true := by
    decide +kernel
  rcases h : run sampleStore deafCluster "web" sampleJob true { network := [] } with ⟨e | out, w'⟩
  · obtain ⟨running, hbooked, ⟨-, hplace⟩ | ⟨-, p, -, -, -, -, -, rfl⟩⟩ := run_error_leaves h
    · rw [hplace] at hplaced
      cases hplaced
    · exact ⟨e, w', p.jobId, rfl, hbooked⟩
  · rw [h] at hfail
    cases hfail

/-- The attach of an attached run fails, so the run fails. Its job goes on: the agent was
not asked to stop it. -/
theorem run_leaves_job :
    (run sampleStore (Booked.cluster deafCluster) "web" sampleJob true
      ⟨{ network := [] }, []⟩).1.isOk = false ∧
    (run sampleStore (Booked.cluster deafCluster) "web" sampleJob true
      ⟨{ network := [] }, []⟩).2.running =
      [⟨"host0", "job0"⟩] ∧
    (run sampleStore (Booked.cluster deafCluster) "web" sampleJob true
      ⟨{ network := [] }, []⟩).2.world.network =
      [("GET", "/host/jobs"), ("POST", "/host/jobs"), ("POST", "/host/jobs/job0/attach")] := by
  decide +kernel

end Dispatch
end ControlPlane
