import ControlPlane.Attach.Session
import ControlPlane.Environment
import ControlPlane.Job
import ControlPlane.Placement
import ControlPlane.Store.Apps
import ControlPlane.Store.Releases

/-! # Dispatch: from requests for jobs to jobs on hosts

Nothing is remembered about hosts. Every request asks the cluster afresh, and reads apps, releases
and artifacts from the store.
-/
namespace ControlPlane

inductive DispatchError
  | appNotFound (app : String)
  | releaseNotFound (release : String)
  | artifactNotFound (artifact : String)
  | processTypeNotFound (release processType : String)
  | noEligibleHost
  | hostNotFound (host : String)
  | jobNotFound (job : String)
  | invalidJobId (id : String)
  | rejected (reason : String)
  | hostFailure (error : ClusterError)
  | attach (error : AttachError)
  | store (error : StoreError)
  deriving DecidableEq, Repr

namespace DispatchError

def message : DispatchError → String
  | appNotFound app => "app not found: " ++ app
  | releaseNotFound release => "release not found: " ++ release
  | artifactNotFound artifact => "artifact not found: " ++ artifact
  | processTypeNotFound release processType =>
    "process type " ++ processType ++ " not defined by release " ++ release
  | noEligibleHost => "no host available to run the job"
  | hostNotFound host => "host not found: " ++ host
  | jobNotFound job => "job not found: " ++ job
  | invalidJobId id => "invalid job id: " ++ id
  | rejected reason => "host rejected job: " ++ reason
  | hostFailure error => "upstream failure: " ++ error.message
  | attach error => "attach failed: " ++ error.message
  | store error => "state store error: " ++ error.message

def ofCluster : ClusterError → DispatchError
  | .hostNotFound host => hostNotFound host
  | .jobNotFound job => jobNotFound job
  | .rejected reason => rejected reason
  | error => hostFailure error

def ofAttach : AttachError → DispatchError
  | .cluster error => ofCluster error
  | error => attach error

end DispatchError

abbrev DispatchAct (σ α : Type) := ExceptT DispatchError (StateM σ) α

namespace Dispatch
variable {σ : Type}

def ask {α : Type} (act : ClusterAct σ α) : DispatchAct σ α := act.adapt DispatchError.ofCluster

def resolveApp (s : Store) (app : String) : Except DispatchError App :=
  match s.getApp? app with
  | some app => .ok app
  | none => .error (.appNotFound app)

/-- The command and the environment of the process type that a request names. A request without one
has its own command and no environment of a type. -/
def processOf (release : Release) (job : NewJob) : Except DispatchError ProcessType :=
  match job.processType with
  | none => .ok { cmd := job.cmd }
  | some name =>
    match release.processes.get? name with
    | none => .error (.processTypeNotFound release.id name)
    | some process => .ok { process with cmd := if job.cmd.isEmpty then process.cmd else job.cmd }

/-- The job for a host: what the request asks for, over what its release and process type say. -/
def prepare (s : Store) (app : App) (job : NewJob) (attach : Bool) : Except DispatchError HostJob :=
  match s.getRelease? job.release with
  | none => .error (.releaseNotFound job.release)
  | some release =>
    match s.getArtifact? release.artifact with
    | none => .error (.artifactNotFound release.artifact)
    | some artifact =>
      match processOf release job with
      | .error e => .error e
      | .ok process =>
        let env := Environment.pairs (Environment.merge [release.env, process.env, job.env])
        let attributes := Dict.ofList
          ([(HostJob.appAttribute, app.id), (HostJob.releaseAttribute, release.id)] ++
          (job.processType.map (HostJob.typeAttribute, ·)).toList)
        .ok { attributes, config := .forRun artifact.uri process.cmd env attach job.tty }

/-- The attach that an attached run opens: all streams, and the size of the terminal it asks for. -/
def runRequest (id : String) (job : NewJob) : AttachRequest where
  job := id
  flags := .stdout ||| .stderr ||| .stdin ||| .stream
  width := if job.tty then job.columns else 0
  height := if job.tty then job.lines else 0

/-- Places a job and submits it, and attaches to it if asked to. -/
def run (s : Store) (cluster : Cluster σ) (app : String) (job : NewJob) (attach : Bool) :
    DispatchAct σ (Job × Option (AttachSession σ)) := do
  let app ← resolveApp s app
  let hostJob ← prepare s app job attach
  let hosts ← ask cluster.listHosts
  match Placement.choose hosts with
  | none => throw .noEligibleHost
  | some chosen =>
    let host ← ask (cluster.dial chosen.id)
    let id ← ask (host.addJob hostJob)
    let placed := Job.ofHostJob chosen.id { hostJob with id }
    if attach then
      let session ← (AttachSession.connect host (runRequest id job) true).adapt
        DispatchError.ofAttach
      return (placed, some session)
    else return (placed, none)

/-- The jobs of a host that are tagged with an app. -/
def jobsOf (app : App) (host : Host) : List Job :=
  (host.jobs.filter fun job => job.attributes.get? HostJob.appAttribute == some app.id).map
    (Job.ofHostJob host.id)

/-- The jobs of an app on all hosts. -/
def listJobs (s : Store) (cluster : Cluster σ) (app : String) : DispatchAct σ (List Job) := do
  let app ← resolveApp s app
  let hosts ← ask cluster.listHosts
  return hosts.flatMap (jobsOf app)

def resolveJob (id : String) : Except DispatchError JobId :=
  match JobId.parse? id with
  | some id => .ok id
  | none => .error (.invalidJobId id)

/-- Asks the host of a job to stop it. -/
def kill (s : Store) (cluster : Cluster σ) (app job : String) : DispatchAct σ Unit := do
  let _ ← resolveApp s app
  let id ← resolveJob job
  let host ← ask (cluster.dial id.host)
  ask (host.stopJob id.job)

/-- A log is attached to for output only, past output included. With `follow` it
goes on with what comes. -/
def logRequest (id : String) (follow : Bool) : AttachRequest where
  job := id
  flags := if follow then .stdout ||| .stderr ||| .logs ||| .stream
    else .stdout ||| .stderr ||| .logs

def openLog (s : Store) (cluster : Cluster σ) (app job : String) (follow : Bool) :
    DispatchAct σ (AttachSession σ) := do
  let _ ← resolveApp s app
  let id ← resolveJob job
  let host ← ask (cluster.dial id.host)
  (AttachSession.connect host (logRequest id.job follow) false).adapt DispatchError.ofAttach

end Dispatch
end ControlPlane
