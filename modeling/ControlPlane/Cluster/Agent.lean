import ControlPlane.Config.Basic
import ControlPlane.Http.Network
import ControlPlane.Job
import ControlPlane.Text.Blank

/-! # Clusters of host agents

Each host runs an agent, which serves its jobs and its events over HTTP at a fixed address. A host
whose agent does not answer is left out of a listing.
-/
namespace ControlPlane
open Json Http

/-- What an agent can be asked for. -/
inductive AgentEndpoint
  | jobs
  | job (id : String)
  | attach (id : String) (wait : Bool)
  | resize (id : String)
  | events (job : Option String)
  deriving DecidableEq, Repr

namespace AgentEndpoint

def target : AgentEndpoint → String
  | jobs => "/host/jobs"
  | job id => "/host/jobs/" ++ id
  | attach id wait => "/host/jobs/" ++ id ++ "/attach?wait=" ++ (if wait then "true" else "false")
  | resize id => "/host/jobs/" ++ id ++ "/resize"
  | events none => "/host/events"
  | events (some id) => "/host/events?job_id=" ++ id

/-- The job that an endpoint is about. -/
def subject : AgentEndpoint → Option String
  | jobs => none
  | job id | attach id _ | resize id => some id
  | events id => id

end AgentEndpoint

/-- The answer to a submission. -/
def submission : Record String where
  fields := [.required "id" id .string]
  build := fun (id, ()) => id

structure TerminalSize where
  width : UInt16
  height : UInt16

def TerminalSize.codec : Codec TerminalSize := Record.codec {
  fields :=
    [.required "width" TerminalSize.width .uint16, .required "height" TerminalSize.height .uint16]
  build := fun (width, height, ()) => ⟨width, height⟩ }

namespace HostEvent

/-- Takes one line; blank ones are passed over, and one that is no text ends
the events of `host`. -/
def takeLine (host : String) (line rest : Bytes) :
    Step Unit (Except ClusterError HostEvent) ClusterError :=
  match Utf8.decode? line with
  | none => .fail (.transport host "stream did not contain valid UTF-8") () rest
  | some text =>
    if text.toList.all Text.isBlank then .pass () rest
    else match codec.decode line with
      | .ok event => .item (.ok event) () rest
      | .error _ => .item (.error (.undecodable "not a host event")) () rest

/-- Events are lines of JSON; one that cannot be read is an error in its place. -/
def lineDecoder (host : String) : Decoder Unit (Except ClusterError HostEvent) ClusterError where
  start := ()
  step atEnd _ buffer :=
    match Lines.take? atEnd buffer with
    | some (line, rest) => takeLine host line rest
    | none => .wait

end HostEvent

abbrev HostEvents (σ : Type) := Incoming σ Unit (Except ClusterError HostEvent) ClusterError

/-- The network, and the streams of events that have been opened over it. -/
structure AgentWorld (σ : Type) where
  network : σ
  streams : List (HostEvents σ) := []

structure Agent (σ : Type) where
  network : Network σ
  host : String
  address : String

namespace Agent
variable {σ : Type}

def mediaType : String := "application/json"
def protocol : String := "flotilla-attach"

def onNetwork {α : Type} (act : StateM σ α) : StateM (AgentWorld σ) α := fun w =>
  let (a, network) := act w.network
  (a, { w with network })

/-- Sends a request; one that has a body says that it is JSON. -/
def send (a : Agent σ) (method : String) (endpoint : AgentEndpoint)
    (headers : List (String × String)) (body : Option Bytes) :
    ClusterAct (AgentWorld σ) (Reply σ) :=
  let headers := ("user-agent", "flotilla-controller/0.1") ::
    (body.map fun _ => ("content-type", mediaType)).toList ++ headers
  let exchange : ClusterAct σ (Reply σ) :=
    (a.network.send a.address method endpoint.target headers (body.getD [])).adapt
      (.transport a.host)
  onNetwork exchange

/-- Lets the replies of success pass. -/
def check (a : Agent σ) (method : String) (endpoint : AgentEndpoint) (reply : Reply σ) :
    ClusterAct (AgentWorld σ) (Reply σ) :=
  if 200 ≤ reply.status ∧ reply.status < 300 then return reply
  else match reply.status, endpoint.subject with
    | 404, some job => throw (.jobNotFound (JobId.render ⟨a.host, job⟩))
    | 400, _ | 409, _ | 422, _ => throw (.rejected (Utf8.decodeLossy reply.body))
    | status, _ =>
      throw (.unexpectedStatus method ("http://" ++ a.address ++ endpoint.target) status)

def call (a : Agent σ) (method : String) (endpoint : AgentEndpoint) (body : Option Bytes) :
    ClusterAct (AgentWorld σ) (Reply σ) := do
  a.check method endpoint (← a.send method endpoint [] body)

def read {α : Type} (codec : Codec α) (reply : Reply σ) : ClusterAct (AgentWorld σ) α :=
  match codec.decode reply.body with
  | .ok a => return a
  | .error _ => throw (.undecodable "unexpected reply")

def attach (a : Agent σ) (request : AttachRequest) (wait : Bool) :
    ClusterAct (AgentWorld σ) AttachHandle := do
  let endpoint := AgentEndpoint.attach request.job wait
  let reply ← a.send "POST" endpoint [("connection", "upgrade"), ("upgrade", protocol)]
    (some (AttachRequest.codec.encode request))
  if reply.status = 101 then
    match reply.peer with
    | some peer => return ⟨peer, request.flags.contains .stdin⟩
    | none => throw (.transport a.host "connection was not upgraded")
  else
    let reply ← a.check "POST" endpoint reply
    throw (.unexpectedStatus "POST" ("http://" ++ a.address ++ endpoint.target) reply.status)

/-- Takes what has come on an open stream of events. -/
def listen (stream : Nat) : EventTap (AgentWorld σ) := fun w =>
  match w.streams[stream]? with
  | none => ([], w)
  | some events =>
    let ((items, _, events), network) := events.take w.network
    (items.map (·.bind id), { network, streams := w.streams.set stream events })

def openEvents (a : Agent σ) (job : Option String) :
    ClusterAct (AgentWorld σ) (EventTap (AgentWorld σ)) := do
  let reply ← a.call "GET" (.events job) none
  let stream := (← get).streams.length
  modify fun w =>
    { w with streams := w.streams ++ [Incoming.ofReply (HostEvent.lineDecoder a.host) reply] }
  return listen stream

def client (a : Agent σ) : HostClient (AgentWorld σ) where
  host := a.host
  listJobs := do read ActiveJob.codec.list (← a.call "GET" .jobs none)
  getJob job := do read ActiveJob.codec (← a.call "GET" (.job job) none)
  addJob job := do read submission.codec (← a.call "POST" .jobs (some (HostJob.codec.encode job)))
  stopJob job := do let _ ← a.call "DELETE" (.job job) none
  attach := a.attach
  resize job width height := do
    let _ ← a.call "POST" (.resize job) (some (TerminalSize.codec.encode ⟨width, height⟩))
  events := a.openEvents

/-- The host with its jobs, if its agent answers. -/
def probe (a : Agent σ) : ClusterAct (AgentWorld σ) (Option Host) := do
  try return some ⟨a.host, (← a.client.listJobs).map (·.job)⟩
  catch _ => return none

/-- The agents by their hosts; of two addresses for one host the later counts. -/
def ofConfig (network : Network σ) (hosts : List HostConfig) : Dict (Agent σ) :=
  Dict.ofList (hosts.map fun h => (h.id, ⟨network, h.id, h.address⟩))

def cluster (network : Network σ) (hosts : List HostConfig) : Cluster (AgentWorld σ) where
  listHosts := do return (← (ofConfig network hosts).values.mapM probe).filterMap id
  dial host :=
    match (ofConfig network hosts).get? host with
    | some agent => return agent.client
    | none => throw (.hostNotFound host)

end Agent
end ControlPlane
