import ControlPlane.Attach.Splice

/-! # Attach sessions

A session is a pipe to a job on a host. It is connected when the host has granted the
attach, streams while its pipe is spliced with a client or read as output, and is
closed or failed in the end.
-/
namespace ControlPlane

inductive AttachError
  | invalidRequest (reason : String)
  | cluster (error : ClusterError)
  | io (reason : String)
  | invalidState (reason : String)
  deriving DecidableEq, Repr

def AttachError.message : AttachError → String
  | invalidRequest reason => "invalid attach request: " ++ reason
  | cluster error => error.message
  | io reason => "io error: " ++ reason
  | invalidState reason => "invalid session state: " ++ reason

inductive SessionState
  | requested | connected | streaming | closed | failed
  deriving DecidableEq, Repr, Inhabited

namespace SessionState

def name : SessionState → String
  | requested => "Requested" | connected => "Connected" | streaming =>
    "Streaming" | closed => "Closed"
  | failed => "Failed"

def isLive : SessionState → Bool
  | connected | streaming => true
  | _ => false

end SessionState

/-- A job, at least one of the three streams, and no terminal size without an open stream. -/
def AttachRequest.check (request : AttachRequest) : Except AttachError Unit :=
  if request.job.isEmpty then .error (.invalidRequest "missing job id")
  else if request.flags.bits &&& (AttachFlags.stdout ||| .stderr ||| .stdin).bits == 0 then
    .error (.invalidRequest "at least one of stdin, stdout, stderr is required")
  else if !request.flags.contains .stream && (request.width != 0 || request.height != 0) then
    .error (.invalidRequest "terminal size requires an interactive stream")
  else .ok ()

structure AttachSession (σ : Type) where
  host : HostClient σ
  request : AttachRequest
  hasControl : Bool
  state : SessionState := .connected
  /-- The far end of the pipe, until it is handed over. -/
  peer : Option Peer

namespace AttachSession
variable {σ : Type}

def connect (host : HostClient σ) (request : AttachRequest) (wait : Bool) :
    ExceptT AttachError (StateM σ) (AttachSession σ) := do
  request.check
  let handle ← (host.attach request wait).adapt AttachError.cluster
  return { host, request, hasControl := handle.hasControl, peer := some handle.peer }

/-- Tells the host the size of the terminal, as long as the session lives. -/
def resize (session : AttachSession σ) (width height : UInt16) :
    ExceptT AttachError (StateM σ) Unit := do
  if !session.hasControl then throw (.invalidState "session has no terminal control")
  if !session.state.isLive
    then throw (.invalidState ("cannot resize a " ++ session.state.name ++ " session"))
  (session.host.resize session.request.job width height).adapt AttachError.cluster

def takePeer (session : AttachSession σ) : Except AttachError (Peer × AttachSession σ) :=
  match session.peer with
  | some peer => .ok (peer, { session with peer := none, state := .streaming })
  | none => .error (.invalidState "session already consumed")

/-- Hands the pipe over, to be read as the job's output. -/
def intoOutput (session : AttachSession σ) : Except AttachError (Peer × AttachSession σ) :=
  session.takePeer

/-- What became of a splice: its result, if it came to one, and the bytes that the client got. -/
structure Run where
  result : Option (Except AttachError AttachStats)
  received : Bytes

/-- How the failure of a splice is told. -/
def errorOf : Forward.Failure → AttachError
  | .io reason => .io reason
  | .lost reason => .invalidState ("output task failed: " ++ reason)

/-- The state in which a splice leaves its session. -/
def stateAfter : Option (Except Forward.Failure AttachStats) → SessionState
  | none => .streaming
  | some (.error _) => .failed
  | some (.ok _) => .closed

/-- A splice of the session's pipe, before anything has moved. -/
def splice (session : AttachSession σ) : Splice :=
  { carriesInput := session.request.flags.contains .stdin }

/-- A run and its session when its splice has come so far. -/
def runSoFar (session : AttachSession σ) (splice : Splice) : Run × AttachSession σ :=
  (⟨splice.result.map (·.mapError errorOf), splice.output.received⟩,
    { session with state := stateAfter splice.result })

/-- Splices the pipe with a client until the output ends. -/
def run (session : AttachSession σ) (client : Splice.Client) : Run × AttachSession σ :=
  match session.takePeer with
  | .error e => (⟨some (.error e), []⟩, session)
  | .ok (peer, session) => session.runSoFar (session.splice.run peer client)

/-- Lets go of the session; one whose pipe was handed over keeps its state. -/
def drop (session : AttachSession σ) : AttachSession σ :=
  if session.peer.isSome then { session with state := .closed, peer := none } else session

end AttachSession
end ControlPlane
