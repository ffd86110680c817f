import ControlPlane.Attach.Request
import ControlPlane.Host

/-! # Clusters: what can be asked of hosts

A cluster lists its hosts and hands out a client for each. The clients act on a world of type `σ`,
which is the state of an in-memory cluster or of the network in between.
-/
namespace ControlPlane

inductive ClusterError
  | hostNotFound (host : String)
  | jobNotFound (job : String)
  | unexpectedStatus (method url : String) (status : Nat)
  | transport (host reason : String)
  | undecodable (reason : String)
  | rejected (reason : String)
  deriving DecidableEq, Repr

namespace ClusterError

def message : ClusterError → String
  | hostNotFound host => "host not found: " ++ host
  | jobNotFound job => "job not found: " ++ job
  | unexpectedStatus method url status =>
    "unexpected status " ++ toString status ++ " from " ++ method ++ " " ++ url
  | transport host reason => "transport error talking to " ++ host ++ ": " ++ reason
  | undecodable reason => "decode error: " ++ reason
  | rejected reason => "host rejected request: " ++ reason

def isNotFound : ClusterError → Bool
  | hostNotFound _ | jobNotFound _ => true
  | _ => false

end ClusterError

/-- What the far end of an attach does with the pipe: it writes and closes without reading,
or reads so many bytes (or all up to the end), writes, adds what it read and closes, or
reads on and never writes. -/
inductive Peer
  | writes (output : Bytes)
  | answers (count : Option Nat) (output : Bytes)
  | holds
  deriving DecidableEq, Repr, Inhabited

/-- What the far end writes when nothing is ever written to it, and whether it closes then. -/
def Peer.unprompted : Peer → Bytes × Bool
  | writes output | answers (some 0) output => (output, true)
  | _ => ([], false)

/-- What a host grants for an attach: a pipe to the job, and for some the
control of its terminal. -/
structure AttachHandle where
  peer : Peer
  hasControl : Bool
  deriving DecidableEq, Repr

abbrev ClusterAct (σ α : Type) := ExceptT ClusterError (StateM σ) α

/-- The events that have come since the last look; a gap shows as an error in their midst. -/
abbrev EventTap (σ : Type) := StateM σ (List (Except ClusterError HostEvent))

structure HostClient (σ : Type) where
  host : String
  listJobs : ClusterAct σ (List ActiveJob)
  getJob : (job : String) → ClusterAct σ ActiveJob
  /-- Answers the identifier that the host knows the job by. -/
  addJob : HostJob → ClusterAct σ String
  /-- Asks for the job to be stopped, and does not wait for its end. -/
  stopJob : (job : String) → ClusterAct σ Unit
  attach : AttachRequest → (wait : Bool) → ClusterAct σ AttachHandle
  resize : (job : String) → (width height : UInt16) → ClusterAct σ Unit
  /-- The events of one job or of all. -/
  events : (job : Option String) → ClusterAct σ (EventTap σ)

structure Cluster (σ : Type) where
  /-- The hosts that answer, with their jobs. -/
  listHosts : ClusterAct σ (List Host)
  /-- The client of a host of the cluster; nothing is sent yet. -/
  dial : (host : String) → ClusterAct σ (HostClient σ)

end ControlPlane
