import ControlPlane.Api.Handler
import ControlPlane.Http.Network

/-! # A served controller as the far end of a network -/
namespace ControlPlane.Api
open Http
variable {σ : Type}

/-- Takes what comes of a body whose rest is always the same. -/
def tapBody (body : Body σ) : StateM (Controller σ) (Bytes × Bool) := do
  let (bytes, ending, _) ← readBody body
  return (bytes, ending != .waiting)

def reply (response : Response σ) : StateM (Controller σ) (Reply (Controller σ)) := do
  let (body, ending, rest) ← readBody response.body
  return {
    status := response.status
    body
    rest := if ending = .waiting then some (tapBody rest) else none
    peer := match response.body with
      | .attached session => session.peer
      | _ => none }

/-- The network on which the controller answers, whatever the authority. -/
def loopback (cluster : Cluster σ) (m : Moment) : Network (Controller σ) :=
  ⟨fun _ request => do reply (← handle cluster m request)⟩

end ControlPlane.Api
