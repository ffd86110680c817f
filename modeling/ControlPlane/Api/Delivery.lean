import ControlPlane.Api.ChangeStream
import ControlPlane.Http.Message

/-! # The controller, and the delivery of what it answers

A controller is a store, the feed over it, and the world in which its cluster lives. The body of a
response is delivered bit by bit, as the feed or the far end of a log has more.
-/
namespace ControlPlane

structure Controller (σ : Type) where
  store : Store := {}
  feed : Feed
  world : σ

namespace Api
open Http
variable {σ : Type}

/-- How far a body has come: to its end, to where it waits for more, or to a
failure that cuts it off. -/
inductive Ending
  | ended | waiting | aborted
  deriving DecidableEq, Repr

def Ending.name : Ending → String
  | ended => "ended" | waiting => "open" | aborted => "aborted"

def Ending.of (ended failed : Bool) : Ending :=
  if failed then aborted else if ended then .ended else waiting

/-- Takes the bytes that a body has now, and leaves the rest of it. -/
def readBody (body : Body σ) : StateM (Controller σ) (Bytes × Ending × Body σ) := fun c =>
  match body with
  | .bytes bytes => ((bytes, .ended, .bytes []), c)
  | .changes subscription =>
    let (events, ended, feed) := ChangeStream.poll c.feed subscription
    ((events.flatMap ChangeStream.block, .of ended false, body), { c with feed })
  | .log format peer =>
    let (output, ended) := peer.unprompted
    let (bytes, failed) := Transcript.render format output ended
    let ending := Ending.of ended failed.isSome
    ((bytes, ending, if ending = .waiting then .log format .holds else .bytes []), c)
  | .attached _ => (([], .ended, .bytes []), c)

/-- Nobody wants the rest of a body. -/
def closeBody (body : Body σ) (c : Controller σ) : Controller σ :=
  match body with
  | .changes subscription => { c with feed := c.feed.drop subscription }
  | _ => c

end Api
end ControlPlane
