import ControlPlane.EventStream
import ControlPlane.Feed

/-! # Formation changes on the wire

The events of a subscription as server-sent events. The end of the replay has an event of its own,
and a subscription that lags is cut off.
-/
namespace ControlPlane

/-- A formation as it is now, or the end of the replay. -/
inductive FeedEvent
  | formation (formation : ExpandedFormation)
  | replayComplete
  deriving DecidableEq

/-- The event of a delivery; a lag has none. -/
def Delivery.event? : Delivery → Option FeedEvent
  | .change c => some (.formation c.formation)
  | .replayComplete => some .replayComplete
  | .lagged => none

namespace ChangeStream

def formationName : String := "formation"
def readyName : String := "ready"

/-- An event as it is written. The maps of a formation are written in the order of their keys, which
is one of the orders that a client takes. -/
def block : FeedEvent → Bytes
  | .formation formation =>
    EventStream.block (some formationName) (ExpandedFormation.codec.encode formation)
  | .replayComplete => EventStream.block (some readyName) (Utf8.encode "{}")

/-- What a received event says; events of other names say nothing. -/
def read (event : Event) : Except Json.Fault (Option FeedEvent) :=
  if event.name = readyName then .ok (some .replayComplete)
  else if event.name = formationName then
    (ExpandedFormation.codec.decode (Utf8.encode event.data)).map fun f => some (.formation f)
  else .ok none

/-- The events up to a lag, and whether there was one. -/
def untilLag : List Delivery → List FeedEvent × Bool
  | [] => ([], false)
  | d :: ds =>
    match d.event? with
    | none => ([], true)
    | some event => (event :: (untilLag ds).1, (untilLag ds).2)

/-- Takes the events that are ready, and tells whether the stream has ended. -/
def poll (feed : Feed) (subscription : Nat) : List FeedEvent × Bool × Feed :=
  let (ds, ended, feed) := feed.poll subscription none
  let (events, lagged) := untilLag ds
  (events, ended || lagged, feed)

end ChangeStream
end ControlPlane
