import ControlPlane.Store.Apps
import ControlPlane.Store.Formations
import ControlPlane.Store.Releases

/-! # The feed of formation changes

A subscription replays the records that changed since an instant and goes on with what is announced.
It is registered before the replay is read, so a change may reach it both ways, and it passes on a
change only if its version is above all versions it has passed on for that formation. A subscription
whose queue is full when a change is announced is out of the registry: it gets what is queued, then
learns that it lags, then ends.
-/
namespace ControlPlane

inductive FeedError
  | closed
  | lagged
  | store (error : StoreError)
  deriving DecidableEq, Repr

def FeedError.message : FeedError → String
  | closed => "formation feed is closed"
  | lagged => "subscriber fell behind and was disconnected"
  | store error => "state error: " ++ error.message

/-- A committed formation with what it refers to. -/
structure Change where
  version : UInt64
  formation : ExpandedFormation
  deriving DecidableEq, Inhabited

namespace Change

def key (c : Change) : String := c.formation.key

/-- A record of a missing app, release or artifact has no change. Neither has one without a time; no
store that was written to holds such a record. -/
def expand? (s : Store) (record : FormationRecord) : Option Change := do
  let app ← s.getApp? record.formation.app
  let release ← s.getRelease? record.formation.release
  let artifact ← s.getArtifact? release.artifact
  let updatedAt ← record.changedAt
  let processes := if record.isDeleted then none else some record.formation.processes
  return ⟨record.version, { app, release, artifact, processes, updatedAt }⟩

end Change

/-- What a subscription yields. -/
inductive Delivery
  | change (c : Change)
  | replayComplete
  | lagged
  deriving DecidableEq

structure Subscription where
  id : Nat
  isRegistered : Bool := true
  replay : List Change := []
  replayDone : Bool := false
  queue : List Change := []
  /-- The last version passed on for each formation. -/
  seen : Dict UInt64 := {}
  hasLagged : Bool := false
  lagReported : Bool := false
  deriving DecidableEq

namespace Subscription

/-- Takes an announced change into the queue, or out of the registry if the queue is full. -/
def offer (capacity : Nat) (c : Change) (sub : Subscription) : Subscription :=
  if !sub.isRegistered then sub
  else if sub.queue.length < capacity then { sub with queue := sub.queue ++ [c] }
  else { sub with isRegistered := false, hasLagged := true }

def isNews (seen : Dict UInt64) (c : Change) : Bool := (seen.get? c.key).all (· < c.version)

/-- The first change that is news, with those after it. -/
def takeNews (seen : Dict UInt64) : List Change → Option (Change × List Change)
  | [] => none
  | c :: rest => if isNews seen c then some (c, rest) else takeNews seen rest

inductive Poll
  | item (d : Delivery)
  | pending
  | ended

def next (sub : Subscription) : Poll × Subscription :=
  match takeNews sub.seen sub.replay with
  | some (c, replay) =>
    (.item (.change c), { sub with replay, seen := sub.seen.insert c.key c.version })
  | none =>
    let sub := { sub with replay := [] }
    if !sub.replayDone then (.item .replayComplete, { sub with replayDone := true })
    else match takeNews sub.seen sub.queue with
      | some (c, queue) =>
        (.item (.change c), { sub with queue, seen := sub.seen.insert c.key c.version })
      | none =>
        let sub := { sub with queue := [] }
        if sub.isRegistered then (.pending, sub)
        else if sub.hasLagged && !sub.lagReported
          then (.item .lagged, { sub with lagReported := true })
        else (.ended, sub)

/-- At most `limit` deliveries, and whether the end was met after them. -/
def take : Nat → Subscription → List Delivery × Bool × Subscription
  | 0, sub => ([], false, sub)
  | limit + 1, sub =>
    match sub.next with
    | (.item d, sub) => let (ds, ended, sub) := take limit sub; (d :: ds, ended, sub)
    | (.pending, sub) => ([], false, sub)
    | (.ended, sub) => ([], true, sub)

/-- More than it can yield before something is announced. -/
def bound (sub : Subscription) : Nat := sub.replay.length + sub.queue.length + 3

end Subscription

structure Feed where
  /-- How many changes a queue holds. -/
  capacity : Nat
  closed : Bool := false
  nextId : Nat := 0
  subscriptions : List Subscription := []
  capacity_pos : 0 < capacity
  deriving DecidableEq

namespace Feed

def ofBuffer (size : Nat) : Feed := { capacity := max size 1, capacity_pos := by omega }

instance : Inhabited Feed := ⟨ofBuffer 1⟩

def subscription? (feed : Feed) (id : Nat) : Option Subscription :=
  feed.subscriptions.find? (·.id == id)

/-- Changes one subscription. -/
def update (feed : Feed) (id : Nat) (f : Subscription → Subscription) : Feed :=
  { feed with
    subscriptions := feed.subscriptions.map fun sub => if sub.id = id then f sub else sub }

def announceChange (feed : Feed) (c : Change) : Feed :=
  { feed with subscriptions := feed.subscriptions.map (·.offer feed.capacity c) }

/-- Offers the change of a record to all who are registered; a record without one is passed over. -/
def announce (feed : Feed) (s : Store) (record : FormationRecord) : Feed :=
  match Change.expand? s record with
  | some c => feed.announceChange c
  | none => feed

/-- Enters a subscription into the registry, with nothing to replay yet. -/
def register (feed : Feed) : Except FeedError (Nat × Feed) :=
  if feed.closed then .error .closed
  else .ok (feed.nextId, { feed with
    nextId := feed.nextId + 1, subscriptions := feed.subscriptions ++ [{ id := feed.nextId }] })

/-- The changes that a subscription replays. -/
def replayOf (s : Store) (since : Instant) : List Change :=
  (s.formationChangesSince since).filterMap (Change.expand? s)

def beginReplay (feed : Feed) (s : Store) (id : Nat) (since : Instant) : Feed :=
  feed.update id fun sub => { sub with replay := replayOf s since }

def subscribe (feed : Feed) (s : Store) (since : Instant) : Except FeedError (Nat × Feed) := do
  let (id, feed) ← feed.register
  return (id, feed.beginReplay s id since)

def subscriberCount (feed : Feed) : Nat := feed.subscriptions.countP (·.isRegistered)

/-- Empties the registry for good; what is queued can still be taken. -/
def close (feed : Feed) : Feed :=
  { feed with
    closed := true
    subscriptions := feed.subscriptions.map ({ · with isRegistered := false }) }

def drop (feed : Feed) (id : Nat) : Feed :=
  { feed with subscriptions := feed.subscriptions.filter (·.id != id) }

/-- Takes what is ready, at most `limit` deliveries. A subscription that is gone is at its end. -/
def poll (feed : Feed) (id : Nat) (limit : Option Nat) : List Delivery × Bool × Feed :=
  match feed.subscription? id with
  | none => ([], true, feed)
  | some sub =>
    let (ds, ended, sub) := sub.take (limit.getD sub.bound)
    (ds, ended, feed.update id fun _ => sub)

def putFormation (feed : Feed) (s : Store) (m : Moment) (formation : Formation) :
    Except FeedError (Formation × Store × Feed) :=
  match s.putFormation m formation with
  | .error e => .error (.store e)
  | .ok (record, s) => .ok (record.formation, s, feed.announce s record)

/-- Whether there was a live formation to delete. -/
def deleteFormation (feed : Feed) (s : Store) (m : Moment) (app release : String) :
    Except FeedError (Bool × Store × Feed) :=
  match s.deleteFormation m app release with
  | .error e => .error (.store e)
  | .ok (none, s) => .ok (false, s, feed)
  | .ok (some record, s) => .ok (true, s, feed.announce s record)

end Feed
end ControlPlane
