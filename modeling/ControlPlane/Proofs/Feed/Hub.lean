import ControlPlane.Proofs.Feed.Expansion
import ControlPlane.Proofs.Feed.Subscription

/-! # Runs of a store and its feed

Events are the operations of writers and of subscribers, in any order. A run is traced by what it
commits, what it offers to a subscription and what that subscription yields; a step of a run is an
effect on the store and an input to each subscription.
-/
namespace ControlPlane
open Store

structure Hub where
  store : Store := {}
  feed : Feed
  deriving DecidableEq

namespace Hub

/-- Writing a formation and announcing it may be one event, `put` or `delete`, or two; so may
registering a subscription and reading its replay. -/
inductive Event
  | write (m : Moment) (w : Write)
  | announce (r : FormationRecord)
  | put (m : Moment) (formation : Formation)
  | delete (m : Moment) (app release : String)
  | register
  | beginReplay (id : Nat) (since : Instant)
  | poll (id : Nat) (limit : Option Nat)
  | drop (id : Nat)
  | close

namespace Event

/-- The write that is part of an event, with its moment. -/
def write? : Event → Option (Moment × Write)
  | write m w => some (m, w)
  | put m formation => some (m, .putFormation formation)
  | delete m app release => some (m, .deleteFormation app release)
  | _ => none

/-- The subscription that an event is about. -/
def subscriber? : Event → Option Nat
  | beginReplay id _ | poll id _ | drop id => some id
  | _ => none

def isPoll : Event → Bool
  | poll .. => true
  | _ => false

/-- Formations are announced by the event that writes them. -/
def isAdjacent : Event → Bool
  | announce _ | write _ (.putFormation _) | write _ (.deleteFormation ..) => false
  | _ => true

def Proper (e : Event) : Prop := ∀ p ∈ e.write?, p.1.Proper

instance (e : Event) : Decidable e.Proper :=
  inferInstanceAs (Decidable (∀ p ∈ e.write?, p.1.Proper))

end Event

/-- A hub with an empty store, and with queues of the given size. -/
def ofBuffer (size : Nat) : Hub := { feed := .ofBuffer size }

def step (h : Hub) : Event → Hub
  | .write m w => { h with store := (h.store.perform m w).1 }
  | .announce r => { h with feed := h.feed.announce h.store r }
  | .put m formation =>
    match h.feed.putFormation h.store m formation with
    | .ok (_, store, feed) => { store, feed }
    | .error _ => h
  | .delete m app release =>
    match h.feed.deleteFormation h.store m app release with
    | .ok (_, store, feed) => { store, feed }
    | .error _ => h
  | .register =>
    match h.feed.register with
    | .ok (_, feed) => { h with feed }
    | .error _ => h
  | .beginReplay id since => { h with feed := h.feed.beginReplay h.store id since }
  | .poll id limit => { h with feed := (h.feed.poll id limit).2.2 }
  | .drop id => { h with feed := h.feed.drop id }
  | .close => { h with feed := h.feed.close }

def run (h : Hub) (es : List Event) : Hub := es.foldl step h

/-- What the steps of a run give, one after another. -/
def trace {α : Type} (f : Hub → Event → List α) (h : Hub) : List Event → List α
  | [] => []
  | e :: es => f h e ++ trace f (h.step e) es

/-- The record that an event commits. -/
def committed (h : Hub) (e : Event) : Option FormationRecord :=
  e.write?.bind fun (m, w) => (h.store.perform m w).2

/-- The record that an event announces. -/
def announced (h : Hub) (e : Event) : Option FormationRecord :=
  match e with
  | .announce r => some r
  | .put .. | .delete .. => h.committed e
  | _ => none

/-- The change that an event offers to all who are registered. -/
def offered (h : Hub) (e : Event) : Option Change :=
  (h.announced e).bind (Change.expand? (h.step e).store)

/-- The change that an event offers to one subscription, with how many are still in its queue. -/
def offeredTo (id : Nat) (h : Hub) (e : Event) : List (Change × Nat) :=
  match h.offered e, h.feed.subscription? id with
  | some c, some sub => if h.feed.closed then [] else [(c, sub.queue.length)]
  | _, _ => []

def yielded (id : Nat) (h : Hub) : Event → List Delivery
  | .poll id' limit => if id' = id then (h.feed.poll id limit).1 else []
  | _ => []

def commits : Hub → List Event → List FormationRecord := trace fun h e => (h.committed e).toList

def announcements : Hub → List Event → List FormationRecord :=
  trace fun h e => (h.announced e).toList

def offers (id : Nat) : Hub → List Event → List (Change × Nat) := trace (offeredTo id)

/-- All that a subscription yields over a run. -/
def yields (id : Nat) : Hub → List Event → List Delivery := trace (yielded id)

/-- The input of an event to one subscription. -/
def input (id : Nat) (h : Hub) (e : Event) : Option Subscription.Input :=
  match e with
  | .beginReplay id' since =>
    if id' = id then some (.replay (Feed.replayOf h.store since)) else none
  | .poll id' limit => if id' = id then some (.poll limit) else none
  | .close => some .shut
  | .announce .. | .put .. | .delete .. => (h.offered e).map .offer
  | .write .. | .register | .drop .. => none

theorem run_cons (h : Hub) (e : Event) (es : List Event) : h.run (e :: es) = (h.step e).run es :=
  rfl

theorem run_append (h : Hub) (es es' : List Event) : h.run (es ++ es') = (h.run es).run es' :=
  List.foldl_append

theorem trace_append {α : Type} (f : Hub → Event → List α) (h : Hub) (es es' : List Event) :
    trace f h (es ++ es') = trace f h es ++ trace f (h.run es) es' := by
  induction es generalizing h with
  | nil => rfl
  | cons e es ih => rw [List.cons_append, trace, trace, ih, List.append_assoc, run_cons]

/-! ## The store of a run -/

theorem step_put (h : Hub) (m : Moment) (formation : Formation) : h.step (.put m formation) =
    let (store, r?) := h.store.perform m (.putFormation formation)
    { store, feed := r?.elim h.feed (h.feed.announce store) } := by
  simp only [step, perform, Feed.putFormation]
  cases h.store.putFormation m formation <;> rfl

theorem step_delete (h : Hub) (m : Moment) (app release : String) : h.step (.delete m app release) =
    let (store, r?) := h.store.perform m (.deleteFormation app release)
    { store, feed := r?.elim h.feed (h.feed.announce store) } := by
  simp only [step, perform, Feed.deleteFormation]
  cases h.store.deleteFormation m app release with
  | error e => rfl
  | ok p => obtain ⟨_ | r, store⟩ := p <;> rfl

/-- An event performs its write on the store and does nothing else to it. -/
theorem store_step (h : Hub) (e : Event) :
    (h.step e).store = e.write?.elim h.store fun (m, w) => (h.store.perform m w).1 := by
  cases e with
  | put m formation => rw [step_put]; rfl
  | delete m app release => rw [step_delete]; rfl
  | register => simp only [step]; split <;> rfl
  | _ => rfl

theorem step_effect (h : Hub) (e : Event) :
    (e.write? = none ∧ (h.step e).store = h.store ∧ h.committed e = none) ∨
      ∃ p, e.write? = some p ∧ Effect h.store p.1 (h.step e).store (h.committed e) := by
  rw [store_step, committed]
  cases e.write? with
  | none => exact .inl ⟨rfl, rfl, rfl⟩
  | some p => exact .inr ⟨p, rfl, perform_effect h.store p.1 p.2⟩

section
variable {h : Hub} {e : Event} {es : List Event}

theorem step_consistent (hs : h.store.Consistent) (he : e.Proper) :
    (h.step e).store.Consistent := by
  obtain ⟨-, hstore, -⟩ | ⟨p, hp, heffect⟩ := h.step_effect e
  · rwa [hstore]
  · exact heffect.consistent hs (he p hp)

theorem step_extends (hs : h.store.Consistent) : Extends h.store (h.step e).store := by
  obtain ⟨-, hstore, -⟩ | ⟨p, hp, heffect⟩ := h.step_effect e
  · rw [hstore]
    exact .refl _
  · exact heffect.extends hs

theorem step_ledger {past : List FormationRecord} (hs : h.store.Consistent)
    (hl : h.store.Ledger past) (hlen : (past ++ (h.committed e).toList).length < UInt64.size) :
    (h.step e).store.Ledger (past ++ (h.committed e).toList) := by
  obtain ⟨-, hstore, hnone⟩ | ⟨p, hp, heffect⟩ := h.step_effect e
  · rw [hstore, hnone, Option.toList_none, List.append_nil]
    exact hl
  · exact hl.step hs heffect hlen

theorem run_consistent (hs : h.store.Consistent) (hes : ∀ e ∈ es, e.Proper) :
    (h.run es).store.Consistent := by
  induction es generalizing h with
  | nil => exact hs
  | cons e es ih => exact ih (step_consistent hs (hes e (by simp))) fun e he => hes e (by simp [he])

theorem run_extends (hs : h.store.Consistent) (hes : ∀ e ∈ es, e.Proper) :
    Extends h.store (h.run es).store := by
  induction es generalizing h with
  | nil => exact .refl _
  | cons e es ih =>
    have hs' := step_consistent hs (hes e (by simp))
    exact (step_extends hs).trans (ih hs' fun e he => hes e (by simp [he]))

theorem run_ledger {past : List FormationRecord} (hs : h.store.Consistent)
    (hl : h.store.Ledger past) (hes : ∀ e ∈ es, e.Proper)
    (hlen : (past ++ h.commits es).length < UInt64.size) :
    (h.run es).store.Ledger (past ++ h.commits es) := by
  induction es generalizing h past with
  | nil => simpa [commits, trace, run] using hl
  | cons e es ih =>
    have hsplit :
        past ++ h.commits (e :: es) = past ++ (h.committed e).toList ++ (h.step e).commits es :=
      (List.append_assoc _ _ _).symm
    rw [hsplit] at hlen ⊢
    refine ih (step_consistent hs (hes e (by simp))) (step_ledger hs hl ?_)
      (fun e he => hes e (by simp [he])) hlen
    rw [List.length_append] at hlen
    omega

end

/-! ## A small hub for examples: an app with a release and its artifact -/

/-- The given second of a day, with no identifier to spare. -/
def sampleMoment (second : Nat) : Moment :=
  ⟨(Instant.ofFields? 2024 1 1 0 0 second 0).getD .epoch, ""⟩

def sampleApp : String := "0123456789abcdef0123456789abcdef"

def sampleRelease : String := "00112233445566778899aabbccddeeff"

def sampleFormation (web : Int32) : Formation :=
  { app := sampleApp, release := sampleRelease, processes := .ofList [("web", web)] }

/-- The record of a write of the sample formation, of as many processes as its
version and its second. -/
def sampleRecord (n : Nat) : FormationRecord :=
  { formation := { sampleFormation (Int32.ofNat n) with
      createdAt := some (sampleMoment 1).now, updatedAt := some (sampleMoment n).now }
    version := UInt64.ofNat n }

def sampleSetup : List Event := [
  .write (sampleMoment 0)
    (.createArtifact { id := sampleRelease, kind := "docker", uri := "registry/web" }),
  .write (sampleMoment 0) (.createRelease { id := sampleRelease, artifact := sampleRelease }),
  .write (sampleMoment 0) (.createApp { id := sampleApp, name := "web" })]

end Hub
end ControlPlane
