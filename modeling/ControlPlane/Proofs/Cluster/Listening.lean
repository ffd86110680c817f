import ControlPlane.Proofs.Cluster.Memory
import Mathlib.Data.List.TakeWhile

/-! # Streams of events lose nothing silently

A stream of the events of a host may be polled for one event at a time or for all at once, while the
host goes on to emit. What it has yielded tells of the events it was opened for in the order of
their emission, an error that counts what was lost standing wherever events are missing. While no
more than 64 events of any job are unread, nothing is missing and there is no error.
-/
namespace ControlPlane

/-- Whether an event is one of a job, or of any job where none is named. -/
def HostEvent.isOf (job : Option String) (event : HostEvent) : Bool := job.all (· == event.job)

/-- What a stream yields: an event, or the error that tells of a gap. -/
abbrev EventItem := Except ClusterError HostEvent

/-- Items tell of events, one after another. An error stands in the place of none or more that are
missing; it counts the events that were lost there, those of other jobs too. -/
inductive Told : List HostEvent → List EventItem → Prop
  | nil : Told [] []
  | event {events items} (event : HostEvent) (h : Told events items) :
      Told (event :: events) (.ok event :: items)
  | gap {events items} (missing : List HostEvent) {lost : Nat} (hlost : missing.length ≤ lost)
      (h : Told events items) : Told (missing ++ events) (.error (Listener.gapError lost) :: items)

namespace Told
variable {events events' : List HostEvent} {items items' : List EventItem}

theorem append (h : Told events items) (h' : Told events' items') :
    Told (events ++ events') (items ++ items') := by
  induction h with
  | nil => exact h'
  | event e _ ih => exact .event e ih
  | gap missing hlost _ ih =>
    rw [List.append_assoc]
    exact .gap missing hlost ih

/-- Without an error nothing is missing. -/
theorem eq_map_ok (h : Told events items) (hok : ∀ e, .error e ∉ items) :
    items = events.map .ok := by
  induction h with
  | nil => rfl
  | event e _ ih =>
    rw [List.map_cons, ← ih fun e' he' => hok e' (List.mem_cons_of_mem _ he')]
  | gap missing _ _ _ => exact absurd List.mem_cons_self (hok _)

/-- The events among the items are some of those told of, in their order. -/
theorem sublist (h : Told events items) : (items.filterMap Except.toOption).Sublist events := by
  induction h with
  | nil => exact .slnil
  | event e _ ih => exact ih.cons_cons e
  | gap missing _ _ ih => exact ih.trans (List.sublist_append_right _ _)

end Told

namespace Listener

/-- What one poll gives a listener to one job, or to all: the error for a gap, or else the first
event it asks for. The events in front of that one are passed over. -/
def next (job : Option String) (l : Listener) : Option EventItem × Listener :=
  if l.lost ≠ 0 then (some (.error (gapError l.lost)), { l with lost := 0 })
  else match l.queue.dropWhile (!HostEvent.isOf job ·) with
    | [] => (none, { l with queue := [] })
    | event :: rest => (some (.ok event), { l with queue := rest })

/-- Polls one after another, up to the first that gives nothing. -/
inductive Polls (job : Option String) : Listener → List EventItem → Listener → Prop
  | done {l l' : Listener} (h : l.next job = (none, l')) : Polls job l [] l'
  | more {l l' l'' : Listener} {item : EventItem} {items : List EventItem}
      (h : l.next job = (some item, l'))
        (hmore : Polls job l' items l'') : Polls job l (item :: items) l''

/-- All that a listener holds of a job, or of all, with the error for a gap in front. -/
def all (job : Option String) (l : Listener) : List EventItem :=
  (if l.lost = 0 then [] else [.error (gapError l.lost)]) ++ (l.queue.filter (·.isOf job)).map .ok

section Polling
variable {job : Option String} {l l' : Listener} {event : HostEvent}
  {events emitted heard lost : List HostEvent}
  {items more : List EventItem}

theorem next_of_gap (h : l.lost ≠ 0) :
    l.next job = (some (.error (gapError l.lost)), { l with lost := 0 }) := by
  rw [next, if_pos h]

theorem next_of_no_gap (h : l.lost = 0) :
    l.next job = match l.queue.dropWhile (!HostEvent.isOf job ·) with
      | [] => (none, { l with queue := [] })
      | event :: rest => (some (.ok event), { l with queue := rest }) := by
  rw [next, if_neg (not_not.2 h)]

/-- A poll takes the error for a gap; or it finds no event that is asked for and passes over all
there are; or it takes the first one that is asked for and passes over those in front of it. -/
theorem next_cases (job : Option String) (l : Listener) :
    (l.lost ≠ 0 ∧ l.next job = (some (.error (gapError l.lost)), { l with lost := 0 })) ∨
    (l.lost = 0 ∧ l.queue.filter (·.isOf job) = [] ∧ l.next job = (none, { l with queue := [] })) ∨
    ∃ passed event rest, l.lost = 0 ∧ l.queue = passed ++ event :: rest ∧
      passed.filter (·.isOf job) = [] ∧
      event.isOf job = true ∧ l.next job = (some (.ok event), { l with queue := rest }) := by
  by_cases hgap : l.lost = 0
  swap
  · exact .inl ⟨hgap, next_of_gap hgap⟩
  · have hqueue : l.queue.takeWhile (!HostEvent.isOf job ·) ++
      l.queue.dropWhile (!HostEvent.isOf job ·) = l.queue :=
      List.takeWhile_append_dropWhile
    have hpassed : (l.queue.takeWhile (!HostEvent.isOf job ·)).filter (·.isOf job) = [] := by
      rw [List.filter_eq_nil_iff]
      intro event hevent
      simpa using List.mem_takeWhile_imp hevent
    have hhead := List.head?_dropWhile_not (!HostEvent.isOf job ·) l.queue
    rw [next_of_no_gap hgap]
    cases hrest : l.queue.dropWhile (!HostEvent.isOf job ·) with
    | nil =>
      rw [hrest, List.append_nil] at hqueue
      rw [hqueue] at hpassed
      exact .inr (.inl ⟨hgap, hpassed, rfl⟩)
    | cons event rest =>
      rw [hrest] at hqueue hhead
      exact .inr (.inr ⟨_, event, rest, hgap, hqueue.symm, hpassed, by simpa using hhead, rfl⟩)

/-- Listeners with the same next poll have the same polls. -/
theorem Polls.of_next_eq {l₁ : Listener} (h : l₁.next job = l.next job)
    (hpolls : Polls job l items l') :
    Polls job l₁ items l' := by
  cases hpolls with
  | done hnone => exact .done (h.trans hnone)
  | more hsome hmore => exact .more (h.trans hsome) hmore

/-- Polling until there is nothing gives all that the listener holds. -/
theorem polls_all (job : Option String) (l : Listener) :
    Polls job l (l.all job) { incarnation := l.incarnation } := by
  have hqueue (events : List HostEvent) : Polls job { l with queue := events, lost := 0 }
      ((events.filter (·.isOf job)).map .ok) { incarnation := l.incarnation } := by
    induction events with
    | nil => exact .done (next_of_no_gap rfl)
    | cons event events ih =>
      by_cases hof : event.isOf job = true
      · rw [List.filter_cons_of_pos hof, List.map_cons]
        refine .more ((next_of_no_gap rfl).trans ?_) ih
        rw [List.dropWhile_cons_of_neg (by simp [hof])]
      · rw [List.filter_cons_of_neg hof]
        refine ih.of_next_eq ?_
        rw [next_of_no_gap rfl, next_of_no_gap rfl, List.dropWhile_cons_of_pos (by simp [hof])]
  by_cases hgap : l.lost = 0
  · rw [all, if_pos hgap, List.nil_append]
    have hself : l = { l with queue := l.queue, lost := 0 } := by rw [← hgap]
    rw [hself]
    exact hqueue l.queue
  · rw [all, if_neg hgap]
    exact .more (next_of_gap hgap) (hqueue l.queue)

/-! ## What becomes of the events that are emitted -/

/-- The events emitted for a listener are those that its items tell of, those lost in a gap that it
has not been told of, and those that it holds. -/
structure Accounts (job : Option String) (emitted : List HostEvent) (items : List EventItem)
    (l : Listener) (heard lost : List HostEvent) : Prop where
  emitted : emitted = heard ++ lost ++ l.queue
  told : Told (heard.filter (·.isOf job)) items
  lost : lost.length = l.lost

namespace Accounts

theorem push (h : Accounts job emitted items l heard lost) (event : HostEvent) :
    ∃ lost', Accounts job (emitted ++ [event]) items (l.push event) heard lost' := by
  unfold Listener.push
  split
  · exact ⟨lost, by rw [h.emitted, List.append_assoc], h.told, h.lost⟩
  · next hfull =>
    -- The oldest event makes room for the new one.
    cases hqueue : l.queue with
    | nil => exact absurd (by simp [hqueue, capacity]) hfull
    | cons oldest events =>
      refine ⟨lost ++ [oldest], ?_, h.told, ?_⟩
      · simp [h.emitted, hqueue]
      · rw [List.length_append, h.lost]
        rfl

theorem lost_eq_nil (h : Accounts job emitted items l heard lost) (hgap : l.lost = 0) : lost = [] :=
  List.length_eq_zero_iff.1 (h.lost.trans hgap)

theorem next (h : Accounts job emitted items l heard lost) :
    ∃ heard' lost',
      Accounts job emitted (items ++ (l.next job).1.toList) (l.next job).2 heard' lost' := by
  obtain ⟨-, hnext⟩ | ⟨hgap, hnone, hnext⟩ |
    ⟨passed, event, rest, hgap, hqueue, hnone, hof, hnext⟩ := l.next_cases job
  · -- What was lost is told of by the error.
    rw [hnext]
    refine ⟨heard ++ lost, [], by rw [h.emitted, List.append_nil], ?_, rfl⟩
    have hlost : (lost.filter (·.isOf job)).length ≤ l.lost := h.lost ▸ List.length_filter_le ..
    have htold := Told.gap (lost.filter (·.isOf job)) hlost .nil
    rw [List.append_nil] at htold
    rw [List.filter_append]
    exact h.told.append htold
  · obtain rfl := h.lost_eq_nil hgap
    rw [hnext]
    refine ⟨heard ++ l.queue, [], by simp [h.emitted], ?_, hgap.symm⟩
    rw [List.filter_append, hnone, List.append_nil]
    simpa using h.told
  · obtain rfl := h.lost_eq_nil hgap
    rw [hnext]
    refine ⟨heard ++ (passed ++ [event]), [], by simp [h.emitted, hqueue], ?_, hgap.symm⟩
    rw [List.filter_append, List.filter_append, hnone, List.nil_append, List.filter_singleton, hof]
    exact h.told.append (.event event .nil)

theorem polls (hpolls : Polls job l more l') (h : Accounts job emitted items l heard lost) :
    ∃ heard' lost', Accounts job emitted (items ++ more) l' heard' lost' := by
  induction hpolls generalizing items heard lost with
  | done hnext =>
    obtain ⟨heard', lost', h'⟩ := h.next
    rw [hnext] at h'
    exact ⟨heard', lost', h'⟩
  | more hnext _ ih =>
    obtain ⟨heard', lost', h'⟩ := h.next
    rw [hnext] at h'
    obtain ⟨heard', lost', h'⟩ := ih h'
    exact ⟨heard', lost', by simpa using h'⟩

/-- What polls find nothing of has been told of. -/
theorem filter_eq_nil (h : Accounts job emitted items l heard lost)
    (hnone : (l.next job).1 = none) :
    (lost ++ l.queue).filter (·.isOf job) = [] := by
  obtain ⟨-, hnext⟩ | ⟨hgap, hqueue, -⟩ | ⟨_, _, _, _, _, _, _, hnext⟩ := l.next_cases job
  · simp [hnext] at hnone
  · rw [h.lost_eq_nil hgap, List.nil_append, hqueue]
  · simp [hnext] at hnone

end Accounts

/-- A listener that has lost nothing holds the events that are unread. Its items are the events
asked for, but for these. -/
structure Abreast (job : Option String) (emitted unread : List HostEvent) (items : List EventItem)
    (l : Listener) : Prop where
  lost : l.lost = 0
  queue : l.queue = unread
  items : items ++ (unread.filter (·.isOf job)).map .ok = (emitted.filter (·.isOf job)).map .ok

namespace Abreast
variable {unread : List HostEvent}

private theorem filter_dropWhile (job : Option String) (events : List HostEvent) :
    (events.dropWhile (!HostEvent.isOf job ·)).filter (·.isOf job) =
      events.filter (·.isOf job) := by
  induction events with
  | nil => rfl
  | cons event events ih =>
    by_cases hof : event.isOf job = true
    · rw [List.dropWhile_cons_of_neg (by simp [hof])]
    · rw [List.dropWhile_cons_of_pos (by simp [hof]), List.filter_cons_of_neg hof, ih]

theorem push (h : Abreast job emitted unread items l) {event : HostEvent}
    (hroom : (unread ++ [event]).length ≤ capacity) :
    Abreast job (emitted ++ [event]) (unread ++ [event]) items (l.push event) := by
  have hlength : l.queue.length < capacity := by
    rw [List.length_append, List.length_singleton] at hroom
    rwa [h.queue]
  rw [Listener.push, if_pos hlength]
  refine ⟨h.lost, by rw [h.queue], ?_⟩
  rw [List.filter_append, List.filter_append, List.map_append, List.map_append,
    ← List.append_assoc, h.items]

theorem next (h : Abreast job emitted unread items l) :
    Abreast job emitted (unread.dropWhile (!HostEvent.isOf job ·)).tail
      (items ++ (l.next job).1.toList) (l.next job).2 := by
  have hitems := h.items
  rw [← filter_dropWhile] at hitems
  have hhead := List.head?_dropWhile_not (!HostEvent.isOf job ·) unread
  rw [next_of_no_gap h.lost, h.queue]
  cases hrest : unread.dropWhile (!HostEvent.isOf job ·) with
  | nil =>
    rw [hrest] at hitems
    exact ⟨h.lost, rfl, by simpa using hitems⟩
  | cons event rest =>
    rw [hrest] at hitems hhead
    rw [List.filter_cons_of_pos (by simpa using hhead)] at hitems
    exact ⟨h.lost, rfl, by simpa using hitems⟩

theorem all (h : Abreast job emitted unread items l) :
    Abreast job emitted [] (items ++ l.all job) { incarnation := l.incarnation } := by
  refine ⟨rfl, rfl, ?_⟩
  rw [Listener.all, if_pos h.lost, h.queue, List.nil_append]
  simpa using h.items

theorem no_error (h : Abreast job emitted unread items l) (e : ClusterError) :
    .error e ∉ items := by
  intro he
  have hmem := List.mem_append_left ((unread.filter (·.isOf job)).map Except.ok) he
  rw [h.items] at hmem
  simp at hmem

end Abreast
end Polling

theorem incarnation_push (event : HostEvent) (l : Listener) :
    (l.push event).incarnation = l.incarnation := by
  unfold push
  split <;> rfl

theorem incarnation_next (job : Option String) (l : Listener) :
    (l.next job).2.incarnation = l.incarnation := by
  unfold next
  split
  · rfl
  · split <;> rfl

end Listener

/-! ## A host and one of its streams -/

/-- What makes a host report events: it is told to, or it is asked for a job or for the end of
one. -/
inductive HostAct
  | emit (event : HostEvent)
  | addJob (now : Instant) (job : HostJob)
  | stopJob (now : Instant) (job : String)

namespace HostAct
open MemoryCluster

def perform (h : MemoryHost) (c : MemoryCluster) : HostAct → MemoryCluster
  | emit event => c.emit h.incarnation event
  | addJob now job => ((client now h).addJob job c).2
  | stopJob now job => ((client now h).stopJob job c).2

/-- The event that is emitted: that of a job the host has taken on, or that of the end of
a job that was there. -/
def event? (h : MemoryHost) (c : MemoryCluster) : HostAct → Option HostEvent
  | emit event => some event
  | addJob now job => ((client now h).addJob job c).1.toOption.map fun id => ⟨id, .create⟩
  | stopJob _ job =>
    if ((c.hosts.get? h.id).filter (·.incarnation == h.incarnation)).any fun h =>
      (h.find? job).isSome
    then some ⟨job, .stop⟩ else none

theorem listeners_onHost {α : Type} (h : MemoryHost)
    (act : MemoryHost → Except ClusterError α × MemoryHost) (c : MemoryCluster) :
    (onHost h act c).2.listeners = c.listeners := by
  unfold onHost
  split <;> rfl

/-- An act changes the listeners of the cluster by the event that is emitted, and by nothing
else. -/
theorem listeners_perform (h : MemoryHost) (c : MemoryCluster) (act : HostAct) :
    (act.perform h c).listeners = ((act.event? h c).elim c (c.emit h.incarnation)).listeners := by
  cases act with
  | emit event => rfl
  | addJob now job =>
    obtain ⟨act, hjob⟩ : ∃ act, (client now h).addJob job = (do
        let id ← onHost h act
        announce h ⟨id, .create⟩
        return id) := ⟨_, rfl⟩
    have hlisteners := listeners_onHost h act c
    rcases hact : onHost h act c with ⟨e | id, c'⟩ <;> rw [hact] at hlisteners
    · rw [perform, event?, hjob, bind_of_error hact]
      exact hlisteners
    · have hruns : (client now h).addJob job c = (.ok id, c'.emit h.incarnation ⟨id, .create⟩) := by
        rw [hjob, bind_of_ok hact]
        rfl
      rw [perform, event?, hruns]
      exact congrArg
        (List.map fun l => if l.incarnation = h.incarnation then l.push ⟨id, .create⟩ else l)
        hlisteners
  | stopJob now job =>
    let act : MemoryHost → Except ClusterError Bool × MemoryHost :=
      fun h => (.ok (h.stopJob job).1, (h.stopJob job).2)
    rcases hfound : (c.hosts.get? h.id).filter (·.incarnation == h.incarnation) with _ | standing
    · have hact : onHost h act c = (.error (.hostNotFound h.id), c) := by simp only [onHost, hfound]
      have hfails : (client now h).stopJob job c = (.error (.hostNotFound h.id), c) :=
        bind_of_error hact
      rw [perform, event?, hfails, hfound]
      rfl
    · have hact :
        onHost h act c = (.ok (standing.find? job).isSome, c.putHost (standing.stopJob job).2) := by
        simp only [onHost, hfound]
        rfl
      have hruns : (client now h).stopJob job c = _ := bind_of_ok hact
      rw [perform, event?, hruns, hfound, Option.any_some]
      split <;> rfl

end HostAct

namespace MemoryCluster
variable {c : MemoryCluster} {stream : Nat} {job : Option String} {l : Listener}

/-- Polls a stream once. -/
def poll (stream : Nat) (job : Option String) (c : MemoryCluster) :
    Option EventItem × MemoryCluster :=
  match c.listeners[stream]? with
  | none => (none, c)
  | some l => ((l.next job).1, { c with listeners := c.listeners.set stream (l.next job).2 })

theorem poll_of_getElem? (hl : c.listeners[stream]? = some l) :
    c.poll stream job =
      ((l.next job).1, { c with listeners := c.listeners.set stream (l.next job).2 }) := by
  rw [poll, hl]

theorem listen_of_getElem? (hl : c.listeners[stream]? = some l) :
    listen stream job c = (l.all job,
      { c with listeners := c.listeners.set stream { incarnation := l.incarnation } }) := by
  simp only [listen, hl]
  rfl

end MemoryCluster

/-- A stream of a host from its opening on: the events that were emitted, those among them that the
stream would still have to go through had it lost none, and what it has yielded. -/
structure Hearing where
  cluster : MemoryCluster
  emitted : List HostEvent := []
  unread : List HostEvent := []
  items : List EventItem := []

namespace Hearing
open MemoryCluster

/-- A stream that the client of a host has just opened. -/
def opened (now : Instant) (h : MemoryHost) (job : Option String) (c : MemoryCluster) :
    Hearing where
  cluster := ((client now h).events job c).2

/-- The host acts, or the stream is polled once, or for all there is. -/
inductive Turn
  | host (act : HostAct)
  | poll
  | drain

section Turns
variable (h : MemoryHost) (stream : Nat) (job : Option String)

def turn (s : Hearing) : Turn → Hearing
  | .host act => { s with
      cluster := act.perform h s.cluster
      emitted := s.emitted ++ (act.event? h s.cluster).toList
      unread := s.unread ++ (act.event? h s.cluster).toList }
  | .poll => { s with
      cluster := (s.cluster.poll stream job).2
      unread := (s.unread.dropWhile (!HostEvent.isOf job ·)).tail
      items := s.items ++ (s.cluster.poll stream job).1.toList }
  | .drain => { s with
      cluster := (listen stream job s.cluster).2
      unread := []
      items := s.items ++ (listen stream job s.cluster).1 }

def turns (s : Hearing) (ts : List Turn) : Hearing := ts.foldl (turn h stream job) s

end Turns

/-- A stream after some turns from its opening on. -/
def after (now : Instant) (h : MemoryHost) (job : Option String) (c : MemoryCluster)
    (ts : List Turn) : Hearing :=
  (opened now h job c).turns h c.listeners.length job ts

/-- A stream of the host is known to the cluster by this listener. -/
structure KnownBy (h : MemoryHost) (stream : Nat) (s : Hearing) (l : Listener) : Prop where
  listener : s.cluster.listeners[stream]? = some l
  host : l.incarnation = h.incarnation

section Invariants
variable {h : MemoryHost} {stream : Nat} {job : Option String} {s : Hearing} {l : Listener}
  {heard lost : List HostEvent}

theorem knownBy_opened (now : Instant) (h : MemoryHost) (job : Option String) (c : MemoryCluster) :
    (opened now h job c).KnownBy h c.listeners.length { incarnation := h.incarnation } where
  listener := List.getElem?_concat_length
  host := rfl

namespace KnownBy

theorem host_turn (hs : s.KnownBy h stream l) (job : Option String) (act : HostAct) :
    (s.turn h stream job (.host act)).KnownBy h stream
      ((act.event? h s.cluster).elim l l.push) where
  listener := by
    rw [turn, act.listeners_perform]
    cases act.event? h s.cluster with
    | none => exact hs.listener
    | some event => simp [emit, hs.listener, hs.host]
  host := by
    cases act.event? h s.cluster with
    | none => exact hs.host
    | some event => exact (l.incarnation_push event).trans hs.host

theorem getElem?_set (hs : s.KnownBy h stream l) (l' : Listener) :
    (s.cluster.listeners.set stream l')[stream]? = some l' :=
  List.getElem?_set_self (List.getElem?_eq_some_iff.1 hs.listener).1

theorem poll_turn (hs : s.KnownBy h stream l) (job : Option String) :
    (s.turn h stream job .poll).KnownBy h stream (l.next job).2 where
  listener := by
    rw [turn, poll_of_getElem? hs.listener]
    exact hs.getElem?_set _
  host := (l.incarnation_next job).trans hs.host

theorem drain_turn (hs : s.KnownBy h stream l) (job : Option String) :
    (s.turn h stream job .drain).KnownBy h stream { incarnation := l.incarnation } where
  listener := by
    rw [turn, listen_of_getElem? hs.listener]
    exact hs.getElem?_set _
  host := hs.host

end KnownBy

/-- Every turn leaves the events that were emitted accounted for. -/
theorem accounts_turn (hs : s.KnownBy h stream l)
    (haccounts : l.Accounts job s.emitted s.items heard lost) (t : Turn) :
    ∃ l' heard' lost', (s.turn h stream job t).KnownBy h stream l' ∧
      l'.Accounts job (s.turn h stream job t).emitted (s.turn h stream job t).items
        heard' lost' := by
  cases t with
  | host act =>
    have hturn := hs.host_turn job act
    rw [turn] at hturn ⊢
    cases hevent : act.event? h s.cluster with
    | none =>
      rw [hevent] at hturn
      exact ⟨l, heard, lost, hturn, by simpa using haccounts⟩
    | some event =>
      rw [hevent] at hturn
      obtain ⟨lost', haccounts⟩ := haccounts.push event
      exact ⟨l.push event, heard, lost', hturn, haccounts⟩
  | poll =>
    obtain ⟨heard', lost', haccounts⟩ := haccounts.next
    refine ⟨_, heard', lost', hs.poll_turn job, ?_⟩
    rwa [turn, poll_of_getElem? hs.listener]
  | drain =>
    obtain ⟨heard', lost', haccounts⟩ := haccounts.polls (l.polls_all job)
    refine ⟨_, heard', lost', hs.drain_turn job, ?_⟩
    rwa [turn, listen_of_getElem? hs.listener]

theorem accounts_turns (hs : s.KnownBy h stream l)
    (haccounts : l.Accounts job s.emitted s.items heard lost) (ts : List Turn) :
    ∃ l' heard' lost', (s.turns h stream job ts).KnownBy h stream l' ∧
      l'.Accounts job (s.turns h stream job ts).emitted (s.turns h stream job ts).items
        heard' lost' := by
  induction ts generalizing s l heard lost with
  | nil => exact ⟨l, heard, lost, hs, haccounts⟩
  | cons t ts ih =>
    obtain ⟨l', heard', lost', hs', haccounts'⟩ := accounts_turn hs haccounts t
    exact ih hs' haccounts'

/-- A turn that leaves room for what is unread loses nothing. -/
theorem abreast_turn (hs : s.KnownBy h stream l)
    (habreast : l.Abreast job s.emitted s.unread s.items) (t : Turn)
    (hroom : (s.turn h stream job t).unread.length ≤ Listener.capacity) :
    ∃ l', (s.turn h stream job t).KnownBy h stream l' ∧
      l'.Abreast job (s.turn h stream job t).emitted
        (s.turn h stream job t).unread (s.turn h stream job t).items := by
  cases t with
  | host act =>
    have hturn := hs.host_turn job act
    rw [turn] at hturn hroom ⊢
    cases hevent : act.event? h s.cluster with
    | none =>
      rw [hevent] at hturn
      exact ⟨l, hturn, by simpa using habreast⟩
    | some event =>
      rw [hevent] at hturn hroom
      exact ⟨l.push event, hturn, habreast.push hroom⟩
  | poll =>
    refine ⟨_, hs.poll_turn job, ?_⟩
    rw [turn, poll_of_getElem? hs.listener]
    exact habreast.next
  | drain =>
    refine ⟨_, hs.drain_turn job, ?_⟩
    rw [turn, listen_of_getElem? hs.listener]
    exact habreast.all

theorem abreast_turns (hs : s.KnownBy h stream l)
    (habreast : l.Abreast job s.emitted s.unread s.items) (ts : List Turn)
    (hroom : ∀ n, (s.turns h stream job (ts.take n)).unread.length ≤ Listener.capacity) :
    ∃ l', (s.turns h stream job ts).KnownBy h stream l' ∧
      l'.Abreast job (s.turns h stream job ts).emitted
        (s.turns h stream job ts).unread (s.turns h stream job ts).items := by
  induction ts generalizing s l with
  | nil => exact ⟨l, hs, habreast⟩
  | cons t ts ih =>
    obtain ⟨l', hs', habreast'⟩ := abreast_turn hs habreast t (hroom 1)
    exact ih hs' habreast' fun n => hroom (n + 1)

end Invariants

/-- A stream of the events of a host is read off a listener behind all others. Whatever becomes of
the two, it tells of the events that it was opened for in the order of their emission, none of them
twice. Some are missing only in the place of an error, which counts at least as many as lost, and
those that it has not come to are none once a poll finds nothing. While no more than 64 events of
any job are unread, it yields what it tells of, and no error. -/
theorem loses_nothing_silently (now : Instant) (h : MemoryHost) (job : Option String)
    (c : MemoryCluster) (ts : List Turn) :
    (client now h).events job c =
      (.ok (listen c.listeners.length job), (opened now h job c).cluster) ∧ ∃ heard pending,
      (after now h job c ts).emitted.filter (·.isOf job) = heard ++ pending ∧
      Told heard (after now h job c ts).items ∧
      ((after now h job c ts).items.filterMap Except.toOption).Sublist heard ∧
      (((after now h job c ts).cluster.poll c.listeners.length job).1 = none → pending = []) ∧
      ((∀ n, (after now h job c (ts.take n)).unread.length ≤ 64) →
        (after now h job c ts).items = heard.map .ok) := by
  have hopened := knownBy_opened now h job c
  have hnothing : Listener.Accounts job [] [] { incarnation := h.incarnation } [] [] :=
    ⟨rfl, .nil, rfl⟩
  obtain ⟨l, heard, lost, hs, haccounts⟩ := accounts_turns hopened hnothing ts
  refine ⟨rfl, heard.filter (·.isOf job), (lost ++ l.queue).filter (·.isOf job), ?_, haccounts.told,
    haccounts.told.sublist, ?_, ?_⟩
  · rw [← List.filter_append, ← List.append_assoc, ← haccounts.emitted]
    rfl
  · intro hnone
    rw [after, poll_of_getElem? hs.listener] at hnone
    exact haccounts.filter_eq_nil hnone
  · intro hroom
    obtain ⟨_, -, habreast⟩ := abreast_turns hopened ⟨rfl, rfl, rfl⟩ ts hroom
    exact haccounts.told.eq_map_ok habreast.no_error

example :
    (after .epoch { id := "host0", incarnation := 0 } (some "job0") {}
      (List.replicate 66 (.host (.emit ⟨"job1", .start⟩)) ++
        [.host (.emit ⟨"job0", .start⟩), .poll, .poll, .poll])).items =
      [.error (.undecodable "channel lagged by 3"), .ok ⟨"job0", .start⟩] := by decide +kernel

end Hearing
end ControlPlane
