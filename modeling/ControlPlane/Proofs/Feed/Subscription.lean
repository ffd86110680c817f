import ControlPlane.Proofs.Feed.News

/-! # What one subscription yields

Whatever is polled, and when, what a subscription has yielded and what it has left to yield make up
one transcript, fixed by its replay and by the announcements it took.
-/
namespace ControlPlane

def Delivery.change? : Delivery → Option Change
  | change c => some c
  | replayComplete | lagged => none

def changesOf (ds : List Delivery) : List Change := ds.filterMap Delivery.change?

@[simp] theorem changesOf_nil : changesOf [] = [] := rfl

@[simp] theorem changesOf_change (c : Change) (ds : List Delivery) :
    changesOf (.change c :: ds) = c :: changesOf ds := rfl

@[simp] theorem changesOf_replayComplete (ds : List Delivery) :
    changesOf (.replayComplete :: ds) = changesOf ds := rfl

@[simp] theorem changesOf_lagged (ds : List Delivery) : changesOf (.lagged :: ds) = changesOf ds :=
  rfl

@[simp] theorem changesOf_map_change (cs : List Change) : changesOf (cs.map .change) = cs := by
  induction cs with
  | nil => rfl
  | cons c cs ih => simp [ih]

@[simp] theorem changesOf_append (ds es : List Delivery) :
    changesOf (ds ++ es) = changesOf ds ++ changesOf es :=
  List.filterMap_append

/-- All that is yielded of a replay, and of the announcements that were taken. -/
def transcript (replay taken : List Change) (lagged : Bool) : List Delivery :=
  replay.map .change ++ .replayComplete :: (newsAfter replay taken).map .change ++ if lagged
    then [.lagged] else []

theorem changesOf_transcript (replay taken : List Change) (lagged : Bool) :
    changesOf (transcript replay taken lagged) = replay ++ newsAfter replay taken := by
  have hlag : changesOf (if lagged then [.lagged] else []) = [] := by cases lagged <;> rfl
  simp [transcript, hlag]

theorem transcript_append (replay taken more : List Change) :
    transcript replay (taken ++ more) false =
    transcript replay taken false ++
      (newsAfter (replay ++ newsAfter replay taken) more).map .change := by
  simp [transcript, newsAfter_append]

/-- The error of a lag comes after all else. -/
theorem transcript_eq (replay taken : List Change) (lagged : Bool) :
    transcript replay taken lagged =
    transcript replay taken false ++ if lagged then [.lagged] else [] := by
  simp [transcript]

namespace Subscription

def lagLeft (sub : Subscription) : List Delivery :=
  if sub.hasLagged && !sub.lagReported then [.lagged] else []

/-- What is left of the replay and of the queue where `past` was passed on. -/
def front (past : List Change) (sub : Subscription) : List Delivery :=
  (newsAfter past sub.replay).map .change ++ (if sub.replayDone then [] else [.replayComplete]) ++
    (newsAfter (past ++ newsAfter past sub.replay) sub.queue).map .change

/-- What a subscription that has passed on `past` still yields if nothing more is announced. -/
def rest (past : List Change) (sub : Subscription) : List Delivery := sub.front past ++ sub.lagLeft

/-- The subscription has passed on `past`, and is out of the registry if it lags. -/
structure Faithful (past : List Change) (sub : Subscription) : Prop where
  tracks : Tracks sub.seen past
  lagged : sub.hasLagged = true → sub.isRegistered = false
  reported : sub.lagReported = true → sub.hasLagged = true

variable {past : List Change} {sub sub' : Subscription}

theorem Faithful.lagLeft_of_registered (h : Faithful past sub) (hreg : sub.isRegistered = true) :
    sub.lagLeft = [] := by
  have hlag : sub.hasLagged = false := by
    cases hl : sub.hasLagged with
    | false => rfl
    | true => rw [h.lagged hl] at hreg; cases hreg
  rw [lagLeft, hlag]
  rfl

theorem rest_append_queue (past : List Change) (sub : Subscription) (hleft : sub.lagLeft = [])
    (more : List Change) :
    { sub with queue := sub.queue ++ more }.rest past = sub.rest past ++ (newsAfter (past ++
      newsAfter past sub.replay ++ newsAfter (past ++ newsAfter past sub.replay) sub.queue)
        more).map .change := by
  have hleft' : { sub with queue := sub.queue ++ more }.lagLeft = [] := hleft
  simp only [rest, front, hleft, hleft', newsAfter_append, List.map_append, List.append_nil,
    List.append_assoc]

/-- What one look at a subscription may find: the first of what is left, or that nothing is left. -/
inductive Next (past : List Change) (sub : Subscription) : Poll → Subscription → Prop
  | item (d : Delivery) (sub' : Subscription)
      (hrest : sub.rest past = d :: sub'.rest (past ++ changesOf [d]))
      (hfaithful : Faithful (past ++ changesOf [d]) sub')
      (hreg : sub'.isRegistered = sub.isRegistered)
      (hlag : sub'.hasLagged = sub.hasLagged) : Next past sub (.item d) sub'
  | pending (sub' : Subscription) (hrest : sub.rest past = []) (hrest' : sub'.rest past = [])
      (hfaithful : Faithful past sub') (hreg : sub'.isRegistered = true)
      (hreg' : sub.isRegistered = true)
      (hlag : sub'.hasLagged = sub.hasLagged) : Next past sub .pending sub'
  | ended (sub' : Subscription) (hrest : sub.rest past = []) (hrest' : sub'.rest past = [])
      (hfaithful : Faithful past sub') (hreg : sub'.isRegistered = false)
      (hreg' : sub.isRegistered = false)
      (hlag : sub'.hasLagged = sub.hasLagged) : Next past sub .ended sub'

theorem Faithful.next (h : Faithful past sub) : Next past sub sub.next.1 sub.next.2 := by
  unfold Subscription.next
  split
  · next c replay hc =>
    obtain ⟨hnew, hnews⟩ := newsAfter_of_takeNews_eq_some h.tracks hc
    refine .item _ _ ?_ ⟨h.tracks.insert hnew, h.lagged, h.reported⟩ rfl rfl
    simp [rest, front, lagLeft, hnews]
  · next hc =>
    have hreplay : newsAfter past sub.replay = [] := newsAfter_of_takeNews_eq_none h.tracks hc
    dsimp only
    split
    · next hdone =>
      refine .item _ _ ?_ ⟨by simpa using h.tracks, h.lagged, h.reported⟩ rfl rfl
      simp_all [rest, front, lagLeft]
    · next hdone =>
      have hdone : sub.replayDone = true := by simpa using hdone
      split
      · next c queue hc =>
        obtain ⟨hnew, hnews⟩ := newsAfter_of_takeNews_eq_some h.tracks hc
        refine .item _ _ ?_ ⟨h.tracks.insert hnew, h.lagged, h.reported⟩ rfl rfl
        simp [rest, front, lagLeft, hreplay, hdone, hnews]
      · next hc =>
        have hqueue : newsAfter past sub.queue = [] := newsAfter_of_takeNews_eq_none h.tracks hc
        split
        · next hreg =>
          have hleft := h.lagLeft_of_registered hreg
          refine .pending _ ?_ ?_ ⟨h.tracks, h.lagged, h.reported⟩ hreg hreg rfl
          · simp [rest, front, hreplay, hqueue, hdone, hleft]
          · simpa [rest, front, hdone, lagLeft] using hleft
        · next hreg =>
          have hreg : sub.isRegistered = false := by simpa using hreg
          split
          · next hlag =>
            refine .item _ _ ?_ ⟨by simpa using h.tracks, h.lagged, ?_⟩ rfl rfl
            · simp_all [rest, front, lagLeft]
            · simp_all
          · next hlag =>
            refine .ended _ ?_ ?_ ⟨h.tracks, h.lagged, h.reported⟩ hreg hreg rfl
            · simp [rest, front, hreplay, hqueue, hdone, lagLeft, hlag]
            · simp [rest, front, hdone, lagLeft, hlag]

/-- What is taken off the front of what is left, and all of it if there is less than was asked
for. -/
structure Taken (past : List Change) (sub : Subscription) (limit : Nat) (ds : List Delivery)
    (ended : Bool) (sub' : Subscription) : Prop where
  rest : sub.rest past = ds ++ sub'.rest (past ++ changesOf ds)
  faithful : Faithful (past ++ changesOf ds) sub'
  registered : sub'.isRegistered = sub.isRegistered
  hasLagged : sub'.hasLagged = sub.hasLagged
  all : (sub.rest past).length < limit → ds = sub.rest past ∧ ended = !sub.isRegistered

theorem Faithful.take (h : Faithful past sub) (limit : Nat) :
    Taken past sub limit (sub.take limit).1 (sub.take limit).2.1 (sub.take limit).2.2 := by
  induction limit generalizing past sub with
  | zero =>
    exact ⟨by simp [Subscription.take], by simpa [Subscription.take] using h, rfl, rfl, by simp⟩
  | succ limit ih =>
    have hnext := h.next
    rw [Subscription.take]
    generalize hn : sub.next = found at hnext
    obtain ⟨poll, sub'⟩ := found
    cases hnext with
    | item d _ hrest hfaithful hreg hlag =>
      have ht := ih hfaithful
      dsimp only
      constructor
      · rw [hrest, ht.rest, List.append_assoc, ← changesOf_append]
        rfl
      · have hf := ht.faithful
        rw [List.append_assoc, ← changesOf_append] at hf
        exact hf
      · rw [ht.registered, hreg]
      · rw [ht.hasLagged, hlag]
      · intro hlt
        rw [hrest, List.length_cons] at hlt
        obtain ⟨hds, hended⟩ := ht.all (by omega)
        rw [hrest, hended, hreg]
        exact ⟨congrArg (d :: ·) hds, rfl⟩
    | pending _ hrest hrest' hfaithful hreg hreg' hlag =>
      exact ⟨by simp [hrest, hrest'], by simpa using hfaithful, hreg.trans hreg'.symm, hlag,
        fun _ => ⟨hrest.symm, by simp [hreg']⟩⟩
    | ended _ hrest hrest' hfaithful hreg hreg' hlag =>
      exact ⟨by simp [hrest, hrest'], by simpa using hfaithful, hreg.trans hreg'.symm, hlag,
        fun _ => ⟨hrest.symm, by simp [hreg']⟩⟩

/-- A poll without a limit asks for more than is left. -/
theorem length_rest_lt_bound (past : List Change) (sub : Subscription) :
    (sub.rest past).length < sub.bound := by
  have hreplay := (newsAfter_sublist past sub.replay).length_le
  have hqueue := (newsAfter_sublist (past ++ newsAfter past sub.replay) sub.queue).length_le
  have hdone : (if sub.replayDone then [] else [Delivery.replayComplete]).length ≤ 1 := by
    split <;> simp
  have hlag : sub.lagLeft.length ≤ 1 := by
    rw [lagLeft]
    split <;> simp
  simp only [rest, front, bound, List.length_append, List.length_map]
  omega

/-- What can happen to a subscription. -/
inductive Input
  | offer (c : Change)
  | replay (cs : List Change)
  | poll (limit : Option Nat)
  | shut

def step (capacity : Nat) (sub : Subscription) : Input → Subscription
  | .offer c => sub.offer capacity c
  | .replay cs => { sub with replay := cs }
  | .poll limit => (sub.take (limit.getD sub.bound)).2.2
  | .shut => { sub with isRegistered := false }

def yielded (sub : Subscription) : Input → List Delivery
  | .poll limit => (sub.take (limit.getD sub.bound)).1
  | _ => []

/-- The announcement that is made to a subscription, with the number of those still queued. -/
def offered (isOpen : Bool) (sub : Subscription) : Input → List (Change × Nat)
  | .offer c => if isOpen then [(c, sub.queue.length)] else []
  | _ => []

/-- Whether the feed is open after an input. -/
def staysOpen (isOpen : Bool) : Input → Bool
  | .shut => false
  | _ => isOpen

/-- The announcements before the first that finds the queue full. -/
def fitting (capacity : Nat) (offers : List (Change × Nat)) : List Change :=
  (offers.takeWhile (·.2 < capacity)).map (·.1)

def overflows (capacity : Nat) (offers : List (Change × Nat)) : Bool := offers.any (capacity ≤ ·.2)

theorem overflows_append (capacity : Nat) (offers more : List (Change × Nat)) :
    overflows capacity (offers ++ more) = (overflows capacity offers || overflows capacity more) :=
  List.any_append

private theorem takeWhile_of_fits {capacity : Nat} {offers : List (Change × Nat)}
    (h : overflows capacity offers = false) : offers.takeWhile (·.2 < capacity) = offers := by
  have hfit : ∀ o ∈ offers, decide (o.2 < capacity) = true := by simpa [overflows] using h
  have hall : (offers ++ []).takeWhile (·.2 < capacity) = offers ++ [].takeWhile (·.2 < capacity) :=
    List.takeWhile_append_of_pos hfit
  simpa using hall

/-- Nothing is lost unless a queue was full. -/
theorem fitting_eq_map {capacity : Nat} {offers : List (Change × Nat)}
    (h : overflows capacity offers = false) :
    fitting capacity offers = offers.map (·.1) := by
  rw [fitting, takeWhile_of_fits h]

private theorem fitting_append {capacity : Nat} {offers : List (Change × Nat)}
    (h : overflows capacity offers = false) (more : List (Change × Nat)) :
    fitting capacity (offers ++ more) = fitting capacity offers ++ fitting capacity more := by
  rw [fitting, List.takeWhile_append, if_pos (by rw [takeWhile_of_fits h]), List.map_append,
    fitting_eq_map h]
  rfl

private theorem fitting_append_of_overflows {capacity : Nat} {offers : List (Change × Nat)}
    (h : overflows capacity offers = true) (more : List (Change × Nat)) :
    fitting capacity (offers ++ more) = fitting capacity offers := by
  induction offers with
  | nil => cases h
  | cons o offers ih =>
    by_cases ho : o.2 < capacity
    · have hrest : overflows capacity offers = true := by
        simpa [overflows, Nat.not_le.2 ho] using h
      have hmap := ih hrest
      simp only [fitting] at hmap
      simp [fitting, ho, hmap]
    · simp [fitting, ho]

/-- A subscription is registered until the feed is closed or its queue has overflown. -/
structure Gate (capacity : Nat) (isOpen : Bool) (offers : List (Change × Nat))
    (sub : Subscription) : Prop where
  registered : sub.isRegistered = (isOpen && !overflows capacity offers)
  hasLagged : sub.hasLagged = overflows capacity offers

variable {capacity : Nat} {isOpen : Bool} {offers : List (Change × Nat)}

/-- An announcement is queued, or it leaves the subscription out of the registry. -/
theorem Gate.offer (h : Gate capacity isOpen offers sub) (c : Change) :
    Gate capacity isOpen (offers ++ sub.offered isOpen (.offer c)) (sub.offer capacity c) ∧
      ((sub.isRegistered = true ∧ sub.offer capacity c = { sub with queue := sub.queue ++ [c] } ∧
          fitting capacity (offers ++ sub.offered isOpen (.offer c)) =
            fitting capacity offers ++ [c]) ∨
        (sub.offer capacity c = { sub with
            isRegistered := false
            hasLagged := overflows capacity (offers ++ sub.offered isOpen (.offer c)) } ∧
          fitting capacity (offers ++ sub.offered isOpen (.offer c)) =
            fitting capacity offers)) := by
  obtain ⟨hreg, hlag⟩ := h
  cases isOpen with
  | false =>
    have hreg : sub.isRegistered = false := hreg
    have hsub : sub.offer capacity c = sub := by simp [Subscription.offer, hreg]
    have hoffers : offers ++ sub.offered false (.offer c) = offers := List.append_nil _
    rw [hsub, hoffers]
    exact ⟨⟨hreg, hlag⟩, .inr ⟨by rw [← hreg, ← hlag], rfl⟩⟩
  | true =>
    have hreg : sub.isRegistered = !overflows capacity offers := hreg
    have hoffers : sub.offered true (.offer c) = [(c, sub.queue.length)] := rfl
    rw [hoffers]
    cases hover : overflows capacity offers with
    | true =>
      rw [hover] at hreg hlag
      have hreg : sub.isRegistered = false := hreg
      have hsub : sub.offer capacity c = sub := by simp [Subscription.offer, hreg]
      have hover' : overflows capacity (offers ++ [(c, sub.queue.length)]) = true := by
        simp [overflows_append, hover]
      rw [hsub, hover', fitting_append_of_overflows hover]
      exact ⟨⟨by rw [hreg, hover']; rfl, by rw [hlag, hover']⟩, .inr ⟨by rw [← hreg, ← hlag], rfl⟩⟩
    | false =>
      rw [hover] at hreg hlag
      have hreg : sub.isRegistered = true := hreg
      rw [fitting_append hover]
      by_cases hroom : sub.queue.length < capacity
      · have hsub : sub.offer capacity c = { sub with queue := sub.queue ++ [c] } := by
          simp [Subscription.offer, hreg, hroom]
        have hover' : overflows capacity (offers ++ [(c, sub.queue.length)]) = false := by
          rw [overflows_append, hover]
          simpa [overflows] using hroom
        rw [hsub]
        exact ⟨⟨by simp [hreg, hover'], by simp [hlag, hover']⟩,
          .inl ⟨hreg, rfl, by simp [fitting, hroom]⟩⟩
      · have hsub :
          sub.offer capacity c = { sub with isRegistered := false, hasLagged := true } := by
          simp [Subscription.offer, hreg, hroom]
        have hover' : overflows capacity (offers ++ [(c, sub.queue.length)]) = true := by
          simp only [overflows, List.any_append, List.any_cons, Bool.or_eq_true, decide_eq_true_eq]
          exact .inr (.inl (Nat.not_lt.1 hroom))
        rw [hsub, hover']
        exact ⟨⟨by simp [hover'], by simp [hover']⟩, .inr ⟨rfl, by simp [fitting, hroom]⟩⟩

/-- A subscription that is registered and has its replay still to begin. -/
structure Waiting (capacity : Nat) (isOpen : Bool) (offers : List (Change × Nat))
    (sub : Subscription) : Prop
    extends Gate capacity isOpen offers sub where
  replay : sub.replay = []
  replayDone : sub.replayDone = false
  seen : sub.seen = {}
  lagReported : sub.lagReported = false
  queue : sub.queue = fitting capacity offers

/-- A subscription that has yielded `ys`, and will make up the transcript of its
replay and of what it took. -/
structure Served (capacity : Nat) (isOpen : Bool) (replay : List Change)
    (offers : List (Change × Nat)) (ys : List Delivery) (sub : Subscription) :
    Prop extends Gate capacity isOpen offers sub where
  faithful : Faithful (changesOf ys) sub
  whole : ys ++ sub.rest (changesOf ys) =
    transcript (newsAfter [] replay) (fitting capacity offers) (overflows capacity offers)

theorem waiting_new (capacity id : Nat) : Waiting capacity true [] { id } :=
  ⟨⟨rfl, rfl⟩, rfl, rfl, rfl, rfl, rfl⟩

theorem Gate.of_registered (h : Gate capacity isOpen offers sub) (hreg : sub.isRegistered = true) :
    isOpen = true ∧ overflows capacity offers = false := by
  have hr := h.registered
  rw [hreg, eq_comm, Bool.and_eq_true, Bool.not_eq_true'] at hr
  exact hr

theorem Gate.shut (h : Gate capacity isOpen offers sub) :
    Gate capacity false offers { sub with isRegistered := false } :=
  ⟨rfl, h.hasLagged⟩

theorem Waiting.offer (h : Waiting capacity isOpen offers sub) (c : Change) :
    Waiting capacity isOpen (offers ++ sub.offered isOpen (.offer c)) (sub.offer capacity c) := by
  obtain ⟨hgate, ⟨-, hsub, hfit⟩ | ⟨hsub, hfit⟩⟩ := h.toGate.offer c
  · refine ⟨hgate, ?_, ?_, ?_, ?_, ?_⟩ <;> rw [hsub]
    · exact h.replay
    · exact h.replayDone
    · exact h.seen
    · exact h.lagReported
    · rw [hfit, h.queue]
  · refine ⟨hgate, ?_, ?_, ?_, ?_, ?_⟩ <;> rw [hsub]
    · exact h.replay
    · exact h.replayDone
    · exact h.seen
    · exact h.lagReported
    · rw [hfit, h.queue]

theorem Waiting.shut (h : Waiting capacity isOpen offers sub) :
    Waiting capacity false offers { sub with isRegistered := false } :=
  { h with toGate := h.toGate.shut }

theorem Waiting.beginReplay (h : Waiting capacity isOpen offers sub) (replay : List Change) :
    Served capacity isOpen replay offers [] { sub with replay } where
  registered := h.registered
  hasLagged := h.hasLagged
  faithful := by
    refine ⟨?_, fun hlag => ?_, fun hrep => ?_⟩
    · rw [h.seen]
      exact tracks_empty
    · rw [h.registered, ← h.hasLagged, hlag]
      simp
    · rw [h.lagReported] at hrep
      cases hrep
  whole := by
    have hlag : { sub with replay }.lagLeft = if overflows capacity offers
        then [.lagged] else [] := by
      rw [lagLeft, h.lagReported, h.hasLagged]
      simp
    rw [rest, front, hlag, h.replayDone, h.queue]
    simp [transcript]

/-- What is left and what was yielded are together all that the transcript tells of changes. -/
private theorem Served.changes {replay : List Change} {ys : List Delivery}
    (h : Served capacity isOpen replay offers ys sub) :
    changesOf ys ++ newsAfter (changesOf ys) sub.replay ++
        newsAfter (changesOf ys ++ newsAfter (changesOf ys) sub.replay) sub.queue =
      newsAfter [] replay ++ newsAfter (newsAfter [] replay) (fitting capacity offers) := by
  have hwhole := congrArg changesOf h.whole
  have hdone : changesOf (if sub.replayDone then [] else [.replayComplete]) = [] := by
    split <;> rfl
  have hlag : changesOf sub.lagLeft = [] := by
    rw [lagLeft]
    split <;> rfl
  simpa [changesOf_transcript, rest, front, hdone, hlag] using hwhole

namespace Served
variable {replay : List Change} {ys : List Delivery}

theorem offer (h : Served capacity isOpen replay offers ys sub) (c : Change) :
    Served capacity isOpen replay (offers ++ sub.offered isOpen (.offer c)) ys
      (sub.offer capacity c) := by
  obtain ⟨hgate, ⟨hreg, hsub, hfit⟩ | ⟨hsub, hfit⟩⟩ := h.toGate.offer c
  · -- the change goes to the end of the queue and of what is left, as no lag is to be told
    have hleft : sub.lagLeft = [] := h.faithful.lagLeft_of_registered hreg
    obtain ⟨-, hlag⟩ := h.toGate.of_registered hreg
    have hlag' : overflows capacity (offers ++ sub.offered isOpen (.offer c)) = false := by
      rw [← hgate.hasLagged, hsub, ← hlag, ← h.hasLagged]
    refine ⟨hgate, ?_, ?_⟩
    · rw [hsub]
      exact ⟨h.faithful.tracks, h.faithful.lagged, h.faithful.reported⟩
    · have hwhole := h.whole
      rw [hlag] at hwhole
      rw [hsub, hfit, hlag', rest_append_queue _ _ hleft, transcript_append, ← List.append_assoc,
        hwhole, h.changes]
  · refine ⟨hgate, ?_, ?_⟩
    · rw [hsub]
      refine ⟨h.faithful.tracks, fun _ => rfl, fun hrep => ?_⟩
      have hlag : overflows capacity offers = true := by
        rw [← h.hasLagged]
        exact h.faithful.reported hrep
      exact (overflows_append capacity offers _).trans (by rw [hlag, Bool.true_or])
    · have hwhole := h.whole
      rw [hsub, hfit]
      cases hlag : overflows capacity offers with
      | true =>
        have hlag' : overflows capacity (offers ++ sub.offered isOpen (.offer c)) = true := by
          rw [overflows_append, hlag, Bool.true_or]
        have hsame :
            { sub with isRegistered := false, hasLagged := true }.lagLeft = sub.lagLeft := by
          rw [lagLeft, lagLeft, h.hasLagged, hlag]
        rw [hlag] at hwhole
        rw [hlag', rest, hsame]
        exact hwhole
      | false =>
        have hrep : sub.lagReported = false := by
          cases hr : sub.lagReported with
          | false => rfl
          | true =>
            have hlagged := h.hasLagged
            rw [h.faithful.reported hr, hlag] at hlagged
            cases hlagged
        have hleft (l : Bool) : { sub with isRegistered := false, hasLagged := l }.lagLeft =
            if l then [.lagged] else [] := by
          rw [lagLeft, hrep, Bool.not_false, Bool.and_true]
        have hnone : sub.lagLeft = [] := by
          rw [lagLeft, h.hasLagged, hlag, Bool.false_and]
          rfl
        rw [rest, hnone, hlag, List.append_nil] at hwhole
        rw [rest, hleft, transcript_eq, ← List.append_assoc, ← hwhole]
        rfl

theorem poll (h : Served capacity isOpen replay offers ys sub) (limit : Nat) :
    Served capacity isOpen replay offers (ys ++ (sub.take limit).1) (sub.take limit).2.2 := by
  have ht := h.faithful.take limit
  refine ⟨⟨?_, ?_⟩, ?_, ?_⟩
  · rw [ht.registered, h.registered]
  · rw [ht.hasLagged, h.hasLagged]
  · rw [changesOf_append]
    exact ht.faithful
  · rw [changesOf_append, List.append_assoc, ← ht.rest, h.whole]

theorem shut (h : Served capacity isOpen replay offers ys sub) :
    Served capacity false replay offers ys { sub with isRegistered := false } where
  toGate := h.toGate.shut
  faithful := ⟨h.faithful.tracks, fun _ => rfl, h.faithful.reported⟩
  whole := h.whole

/-- Nothing that happens to a subscription takes it off its transcript, unless
a replay begins anew. -/
theorem step (h : Served capacity isOpen replay offers ys sub) (i : Input)
    (hi : ∀ cs, i ≠ .replay cs) :
    Served capacity (staysOpen isOpen i) replay (offers ++ sub.offered isOpen i)
      (ys ++ sub.yielded i) (sub.step capacity i) := by
  cases i with
  | offer c => simpa [Subscription.step, staysOpen, yielded] using h.offer c
  | replay cs => exact absurd rfl (hi cs)
  | poll limit =>
    simpa [Subscription.step, staysOpen, offered, yielded] using h.poll (limit.getD sub.bound)
  | shut => simpa [Subscription.step, staysOpen, offered, yielded] using h.shut

/-- A poll without a limit completes the transcript, and tells whether anything can follow. -/
theorem drain (h : Served capacity isOpen replay offers ys sub) :
    ys ++ sub.yielded (.poll none) =
        transcript (newsAfter [] replay) (fitting capacity offers) (overflows capacity offers) ∧
      (sub.take sub.bound).2.1 = !(isOpen && !overflows capacity offers) := by
  obtain ⟨hds, hended⟩ := (h.faithful.take sub.bound).all (length_rest_lt_bound _ sub)
  refine ⟨?_, by rw [hended, h.registered]⟩
  rw [yielded, Option.getD_none, hds, h.whole]

/-- What was passed on so far is the news of the first of all that was replayed and announced. -/
theorem exists_prefix (h : Served capacity isOpen replay offers ys sub) :
    ∃ ds, ds <+: replay ++ offers.map (·.1) ∧ changesOf ys = newsAfter [] ds := by
  have hall := h.changes
  rw [List.append_assoc] at hall
  have hfront : changesOf ys <+: newsAfter [] (replay ++ fitting capacity offers) := by
    rw [newsAfter_append]
    exact ⟨_, hall⟩
  obtain ⟨ds, hds, hys⟩ := exists_prefix_newsAfter hfront
  have hfits : fitting capacity offers <+: offers.map (·.1) := (List.takeWhile_prefix _).map _
  exact ⟨ds, hds.trans ((List.prefix_append_right_inj replay).2 hfits), hys⟩

/-- What was passed on of one formation came in order of the versions, none twice. -/
theorem increasing (h : Served capacity isOpen replay offers ys sub) :
    Increasing (changesOf ys) := by
  have hall : Increasing
      (newsAfter [] replay ++ newsAfter (newsAfter [] replay) (fitting capacity offers)) :=
    (increasing_newsAfter replay).append_newsAfter _
  rw [← h.changes] at hall
  exact (List.pairwise_append.1 (List.pairwise_append.1 hall).1).1

end Served
end Subscription
end ControlPlane
