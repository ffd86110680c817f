import ControlPlane.Proofs.Feed.Hub

/-! # A subscription over a run

Each event is at most one input to a subscription, so a run that registers it, reads its replay and
goes on to poll it carries it along its transcript.
-/
namespace ControlPlane
open Subscription

namespace Subscription

private theorem next_id (sub : Subscription) : sub.next.2.id = sub.id := by
  unfold next
  split
  · rfl
  · dsimp only
    split
    · rfl
    · split
      · rfl
      · split
        · rfl
        · split <;> rfl

private theorem take_id (limit : Nat) (sub : Subscription) : (sub.take limit).2.2.id = sub.id := by
  induction limit generalizing sub with
  | zero => rfl
  | succ limit ih =>
    have hid := sub.next_id
    rw [take]
    generalize sub.next = found at hid
    obtain ⟨d | _ | _, sub'⟩ := found
    · exact (ih sub').trans hid
    · exact hid
    · exact hid

private theorem offer_id (capacity : Nat) (c : Change) (sub : Subscription) :
    (sub.offer capacity c).id = sub.id := by
  unfold offer
  split
  · rfl
  · split <;> rfl

end Subscription

namespace Feed

/-- Identifiers of subscriptions are below the next one. -/
def Numbered (feed : Feed) : Prop := ∀ sub ∈ feed.subscriptions, sub.id < feed.nextId

theorem id_of_subscription? {feed : Feed} {id : Nat} {sub : Subscription}
    (h : feed.subscription? id = some sub) :
    sub.id = id := by
  simpa using List.find?_some h

private theorem find?_map {g : Subscription → Subscription} (hg : ∀ sub, (g sub).id = sub.id)
    (id : Nat) (subs : List Subscription) :
    (subs.map g).find? (·.id == id) = (subs.find? (·.id == id)).map g := by
  rw [List.find?_map]
  congr 2
  funext sub
  simp [hg]

/-- A change of some of the subscriptions that leaves their identifiers. -/
private theorem subscription?_map {feed : Feed} {id : Nat} {sub : Subscription}
    {g : Subscription → Subscription} (hg : ∀ sub, (g sub).id = sub.id)
    (h : feed.subscription? id = some sub) :
    { feed with subscriptions := feed.subscriptions.map g }.subscription? id = some (g sub) := by
  rw [subscription?, find?_map hg]
  exact congrArg (Option.map g) h

private theorem subscription?_update {feed : Feed} {id id' : Nat} {sub : Subscription}
    {f : Subscription → Subscription} (hf : ∀ sub, sub.id = id' → (f sub).id = sub.id)
    (h : feed.subscription? id = some sub) :
    (feed.update id' f).subscription? id = some (if id' = id then f sub else sub) := by
  have hid := id_of_subscription? h
  rw [update, subscription?_map ?_ h, hid]
  · by_cases he : id' = id
    · subst he; simp
    · simp [he, Ne.symm he]
  · intro sub
    split
    · next he => exact hf sub he
    · rfl

theorem Numbered.subscription?_nextId {feed : Feed} (h : feed.Numbered) :
    feed.subscription? feed.nextId = none := by
  refine List.find?_eq_none.2 fun sub hsub => ?_
  have hlt := h sub hsub
  simp only [beq_iff_eq]
  omega

private theorem Numbered.map {feed : Feed} (h : feed.Numbered) {g : Subscription → Subscription}
    (hg : ∀ sub, (g sub).id = sub.id) :
    { feed with subscriptions := feed.subscriptions.map g }.Numbered := by
  intro sub hsub
  obtain ⟨sub', hsub', rfl⟩ := List.mem_map.1 hsub
  rw [hg]
  exact h sub' hsub'

theorem announce_eq (feed : Feed) (s : Store) (r : FormationRecord) :
    feed.announce s r = (Change.expand? s r).elim feed feed.announceChange := by
  unfold announce
  cases Change.expand? s r <;> rfl

end Feed

namespace Hub
variable {h : Hub} {id : Nat} {e : Event} {sub : Subscription}

private theorem feed_step_announce (r : FormationRecord) :
    (h.step (.announce r)).feed = (h.offered (.announce r)).elim h.feed h.feed.announceChange :=
  h.feed.announce_eq h.store r

private theorem feed_step_put (m : Moment) (formation : Formation) :
    (h.step (.put m formation)).feed =
      (h.offered (.put m formation)).elim h.feed h.feed.announceChange := by
  rw [step_put, offered, announced, committed, step_put]
  simp only [Event.write?, Option.bind_some]
  cases (h.store.perform m (.putFormation formation)).2 with
  | none => rfl
  | some r => exact h.feed.announce_eq _ r

private theorem feed_step_delete (m : Moment) (app release : String) :
    (h.step (.delete m app release)).feed =
      (h.offered (.delete m app release)).elim h.feed h.feed.announceChange := by
  rw [step_delete, offered, announced, committed, step_delete]
  simp only [Event.write?, Option.bind_some]
  cases (h.store.perform m (.deleteFormation app release)).2 with
  | none => rfl
  | some r => exact h.feed.announce_eq _ r

/-- What a step does to the feed: nothing, an announcement, or what its event names. -/
theorem feed_step (h : Hub) (e : Event) : (h.step e).feed = match e with
    | .write .. => h.feed
    | .register => (h.feed.register.toOption).elim h.feed (·.2)
    | .beginReplay id since => h.feed.beginReplay h.store id since
    | .poll id limit => (h.feed.poll id limit).2.2
    | .drop id => h.feed.drop id
    | .close => h.feed.close
    | .announce .. | .put .. | .delete .. => (h.offered e).elim h.feed h.feed.announceChange := by
  cases e with
  | announce r => exact feed_step_announce r
  | put m formation => exact feed_step_put m formation
  | delete m app release => exact feed_step_delete m app release
  | register =>
    simp only [step]
    cases h.feed.register <;> rfl
  | _ => rfl

/-- What an event does to the list of subscriptions. -/
inductive Turnover (feed : Feed) : Event → Feed → Prop
  | register (hopen : feed.closed = false) : Turnover feed .register
      { feed with
        nextId := feed.nextId + 1
        subscriptions := feed.subscriptions ++ [{ id := feed.nextId }] }
  | refuse (hclosed : feed.closed = true) : Turnover feed .register feed
  | drop (id : Nat) : Turnover feed (.drop id) (feed.drop id)
  | close : Turnover feed .close feed.close
  | inPlace (e : Event) (g : Subscription → Subscription) (hid : ∀ sub, (g sub).id = sub.id)
      (hregister : e ≠ .register) (hdrop : ∀ id, e ≠ .drop id) (hclose : e ≠ .close) :
      Turnover feed e { feed with subscriptions := feed.subscriptions.map g }

theorem turnover_step (h : Hub) (e : Event) : Turnover h.feed e (h.step e).feed := by
  have hsame {e : Event} (hregister : e ≠ .register) (hdrop : ∀ id, e ≠ .drop id)
      (hclose : e ≠ .close) : Turnover h.feed e h.feed := by
    have hinPlace :
        Turnover h.feed e { h.feed with subscriptions := h.feed.subscriptions.map id } :=
      .inPlace e id (fun _ => rfl) hregister hdrop hclose
    rwa [List.map_id] at hinPlace
  have hoffer {e : Event} (c? : Option Change) (hregister : e ≠ .register)
      (hdrop : ∀ id, e ≠ .drop id)
        (hclose : e ≠ .close) : Turnover h.feed e (c?.elim h.feed h.feed.announceChange) := by
    cases c? with
    | none => exact hsame hregister hdrop hclose
    | some c => exact .inPlace e _ (offer_id h.feed.capacity c) hregister hdrop hclose
  rw [feed_step]
  cases e with
  | write m w => exact hsame nofun nofun nofun
  | announce r => exact hoffer _ nofun nofun nofun
  | put m formation => exact hoffer _ nofun nofun nofun
  | delete m app release => exact hoffer _ nofun nofun nofun
  | register =>
    simp only [Feed.register]
    split
    · next hclosed => exact .refuse hclosed
    · next hopen => exact .register (Bool.not_eq_true _ ▸ hopen)
  | beginReplay id since =>
    refine .inPlace _ _ (fun sub => ?_) nofun nofun nofun
    dsimp only
    split <;> rfl
  | poll id limit =>
    simp only [Feed.poll]
    split
    · exact hsame nofun nofun nofun
    · next sub hsub =>
      refine .inPlace _ _ (fun sub' => ?_) nofun nofun nofun
      dsimp only
      split
      · next he => rw [take_id, Feed.id_of_subscription? hsub, he]
      · rfl
  | drop id => exact .drop id
  | close => exact .close

namespace Turnover
variable {feed feed' : Feed}

theorem capacity_eq (t : Turnover feed e feed') : feed'.capacity = feed.capacity := by
  cases t <;> rfl

theorem nextId_le (t : Turnover feed e feed') : feed.nextId ≤ feed'.nextId := by
  cases t with
  | register => exact Nat.le_succ _
  | _ => exact Nat.le_refl _

theorem numbered (t : Turnover feed e feed') (hn : feed.Numbered) : feed'.Numbered := by
  cases t with
  | register =>
    intro sub hsub
    obtain hsub | hsub := List.mem_append.1 hsub
    · exact Nat.lt_succ_of_lt (hn sub hsub)
    · rw [List.mem_singleton.1 hsub]
      exact Nat.lt_succ_self _
  | refuse => exact hn
  | drop id => exact fun sub hsub => hn sub (List.mem_filter.1 hsub).1
  | close => exact hn.map fun _ => rfl
  | inPlace _ g hid => exact hn.map hid

end Turnover

theorem numbered_step (hn : h.feed.Numbered) (e : Event) : (h.step e).feed.Numbered :=
  (h.turnover_step e).numbered hn

theorem capacity_step (h : Hub) (e : Event) : (h.step e).feed.capacity = h.feed.capacity :=
  (h.turnover_step e).capacity_eq

/-- A step puts its input, if any, to a subscription that it does not drop. -/
theorem subscription?_step (hsub : h.feed.subscription? id = some sub) (hkeep : e ≠ .drop id) :
    (h.step e).feed.subscription? id =
      some ((h.input id e).elim sub (sub.step h.feed.capacity)) := by
  have hoffer (c? : Option Change) : (c?.elim h.feed h.feed.announceChange).subscription? id =
      some ((c?.map Input.offer).elim sub (sub.step h.feed.capacity)) := by
    cases c? with
    | none => exact hsub
    | some c => exact Feed.subscription?_map (offer_id h.feed.capacity c) hsub
  rw [feed_step]
  cases e with
  | write m w => exact hsub
  | announce r => exact hoffer _
  | put m formation => exact hoffer _
  | delete m app release => exact hoffer _
  | register =>
    change ((h.feed.register.toOption).elim h.feed (·.2)).subscription? id = some sub
    unfold Feed.register
    split
    · exact hsub
    · simp only [Feed.subscription?] at hsub
      simp [Feed.subscription?, List.find?_append, Except.toOption, hsub]
  | beginReplay id' since =>
    refine (Feed.subscription?_update
      (f := fun sub => { sub with replay := Feed.replayOf h.store since })
        (fun _ _ => rfl) hsub).trans ?_
    rw [input]
    split <;> rfl
  | poll id' limit =>
    simp only [Feed.poll, input]
    cases hsub' : h.feed.subscription? id' with
    | none =>
      have hne : id' ≠ id := fun he => by rw [he, hsub] at hsub'; cases hsub'
      simpa [hne] using hsub
    | some sub' =>
      have hid : ∀ other : Subscription, other.id = id' →
          (sub'.take (limit.getD sub'.bound)).2.2.id = other.id := by
        intro other hother
        rw [take_id, Feed.id_of_subscription? hsub', hother]
      dsimp only
      rw [Feed.subscription?_update hid hsub]
      by_cases he : id' = id
      · rw [he, hsub] at hsub'
        cases hsub'
        simp [he, Subscription.step]
      · simp [he]
  | drop id' =>
    have hne : id' ≠ id := fun he => hkeep (by rw [he])
    have hpred :
        (fun sub : Subscription => decide ((sub.id != id') = true ∧ (sub.id == id) = true)) =
        fun sub => sub.id == id := by
      funext sub
      by_cases he : sub.id = id <;> simp [he, Ne.symm hne]
    change (h.feed.subscriptions.filter (·.id != id')).find? (·.id == id) = some sub
    rw [List.find?_filter, hpred]
    exact hsub
  | close => exact Feed.subscription?_map (fun _ => rfl) hsub

/-- The feed stays open until an input shuts it. -/
theorem closed_step (h : Hub) (id : Nat) (e : Event) :
    (!(h.step e).feed.closed) =
      (h.input id e).elim (!h.feed.closed) (staysOpen (!h.feed.closed)) := by
  have hoffer (c? : Option Change) : (!(c?.elim h.feed h.feed.announceChange).closed) =
      (c?.map Input.offer).elim (!h.feed.closed) (staysOpen (!h.feed.closed)) := by
    cases c? <;> rfl
  rw [feed_step]
  cases e with
  | announce r => exact hoffer _
  | put m formation => exact hoffer _
  | delete m app release => exact hoffer _
  | register =>
    simp only [Feed.register]
    split <;> rfl
  | beginReplay id' since =>
    simp only [input]
    split <;> rfl
  | poll id' limit =>
    simp only [Feed.poll, input]
    split <;> split <;> rfl
  | _ => rfl

theorem offeredTo_eq (hsub : h.feed.subscription? id = some sub) :
    h.offeredTo id e = (h.input id e).elim [] (sub.offered (!h.feed.closed)) := by
  have hoffer (e : Event) (hi : h.input id e = (h.offered e).map .offer) :
      h.offeredTo id e = (h.input id e).elim [] (sub.offered (!h.feed.closed)) := by
    rw [offeredTo, hsub, hi]
    cases h.offered e with
    | none => rfl
    | some c => cases hc : h.feed.closed <;> simp [Subscription.offered]
  cases e with
  | announce r => exact hoffer _ rfl
  | put m formation => exact hoffer _ rfl
  | delete m app release => exact hoffer _ rfl
  | beginReplay id' since =>
    change [] = _
    simp only [input]
    split <;> rfl
  | poll id' limit =>
    change [] = _
    simp only [input]
    split <;> rfl
  | _ => rfl

/-- A replay is put to a subscription by one event only. -/
theorem beginReplay_of_input {cs : List Change} (hi : h.input id e = some (.replay cs)) :
    ∃ since, e = .beginReplay id since := by
  have hoffer (c? : Option Change) : c?.map Input.offer ≠ some (.replay cs) := by
    cases c? <;> simp
  cases e with
  | beginReplay id' since =>
    rw [input] at hi
    split at hi
    · next heq => exact ⟨since, by rw [heq]⟩
    · cases hi
  | poll id' limit =>
    rw [input] at hi
    split at hi <;> cases hi
  | announce r => exact absurd hi (hoffer _)
  | put m formation => exact absurd hi (hoffer _)
  | delete m app release => exact absurd hi (hoffer _)
  | _ => cases hi

theorem yielded_eq (hsub : h.feed.subscription? id = some sub) :
    h.yielded id e = (h.input id e).elim [] sub.yielded := by
  have hoffer (c? : Option Change) : [] = (c?.map Input.offer).elim [] sub.yielded := by
    cases c? <;> rfl
  cases e with
  | announce r => exact hoffer _
  | put m formation => exact hoffer _
  | delete m app release => exact hoffer _
  | beginReplay id' since =>
    simp only [input, yielded]
    split <;> rfl
  | poll id' limit =>
    simp only [input, yielded, Feed.poll, hsub]
    split <;> rfl
  | _ => rfl

theorem numbered_run {es : List Event} (hn : h.feed.Numbered) : (h.run es).feed.Numbered := by
  induction es generalizing h with
  | nil => exact hn
  | cons e es ih => exact ih (numbered_step hn e)

theorem numbered_ofBuffer (size : Nat) : (ofBuffer size).feed.Numbered := by
  simp [Feed.Numbered, ofBuffer, Feed.ofBuffer]

theorem capacity_run (h : Hub) (es : List Event) : (h.run es).feed.capacity = h.feed.capacity := by
  induction es generalizing h with
  | nil => rfl
  | cons e es ih => rw [run_cons, ih, capacity_step]

section Run
variable {es : List Event} {os : List (Change × Nat)} {replay : List Change} {ys : List Delivery}

private theorem input_of_unconcerned (he : e.subscriber? ≠ some id) :
    h.input id e = none ∨ h.input id e = some .shut ∨ ∃ c, h.input id e = some (.offer c) := by
  have hoffer (c? : Option Change) : c?.map Input.offer = none ∨ c?.map Input.offer = some .shut ∨
      ∃ c, c?.map Input.offer = some (.offer c) := by
    cases c? with
    | none => exact .inl rfl
    | some c => exact .inr (.inr ⟨c, rfl⟩)
  cases e with
  | beginReplay id' since => exact .inl (if_neg fun heq => he (congrArg some heq))
  | poll id' limit => exact .inl (if_neg fun heq => he (congrArg some heq))
  | close => exact .inr (.inl rfl)
  | announce r => exact hoffer _
  | put m formation => exact hoffer _
  | delete m app release => exact hoffer _
  | _ => exact .inl rfl

/-- Until its replay begins, a subscription only takes what is announced. -/
theorem waiting_step (hsub : h.feed.subscription? id = some sub)
    (hw : Waiting h.feed.capacity (!h.feed.closed) os sub) (he : e.subscriber? ≠ some id) :
    ∃ sub', (h.step e).feed.subscription? id = some sub' ∧ h.yielded id e = [] ∧
      Waiting h.feed.capacity (!(h.step e).feed.closed) (os ++ h.offeredTo id e) sub' := by
  have hkeep : e ≠ .drop id := fun hd => he (by rw [hd]; rfl)
  rw [subscription?_step hsub hkeep, h.closed_step id e, offeredTo_eq hsub, yielded_eq hsub]
  obtain hnone | hshut | ⟨c, hoffer⟩ := input_of_unconcerned (h := h) he
  · rw [hnone]
    exact ⟨sub, rfl, rfl, by simpa using hw⟩
  · rw [hshut]
    exact ⟨_, rfl, rfl, by simpa [Subscription.offered, Subscription.step, staysOpen] using hw.shut⟩
  · rw [hoffer]
    exact ⟨_, rfl, rfl, hw.offer c⟩

theorem waiting_run (hsub : h.feed.subscription? id = some sub)
    (hw : Waiting h.feed.capacity (!h.feed.closed) os sub)
    (hes : ∀ e ∈ es, e.subscriber? ≠ some id) :
    ∃ sub', (h.run es).feed.subscription? id = some sub' ∧ h.yields id es = [] ∧
      Waiting h.feed.capacity (!(h.run es).feed.closed) (os ++ h.offers id es) sub' := by
  induction es generalizing h sub os with
  | nil => exact ⟨sub, hsub, rfl, by simpa [offers, trace, run] using hw⟩
  | cons e es ih =>
    obtain ⟨sub', hsub', hy, hw'⟩ := waiting_step hsub hw (hes e (by simp))
    rw [← h.capacity_step e] at hw'
    obtain ⟨sub'', hsub'', hys, hw''⟩ := ih hsub' hw' fun e he => hes e (by simp [he])
    rw [h.capacity_step e, List.append_assoc] at hw''
    exact ⟨sub'', hsub'', List.append_eq_nil_iff.2 ⟨hy, hys⟩, hw''⟩

/-- Once its replay has begun, polls take it along its transcript. -/
theorem served_step (hsub : h.feed.subscription? id = some sub)
    (hs : Served h.feed.capacity (!h.feed.closed) replay os ys sub)
    (he : e.subscriber? = some id → e.isPoll = true) :
    ∃ sub', (h.step e).feed.subscription? id = some sub' ∧
      Served h.feed.capacity (!(h.step e).feed.closed) replay (os ++ h.offeredTo id e)
        (ys ++ h.yielded id e) sub' := by
  have hkeep : e ≠ .drop id := by
    rintro rfl
    cases he rfl
  rw [subscription?_step hsub hkeep, h.closed_step id e, offeredTo_eq hsub, yielded_eq hsub]
  cases hi : h.input id e with
  | none => exact ⟨sub, rfl, by simpa using hs⟩
  | some i =>
    refine ⟨_, rfl, hs.step i ?_⟩
    rintro cs rfl
    obtain ⟨since, rfl⟩ := beginReplay_of_input hi
    cases he rfl

theorem served_run (hsub : h.feed.subscription? id = some sub)
    (hs : Served h.feed.capacity (!h.feed.closed) replay os ys sub)
    (hes : ∀ e ∈ es, e.subscriber? = some id → e.isPoll = true) :
    ∃ sub', (h.run es).feed.subscription? id = some sub' ∧
      Served h.feed.capacity (!(h.run es).feed.closed) replay (os ++ h.offers id es)
        (ys ++ h.yields id es) sub' := by
  induction es generalizing h sub os ys with
  | nil => exact ⟨sub, hsub, by simpa [offers, yields, trace, run] using hs⟩
  | cons e es ih =>
    obtain ⟨sub', hsub', hs'⟩ := served_step hsub hs (hes e (by simp))
    rw [← h.capacity_step e] at hs'
    obtain ⟨sub'', hsub'', hs''⟩ := ih hsub' hs' fun e he => hes e (by simp [he])
    rw [h.capacity_step e, List.append_assoc, List.append_assoc] at hs''
    exact ⟨sub'', hsub'', hs''⟩

/-- A subscription is registered, reads its replay after `between` and goes on with `after`. -/
def lifetime (id : Nat) (since : Instant) (between after : List Event) : List Event :=
  .register :: between ++ .beginReplay id since :: after

/-- The next subscription of an open feed reads its replay once, and then is only polled. -/
structure Subscribes (h : Hub) (id : Nat) (between after : List Event) : Prop where
  isOpen : h.feed.closed = false
  next : h.feed.nextId = id
  waits : ∀ e ∈ between, e.subscriber? ≠ some id
  polls : ∀ e ∈ after, e.subscriber? = some id → e.isPoll = true

instance (h : Hub) (id : Nat) (between after : List Event) :
    Decidable (h.Subscribes id between after) :=
  decidable_of_iff (h.feed.closed = false ∧ h.feed.nextId = id ∧
    (∀ e ∈ between, e.subscriber? ≠ some id) ∧
      ∀ e ∈ after, e.subscriber? = some id → e.isPoll = true)
    ⟨fun ⟨isOpen, next, waits, polls⟩ => ⟨isOpen, next, waits, polls⟩,
      fun ⟨isOpen, next, waits, polls⟩ => ⟨isOpen, next, waits, polls⟩⟩

/-- Where the replay of a subscription is read. -/
def atReplay (h : Hub) (between : List Event) : Hub := h.run (.register :: between)

theorem capacity_atReplay (h : Hub) (between : List Event) :
    (h.atReplay between).feed.capacity = h.feed.capacity :=
  capacity_run h _

theorem store_register (h : Hub) : (h.step .register).store = h.store := h.store_step .register

theorem closed_register (h : Hub) : (h.step .register).feed.closed = h.feed.closed :=
  Bool.not_inj (h.closed_step 0 .register)

theorem subscription?_register (hopen : h.feed.closed = false) (hn : h.feed.Numbered) :
    (h.step .register).feed.subscription? h.feed.nextId = some { id := h.feed.nextId } := by
  have hnone : h.feed.subscription? h.feed.nextId = none := hn.subscription?_nextId
  rw [Feed.subscription?] at hnone
  simp [step, Feed.register, hopen, Feed.subscription?, List.find?_append, hnone]

theorem Subscribes.waiting {between after : List Event} (hs : h.Subscribes id between after)
    (hn : h.feed.Numbered) :
    ∃ sub, (h.atReplay between).feed.subscription? id = some sub ∧
      h.yields id (.register :: between) = [] ∧
      Waiting h.feed.capacity (!(h.atReplay between).feed.closed)
        (h.offers id (.register :: between)) sub := by
  have hnew : (h.step .register).feed.subscription? id = some { id } := by
    rw [← hs.next]
    exact subscription?_register hs.isOpen hn
  have hwait :
      Waiting (h.step .register).feed.capacity (!(h.step .register).feed.closed) [] { id } := by
    rw [closed_register, hs.isOpen]
    exact waiting_new _ _
  obtain ⟨sub, hsub, hys, hw⟩ := waiting_run hnew hwait hs.waits
  rw [capacity_step] at hw
  exact ⟨sub, hsub, hys, hw⟩

theorem Subscribes.served {between after : List Event} (hs : h.Subscribes id between after)
    (hn : h.feed.Numbered) (since : Instant) :
    ∃ sub, (h.run (lifetime id since between after)).feed.subscription? id = some sub ∧
      Served h.feed.capacity (!(h.run (lifetime id since between after)).feed.closed)
        (Feed.replayOf (h.atReplay between).store since)
          (h.offers id (lifetime id since between after))
        (h.yields id (lifetime id since between after)) sub := by
  obtain ⟨sub, hsub, hys, hw⟩ := hs.waiting hn
  have hbegin := subscription?_step (e := .beginReplay id since) hsub (by simp)
  rw [input, if_pos rfl] at hbegin
  have hbegun := hw.beginReplay (Feed.replayOf (h.atReplay between).store since)
  rw [← h.capacity_atReplay between] at hbegun
  obtain ⟨sub', hsub', hserved⟩ := served_run hbegin hbegun hs.polls
  have hcap : ((h.atReplay between).step (.beginReplay id since)).feed.capacity = h.feed.capacity :=
    h.capacity_atReplay between
  have hrun : h.run (lifetime id since between after) =
      ((h.atReplay between).step (.beginReplay id since)).run after :=
    h.run_append (.register :: between) _
  have hoffers :
      h.offers id (lifetime id since between after) = h.offers id (.register :: between) ++
      ((h.atReplay between).step (.beginReplay id since)).offers id after :=
    trace_append _ h (.register :: between) _
  have hyields :
      h.yields id (lifetime id since between after) = h.yields id (.register :: between) ++
      ((h.atReplay between).step (.beginReplay id since)).yields id after :=
    trace_append _ h (.register :: between) _
  rw [hcap] at hserved
  rw [hrun, hoffers, hyields, hys]
  exact ⟨sub', hsub', hserved⟩

/-- To subscribe is to register and to read the replay at once. -/
theorem subscribe_eq (hopen : h.feed.closed = false) (since : Instant) :
    h.feed.subscribe h.store since =
    .ok (h.feed.nextId, (h.run (lifetime h.feed.nextId since [] [])).feed) := by
  have hregister : h.feed.register = .ok (h.feed.nextId, (h.step .register).feed) := by
    simp [step, Feed.register, hopen]
  rw [Feed.subscribe, hregister, ← h.store_register]
  rfl

end Run

end Hub
end ControlPlane
