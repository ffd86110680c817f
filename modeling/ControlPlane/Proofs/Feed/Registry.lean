import Mathlib.Data.List.Nodup
import ControlPlane.Proofs.Feed.Service

/-! # Who is in the registry

The registry is entered in one place and left in three: a subscription is dropped, an announcement
finds its queue full, or the feed is closed. (One whose replay could not be read is dropped as
well.) So at any time it is known from the run alone who is in it. Whoever is out of it is never let
in again, and has only what it holds already left to yield.
-/
namespace ControlPlane
open Subscription

namespace Subscription

def Poll.deliveries : Poll → List Delivery
  | item d => [d]
  | pending | ended => []

/-- What deliveries that are taken from a subscription change of it: the changes among
them were waiting in it. -/
structure Consumed (sub : Subscription) (ds : List Delivery) (sub' : Subscription) : Prop where
  registered : sub'.isRegistered = sub.isRegistered
  hasLagged : sub'.hasLagged = sub.hasLagged
  queue : sub'.queue <:+ sub.queue
  waiting : (changesOf ds ++ (sub'.replay ++ sub'.queue)).Sublist (sub.replay ++ sub.queue)

variable {sub sub' sub'' : Subscription} {ds ds' : List Delivery}

theorem Consumed.refl (sub : Subscription) : Consumed sub [] sub :=
  ⟨rfl, rfl, List.suffix_rfl, .refl _⟩

theorem Consumed.trans (h : Consumed sub ds sub') (h' : Consumed sub' ds' sub'') :
    Consumed sub (ds ++ ds') sub'' where
  registered := h'.registered.trans h.registered
  hasLagged := h'.hasLagged.trans h.hasLagged
  queue := h'.queue.trans h.queue
  waiting := by
    rw [changesOf_append, List.append_assoc]
    exact (h'.waiting.append_left _).trans h.waiting

/-- What is passed over was no news. -/
theorem suffix_of_takeNews {seen : Dict UInt64} {cs rest : List Change} {c : Change}
    (h : takeNews seen cs = some (c, rest)) : c :: rest <:+ cs := by
  induction cs with
  | nil => cases h
  | cons d cs ih =>
    rw [takeNews] at h
    split at h
    · cases h
      exact List.suffix_rfl
    · exact (ih h).trans (List.suffix_cons d cs)

theorem consumed_next (sub : Subscription) : Consumed sub sub.next.1.deliveries sub.next.2 := by
  unfold next
  split
  · next c replay hc =>
    exact ⟨rfl, rfl, List.suffix_rfl, (suffix_of_takeNews hc).sublist.append_right sub.queue⟩
  · dsimp only
    split
    · exact ⟨rfl, rfl, List.suffix_rfl, List.sublist_append_right _ _⟩
    · split
      · next c queue hc =>
        have hqueue := suffix_of_takeNews hc
        exact ⟨rfl, rfl, (List.suffix_cons c queue).trans hqueue,
          hqueue.sublist.trans (List.sublist_append_right _ _)⟩
      · -- nothing in the queue was news, and it is left empty
        split
        · exact ⟨rfl, rfl, List.nil_suffix, List.nil_sublist _⟩
        · split <;> exact ⟨rfl, rfl, List.nil_suffix, List.nil_sublist _⟩

theorem consumed_take (limit : Nat) (sub : Subscription) :
    Consumed sub (sub.take limit).1 (sub.take limit).2.2 := by
  induction limit generalizing sub with
  | zero => exact .refl sub
  | succ limit ih =>
    have hnext := sub.consumed_next
    rw [take]
    generalize sub.next = found at hnext
    obtain ⟨d | _ | _, sub'⟩ := found
    · exact hnext.trans (ih sub')
    · exact hnext
    · exact hnext

variable {capacity : Nat} {isOpen : Bool} {offers : List (Change × Nat)}

theorem gate_new (capacity id : Nat) : Gate capacity true [] { id } := ⟨rfl, rfl⟩

/-- Whether a subscription is registered follows from what was offered to it,
whatever else happens to it. -/
theorem Gate.step (h : Gate capacity isOpen offers sub) (i : Input) :
    Gate capacity (staysOpen isOpen i) (offers ++ sub.offered isOpen i) (sub.step capacity i) := by
  have hnone : offers ++ [] = offers := List.append_nil _
  cases i with
  | offer c => exact (h.offer c).1
  | replay cs => exact hnone.symm ▸ ⟨h.registered, h.hasLagged⟩
  | poll limit =>
    have htaken := consumed_take (limit.getD sub.bound) sub
    exact hnone.symm ▸ ⟨htaken.registered.trans h.registered, htaken.hasLagged.trans h.hasLagged⟩
  | shut => exact hnone.symm ▸ h.shut

/-- An announcement is queued only where there is room. -/
theorem length_queue_step (h : sub.queue.length ≤ capacity) (i : Input) :
    (sub.step capacity i).queue.length ≤ capacity := by
  cases i with
  | offer c =>
    rw [Subscription.step, offer]
    split
    · exact h
    · split
      · next hroom =>
        rw [List.length_append]
        exact hroom
      · exact h
  | replay cs => exact h
  | poll limit => exact Nat.le_trans (consumed_take _ sub).queue.length_le h
  | shut => exact h

/-- A subscription that is not registered takes no announcement. -/
theorem offer_of_unregistered (h : sub.isRegistered = false) (capacity : Nat) (c : Change) :
    sub.offer capacity c = sub := by
  rw [offer, h]
  rfl

end Subscription

namespace Feed

def ids (feed : Feed) : List Nat := feed.subscriptions.map (·.id)

/-- Who is reached by an announcement. -/
def registry (feed : Feed) : List Nat := (feed.subscriptions.filter (·.isRegistered)).map (·.id)

/-- What was announced to a subscription and is not taken yet; nothing, if it is gone. -/
def queueOf (feed : Feed) (id : Nat) : List Change := (feed.subscription? id).elim [] (·.queue)

/-- The changes that a subscription holds, replayed ones first. -/
def waiting (feed : Feed) (id : Nat) : List Change :=
  (feed.subscription? id).elim [] fun sub => sub.replay ++ sub.queue

variable {feed : Feed} {id : Nat}

theorem subscriberCount_eq (feed : Feed) : feed.subscriberCount = feed.registry.length := by
  rw [subscriberCount, registry, List.length_map, List.countP_eq_length_filter]

theorem subscription?_eq_none : feed.subscription? id = none ↔ id ∉ feed.ids := by
  simp [subscription?, ids, List.find?_eq_none]

/-- Where no identifier is used twice, a subscription is found by its own. -/
theorem subscription?_of_mem (hd : feed.ids.Nodup) {sub : Subscription}
    (h : sub ∈ feed.subscriptions) :
    feed.subscription? sub.id = some sub := by
  cases hfound : feed.subscription? sub.id with
  | none => exact absurd (List.mem_map_of_mem h) (subscription?_eq_none.1 hfound)
  | some sub' =>
    have hid := id_of_subscription? hfound
    exact congrArg some (List.inj_on_of_nodup_map hd (List.mem_of_find?_eq_some hfound) h hid)

theorem mem_registry (hd : feed.ids.Nodup) :
    id ∈ feed.registry ↔ ∃ sub, feed.subscription? id = some sub ∧ sub.isRegistered = true := by
  simp only [registry, List.mem_map, List.mem_filter]
  constructor
  · rintro ⟨sub, ⟨hmem, hreg⟩, rfl⟩
    exact ⟨sub, subscription?_of_mem hd hmem, hreg⟩
  · rintro ⟨sub, hsub, hreg⟩
    exact ⟨sub, ⟨List.mem_of_find?_eq_some hsub, hreg⟩, id_of_subscription? hsub⟩

end Feed

/-- Every subscription has an identifier of its own, and no more in its queue
than there is room for. -/
structure Feed.Orderly (feed : Feed) : Prop where
  numbered : feed.Numbered
  distinct : feed.ids.Nodup
  bounded : ∀ sub ∈ feed.subscriptions, sub.queue.length ≤ feed.capacity

namespace Hub
variable {h : Hub} {id : Nat} {e : Event} {es : List Event} {sub sub' : Subscription}

namespace Turnover
variable {feed feed' : Feed}

private theorem ids_map {g : Subscription → Subscription} (hg : ∀ sub, (g sub).id = sub.id) :
    { feed with subscriptions := feed.subscriptions.map g }.ids = feed.ids := by
  rw [Feed.ids, List.map_map]
  exact List.map_congr_left fun sub _ => hg sub

private theorem ids_close : feed.close.ids = feed.ids := ids_map fun _ => rfl

private theorem ids_drop (id : Nat) : (feed.drop id).ids = feed.ids.filter (· != id) := by
  rw [Feed.ids, Feed.ids, List.filter_map]
  rfl

theorem closed_iff (t : Turnover feed e feed') :
    feed'.closed = true ↔ feed.closed = true ∨ e = .close := by
  cases t with
  | close => simp [Feed.close]
  | inPlace _ g hid hregister hdrop hclose => simp [hclose]
  | _ => simp [Feed.drop]

/-- Only a dropped subscription goes, and only one that registers comes. -/
theorem mem_ids (t : Turnover feed e feed') : id ∈ feed'.ids ↔
    (id ∈ feed.ids ∧ e ≠ .drop id) ∨ (e = .register ∧ feed.closed = false ∧ feed.nextId = id) := by
  cases t with
  | register hopen => simp [Feed.ids, hopen, eq_comm]
  | refuse hclosed => simp [hclosed]
  | drop id' => simp [ids_drop, @eq_comm _ id']
  | close => simp [ids_close]
  | inPlace _ g hid hregister hdrop hclose => simp [ids_map hid, hregister, hdrop]

theorem distinct (t : Turnover feed e feed') (hn : feed.Numbered) (hd : feed.ids.Nodup) :
    feed'.ids.Nodup := by
  cases t with
  | register hopen =>
    have hnew : feed.nextId ∉ feed.ids := Feed.subscription?_eq_none.1 hn.subscription?_nextId
    have happend : (feed.ids ++ [feed.nextId]).Nodup := by simpa using hd.concat hnew
    simpa [Feed.ids] using happend
  | refuse hclosed => exact hd
  | drop id => exact ids_drop id ▸ hd.filter _
  | close => exact ids_close.symm ▸ hd
  | inPlace _ g hid => exact (ids_map hid).symm ▸ hd

end Turnover

/-- A subscription was just registered, or it was there and was not dropped, and took
the input of the event. -/
theorem origin_step (hn : h.feed.Numbered) (hsub' : (h.step e).feed.subscription? id = some sub') :
    (e = .register ∧ h.feed.closed = false ∧ h.feed.nextId = id ∧ sub' = { id }) ∨
      ∃ sub, h.feed.subscription? id = some sub ∧ e ≠ .drop id ∧
        sub' = (h.input id e).elim sub (sub.step h.feed.capacity) := by
  have hin : id ∈ (h.step e).feed.ids := by
    refine Classical.not_not.1 fun hout => ?_
    rw [Feed.subscription?_eq_none.2 hout] at hsub'
    cases hsub'
  obtain ⟨hmem, hkeep⟩ | ⟨rfl, hopen, rfl⟩ := (h.turnover_step e).mem_ids.1 hin
  · cases hsub : h.feed.subscription? id with
    | none => exact absurd hmem (Feed.subscription?_eq_none.1 hsub)
    | some sub =>
      rw [subscription?_step hsub hkeep] at hsub'
      exact .inr ⟨sub, rfl, hkeep, (Option.some.inj hsub').symm⟩
  · rw [subscription?_register hopen hn] at hsub'
    exact .inl ⟨rfl, hopen, rfl, (Option.some.inj hsub').symm⟩

theorem orderly_step (ho : h.feed.Orderly) (e : Event) : (h.step e).feed.Orderly := by
  have hdistinct := (h.turnover_step e).distinct ho.numbered ho.distinct
  refine ⟨numbered_step ho.numbered e, hdistinct, fun sub' hmem => ?_⟩
  rw [capacity_step]
  obtain ⟨-, -, -, hnew⟩ | ⟨sub, hsub, -, hinput⟩ :=
    origin_step ho.numbered (Feed.subscription?_of_mem hdistinct hmem)
  · rw [hnew]
    exact Nat.zero_le _
  · have hroom := ho.bounded sub (List.mem_of_find?_eq_some hsub)
    rw [hinput]
    cases h.input sub'.id e with
    | none => exact hroom
    | some i => exact length_queue_step hroom i

theorem orderly_run (ho : h.feed.Orderly) (es : List Event) : (h.run es).feed.Orderly := by
  induction es generalizing h with
  | nil => exact ho
  | cons e es ih => exact ih (orderly_step ho e)

theorem orderly_ofBuffer (size : Nat) : (ofBuffer size).feed.Orderly :=
  ⟨numbered_ofBuffer size, List.nodup_nil, by simp [ofBuffer, Feed.ofBuffer]⟩

theorem closed_run_iff (h : Hub) (es : List Event) :
    (h.run es).feed.closed = true ↔ h.feed.closed = true ∨ .close ∈ es := by
  induction es generalizing h with
  | nil => simp [run]
  | cons e es ih =>
    rw [run_cons, ih, (h.turnover_step e).closed_iff, List.mem_cons, or_assoc, @eq_comm _ e]

/-- A subscription of a run was there from the start, or was registered at some point, and
was not dropped since. -/
theorem origin_run (hn : h.feed.Numbered) (hsub' : (h.run es).feed.subscription? id = some sub') :
    ((∃ sub, h.feed.subscription? id = some sub) ∧ .drop id ∉ es) ∨
      ∃ front back, es = front ++ .register :: back ∧ (h.run front).feed.closed = false ∧
        (h.run front).feed.nextId = id ∧ .drop id ∉ back := by
  induction es generalizing h with
  | nil => exact .inl ⟨⟨sub', hsub'⟩, List.not_mem_nil⟩
  | cons e es ih =>
    obtain ⟨⟨sub, hsub⟩, hkeep⟩ | ⟨front, back, rfl, hrest⟩ := ih (numbered_step hn e) hsub'
    · obtain ⟨rfl, hopen, hid, -⟩ | ⟨sub, hsub, hne, -⟩ := origin_step hn hsub
      · exact .inr ⟨[], es, rfl, hopen, hid, hkeep⟩
      · exact .inl ⟨⟨sub, hsub⟩, by simp [hkeep, hne.symm]⟩
    · exact .inr ⟨e :: front, back, rfl, hrest⟩

/-- A subscription that is not dropped is registered just as its gate says. -/
theorem gate_run {os : List (Change × Nat)} (hsub : h.feed.subscription? id = some sub)
    (hg : Gate h.feed.capacity (!h.feed.closed) os sub) (hkeep : .drop id ∉ es) :
    ∃ sub', (h.run es).feed.subscription? id = some sub' ∧
      Gate h.feed.capacity (!(h.run es).feed.closed) (os ++ h.offers id es) sub' := by
  induction es generalizing h sub os with
  | nil => exact ⟨sub, hsub, by simpa [offers, trace, run] using hg⟩
  | cons e es ih =>
    obtain ⟨hne, hkeep⟩ : e ≠ .drop id ∧ .drop id ∉ es := by simpa [eq_comm] using hkeep
    have hstep : Gate (h.step e).feed.capacity (!(h.step e).feed.closed) (os ++ h.offeredTo id e)
        ((h.input id e).elim sub (sub.step h.feed.capacity)) := by
      rw [h.capacity_step e, h.closed_step id e, offeredTo_eq hsub]
      cases h.input id e with
      | none => simpa using hg
      | some i => exact hg.step i
    obtain ⟨sub', hsub', hg'⟩ := ih (subscription?_step hsub hne) hstep hkeep
    rw [h.capacity_step e, List.append_assoc] at hg'
    exact ⟨sub', hsub', hg'⟩

/-! ## Outside of the registry -/

/-- A subscription that is not registered stays so and gets no announcement, and what it
yields it had waiting. -/
theorem unregistered_step (hreg : sub.isRegistered = false) (capacity : Nat) (i : Input) :
    (sub.step capacity i).isRegistered = false ∧ (sub.step capacity i).queue <:+ sub.queue ∧
      ((∀ cs, i ≠ .replay cs) → (changesOf (sub.yielded i) ++
        ((sub.step capacity i).replay ++ (sub.step capacity i).queue)).Sublist
          (sub.replay ++ sub.queue)) := by
  cases i with
  | offer c =>
    rw [Subscription.step, offer_of_unregistered hreg]
    exact ⟨hreg, List.suffix_rfl, fun _ => .refl _⟩
  | replay cs => exact ⟨hreg, List.suffix_rfl, fun hno => absurd rfl (hno cs)⟩
  | poll limit =>
    have htaken := consumed_take (limit.getD sub.bound) sub
    exact ⟨htaken.registered.trans hreg, htaken.queue, fun _ => htaken.waiting⟩
  | shut => exact ⟨rfl, List.suffix_rfl, fun _ => .refl _⟩

/-- A subscription that is gone after a step yields nothing in it. -/
theorem yielded_of_gone (hgone : (h.step e).feed.subscription? id = none) :
    h.yielded id e = [] := by
  cases hsub : h.feed.subscription? id with
  | none =>
    cases e with
    | poll id' limit => simp [yielded, Feed.poll, hsub]
    | _ => rfl
  | some sub =>
    by_cases he : e = .drop id
    · rw [he]
      rfl
    · rw [subscription?_step hsub he] at hgone
      cases hgone

theorem outside_step (ho : h.feed.Orderly) (hid : id < h.feed.nextId) (hout : id ∉ h.feed.registry)
    (e : Event) :
    id ∉ (h.step e).feed.registry ∧ (h.step e).feed.queueOf id <:+ h.feed.queueOf id ∧
      ((∀ since, e ≠ .beginReplay id since) →
        (changesOf (h.yielded id e) ++ (h.step e).feed.waiting id).Sublist
          (h.feed.waiting id)) := by
  rw [Feed.mem_registry ho.distinct] at hout
  rw [Feed.mem_registry (orderly_step ho e).distinct, Feed.queueOf, Feed.waiting]
  cases hsub' : (h.step e).feed.subscription? id with
  | none =>
    refine ⟨nofun, List.nil_suffix, fun _ => ?_⟩
    rw [yielded_of_gone hsub']
    exact List.nil_sublist _
  | some sub' =>
    obtain ⟨-, -, hnew, -⟩ | ⟨sub, hsub, -, rfl⟩ := origin_step ho.numbered hsub'
    · exact absurd hnew (Nat.ne_of_gt hid)
    · have hreg : sub.isRegistered = false := Bool.eq_false_iff.2 fun hreg => hout ⟨sub, hsub, hreg⟩
      rw [Feed.queueOf, Feed.waiting, hsub, yielded_eq hsub]
      cases hi : h.input id e with
      | none => exact ⟨by simp [hreg], List.suffix_rfl, fun _ => .refl _⟩
      | some i =>
        obtain ⟨hreg', hqueue, hwaiting⟩ := unregistered_step hreg h.feed.capacity i
        refine ⟨by simp [hreg'], hqueue, fun hno => hwaiting ?_⟩
        rintro cs rfl
        obtain ⟨since, he⟩ := beginReplay_of_input hi
        exact hno since he

/-- Who is out of the registry stays out, and yields only what was waiting for it, unless
it is given a replay. -/
theorem outside_run (ho : h.feed.Orderly) (hid : id < h.feed.nextId) (hout : id ∉ h.feed.registry)
    (es : List Event) :
    id ∉ (h.run es).feed.registry ∧ (h.run es).feed.queueOf id <:+ h.feed.queueOf id ∧
      ((∀ since, .beginReplay id since ∉ es) →
        (changesOf (h.yields id es) ++ (h.run es).feed.waiting id).Sublist
          (h.feed.waiting id)) := by
  induction es generalizing h with
  | nil => exact ⟨hout, List.suffix_rfl, fun _ => .refl _⟩
  | cons e es ih =>
    obtain ⟨hout', hqueue, hwaiting⟩ := outside_step ho hid hout e
    obtain ⟨hout'', hqueue', hwaiting'⟩ :=
      ih (orderly_step ho e) (Nat.lt_of_lt_of_le hid (h.turnover_step e).nextId_le) hout'
    refine ⟨hout'', hqueue'.trans hqueue, fun hno => ?_⟩
    have hnow := hwaiting fun since he => hno since (he ▸ List.mem_cons_self)
    have hlater := hwaiting' fun since hmem => hno since (List.mem_cons_of_mem e hmem)
    have hyields : h.yields id (e :: es) = h.yielded id e ++ (h.step e).yields id es := rfl
    rw [hyields, changesOf_append, List.append_assoc]
    exact (hlater.append_left _).trans hnow

/-! ## Who can still receive -/

/-- After `front` the subscription `id` was opened, and over `back` nothing has kept it
from what is announced. -/
structure Receives (size : Nat) (front back : List Event) (id : Nat) : Prop where
  opened : ((ofBuffer size).run front).feed.nextId = id
  kept : .drop id ∉ back
  unclosed : .close ∉ front ++ back
  unrefused : ∀ o ∈ ((ofBuffer size).run front).offers id (.register :: back), o.2 < max size 1

theorem capacity_ofBuffer (size : Nat) (es : List Event) :
    ((ofBuffer size).run es).feed.capacity = max size 1 :=
  capacity_run _ es

theorem closed_ofBuffer_iff (size : Nat) (es : List Event) :
    ((ofBuffer size).run es).feed.closed = true ↔ .close ∈ es := by
  rw [closed_run_iff]
  exact or_iff_right Bool.false_ne_true

theorem overflows_eq_false_iff {capacity : Nat} {offers : List (Change × Nat)} :
    overflows capacity offers = false ↔ ∀ o ∈ offers, o.2 < capacity := by
  simp [overflows]

/-- A subscription that was opened and not dropped is registered if nothing else has
kept it from receiving. -/
theorem registered_iff_receives {size : Nat} {front back : List Event}
    (hopen : ((ofBuffer size).run front).feed.closed = false)
    (hopened : ((ofBuffer size).run front).feed.nextId = id) (hkept : .drop id ∉ back) :
    ∃ sub, ((ofBuffer size).run (front ++ .register :: back)).feed.subscription? id = some sub ∧
      (sub.isRegistered = true ↔ Receives size front back id) := by
  subst hopened
  have hnew := subscription?_register hopen (numbered_run (numbered_ofBuffer size))
  have hgate : Gate (((ofBuffer size).run front).step .register).feed.capacity
      (!(((ofBuffer size).run front).step .register).feed.closed) []
      { id := ((ofBuffer size).run front).feed.nextId } := by
    rw [closed_register, hopen]
    exact gate_new _ _
  obtain ⟨sub, hsub, hgate⟩ := gate_run hnew hgate hkept
  rw [capacity_step, capacity_ofBuffer, ← run_cons, ← run_append, List.nil_append] at hgate
  rw [← run_cons, ← run_append] at hsub
  have hclosed := closed_ofBuffer_iff size (front ++ .register :: back)
  refine ⟨sub, hsub, fun hreg => ?_, fun hr => ?_⟩
  · obtain ⟨hopen', hfits⟩ := hgate.of_registered hreg
    refine ⟨rfl, hkept, ?_, overflows_eq_false_iff.1 hfits⟩
    rw [Bool.not_eq_true'] at hopen'
    rw [hopen'] at hclosed
    simpa using hclosed
  · have hopen' : ((ofBuffer size).run (front ++ .register :: back)).feed.closed = false := by
      rw [Bool.eq_false_iff, ne_eq, hclosed]
      simpa using hr.unclosed
    have hfits : overflows (max size 1) ((((ofBuffer size).run front).step .register).offers
        ((ofBuffer size).run front).feed.nextId back) = false :=
      overflows_eq_false_iff.2 hr.unrefused
    rw [hgate.registered, hopen', hfits]
    rfl

theorem mem_registry_iff_receives (size : Nat) (es : List Event) (id : Nat) :
    id ∈ ((ofBuffer size).run es).feed.registry ↔
      ∃ front back, es = front ++ .register :: back ∧ Receives size front back id := by
  rw [Feed.mem_registry (orderly_run (orderly_ofBuffer size) es).distinct]
  constructor
  · rintro ⟨sub, hsub, hreg⟩
    obtain ⟨⟨sub', hsub'⟩, -⟩ | ⟨front, back, rfl, hopen, hopened, hkept⟩ :=
      origin_run (numbered_ofBuffer size) hsub
    · cases hsub'
    · obtain ⟨sub', hsub', hiff⟩ := registered_iff_receives hopen hopened hkept
      rw [hsub] at hsub'
      cases hsub'
      exact ⟨front, back, rfl, hiff.1 hreg⟩
  · rintro ⟨front, back, rfl, hr⟩
    have hopen : ((ofBuffer size).run front).feed.closed = false := by
      rw [Bool.eq_false_iff, ne_eq, closed_ofBuffer_iff]
      exact fun hmem => hr.unclosed (List.mem_append_left _ hmem)
    obtain ⟨sub, hsub, hiff⟩ := registered_iff_receives hopen hr.opened hr.kept
    exact ⟨sub, hsub, hiff.2 hr⟩

/-- The registry of a run is made up of the subscriptions that can still receive, each queue
keeps to its bound, nobody outside ever gets what is announced later, and once the feed is
closed nobody can enter. -/
theorem registry_exact (size : Nat) (es : List Event) :
    let h := (ofBuffer size).run es
    (∀ id, id ∈ h.feed.registry ↔
      ∃ front back, es = front ++ .register :: back ∧ Receives size front back id) ∧
      (h.feed.registry.Nodup ∧ h.feed.subscriberCount = h.feed.registry.length) ∧
      (∀ sub ∈ h.feed.subscriptions, sub.queue.length ≤ max size 1) ∧
      (∀ id < h.feed.nextId, id ∉ h.feed.registry → ∀ later,
        id ∉ (h.run later).feed.registry ∧ (h.run later).feed.queueOf id <:+ h.feed.queueOf id ∧
          ((∀ since, .beginReplay id since ∉ later) →
            (changesOf (h.yields id later) ++ (h.run later).feed.waiting id).Sublist
              (h.feed.waiting id))) ∧
      (.close ∈ es → h.feed.registry = [] ∧ h.step .register = h ∧
        ∀ store since, h.feed.subscribe store since = .error .closed) := by
  intro h
  have horderly : h.feed.Orderly := orderly_run (orderly_ofBuffer size) es
  have hmem := mem_registry_iff_receives size es
  refine ⟨hmem, ⟨?_, h.feed.subscriberCount_eq⟩, ?_,
    fun id hid hout => outside_run horderly hid hout, fun hclose => ?_⟩
  · exact (List.filter_sublist.map _).nodup horderly.distinct
  · rw [← capacity_ofBuffer size es]
    exact horderly.bounded
  · have hclosed : h.feed.closed = true := (closed_ofBuffer_iff size es).2 hclose
    have hregister : h.feed.register = .error .closed := by rw [Feed.register, if_pos hclosed]
    refine ⟨?_, ?_, fun store since => ?_⟩
    · refine List.eq_nil_iff_forall_not_mem.2 fun id hid => ?_
      obtain ⟨front, back, rfl, hr⟩ := (hmem id).1 hid
      exact hr.unclosed (by simpa using hclose)
    · rw [step, hregister]
    · rw [Feed.subscribe, hregister]
      rfl

/-- Of three subscriptions with room for one change each the first falls behind, the second is
polled in time, and the third is dropped. -/
def crowd : List Event :=
  sampleSetup ++ [.register, .register, .register, .put (sampleMoment 1) (sampleFormation 1),
  .poll 1 none, .drop 2, .put (sampleMoment 2) (sampleFormation 2)]

theorem registry_exact_of_crowd :
    let h := (ofBuffer 1).run crowd
    let announced := h.run [.put (sampleMoment 3) (sampleFormation 3)]
    h.feed.registry = [1] ∧
      (∃ front back, crowd = front ++ .register :: back ∧ Receives 1 front back 1) ∧
      (¬ ∃ front back, crowd = front ++ .register :: back ∧ Receives 1 front back 0) ∧
      announced.feed.queueOf 0 <:+ h.feed.queueOf 0 ∧
      ((ofBuffer 1).run (crowd ++ [.close])).feed.registry = [] := by
  intro h announced
  have hone : h.feed.registry = [1] ∧ 0 < h.feed.nextId := by decide +kernel
  obtain ⟨hmem, -, -, houtside, -⟩ := registry_exact 1 crowd
  obtain ⟨-, -, -, -, hclosed⟩ := registry_exact 1 (crowd ++ [.close])
  have hzero : 0 ∉ h.feed.registry := by simp [hone.1]
  refine ⟨hone.1, (hmem 1).1 ?_, fun hr => hzero ((hmem 0).2 hr), ?_, (hclosed ?_).1⟩
  · exact hone.1 ▸ List.mem_singleton.2 rfl
  · exact (houtside 0 hone.2 hzero _).2.1
  · exact List.mem_append_right _ (List.mem_singleton.2 rfl)

end Hub
end ControlPlane
