import ControlPlane.Proofs.Feed.Service

/-! # The exact deliveries of a subscription

What a drained subscription has yielded is written down as one list, and it does not
depend on who else subscribes.
-/
namespace ControlPlane

namespace Subscription
variable (n : Nat) (sub : Subscription)

end Subscription

namespace Hub
open Subscription

/-- What an event is to a subscription that is alone and the first; nothing, if it is another's. -/
def Event.alone (id : Nat) : Event → Option Event
  | .register => none
  | .beginReplay id' since => if id' = id then some (.beginReplay 0 since) else none
  | .poll id' limit => if id' = id then some (.poll 0 limit) else none
  | .drop id' => if id' = id then some (.drop 0) else none
  | e => some e

/-- Hubs that differ in their subscriptions only. -/
structure Alike (h h' : Hub) : Prop where
  store : h'.store = h.store
  closed : h'.feed.closed = h.feed.closed
  capacity : h'.feed.capacity = h.feed.capacity

variable {h h' : Hub} {id : Nat} {e e' : Event} {es : List Event}

private theorem offered_eq_of_store (hstore : h'.store = h.store) : h'.offered e = h.offered e := by
  have hcommitted : h'.committed e = h.committed e := by
    rw [committed, committed, hstore]
  have hannounced : h'.announced e = h.announced e := by
    cases e with
    | put m formation => exact hcommitted
    | delete m app release => exact hcommitted
    | _ => rfl
  rw [offered, offered, hannounced, store_step, store_step, hstore]

private theorem alone_some (ha : Alike h h') (he : e.alone id = some e') :
    e'.write? = e.write? ∧ h'.input 0 e' = h.input id e := by
  cases e with
  | register => cases he
  | beginReplay id' since =>
    simp only [Event.alone, Option.ite_none_right_eq_some] at he
    obtain ⟨hid, he⟩ := he
    cases he
    exact ⟨rfl, by rw [input, input, if_pos rfl, if_pos hid, ha.store]⟩
  | poll id' limit =>
    simp only [Event.alone, Option.ite_none_right_eq_some] at he
    obtain ⟨hid, he⟩ := he
    cases he
    exact ⟨rfl, by rw [input, input, if_pos rfl, if_pos hid]⟩
  | drop id' =>
    simp only [Event.alone, Option.ite_none_right_eq_some] at he
    obtain ⟨-, he⟩ := he
    cases he
    exact ⟨rfl, rfl⟩
  | write m w => cases he; exact ⟨rfl, rfl⟩
  | close => cases he; exact ⟨rfl, rfl⟩
  | announce r => cases he; exact ⟨rfl, congrArg (Option.map _) (offered_eq_of_store ha.store)⟩
  | put m formation => cases he; exact ⟨rfl, congrArg (Option.map _) (offered_eq_of_store ha.store)⟩
  | delete m app release =>
    cases he; exact ⟨rfl, congrArg (Option.map _) (offered_eq_of_store ha.store)⟩

private theorem alone_none (he : e.alone id = none) : e.write? = none ∧ h.input id e = none := by
  cases e with
  | register => exact ⟨rfl, rfl⟩
  | beginReplay id' since =>
    simp only [Event.alone, ite_eq_right_iff] at he
    exact ⟨rfl, if_neg fun hid => by simpa using he hid⟩
  | poll id' limit =>
    simp only [Event.alone, ite_eq_right_iff] at he
    exact ⟨rfl, if_neg fun hid => by simpa using he hid⟩
  | drop id' => exact ⟨rfl, rfl⟩
  | _ => cases he

private theorem Alike.step (ha : Alike h h') (he : e.alone id = some e') :
    Alike (h.step e) (h'.step e') := by
  obtain ⟨hwrite, hinput⟩ := alone_some ha he
  refine ⟨?_, ?_, ?_⟩
  · rw [store_step, store_step, hwrite, ha.store]
  · have hclosed := h.closed_step id e
    rw [← hinput, ← ha.closed, ← h'.closed_step 0 e'] at hclosed
    exact (Bool.not_inj hclosed).symm
  · rw [capacity_step, capacity_step, ha.capacity]

private theorem Alike.skip (ha : Alike h h') (he : e.alone id = none) : Alike (h.step e) h' := by
  obtain ⟨hwrite, hinput⟩ := alone_none (h := h) he
  refine ⟨?_, ?_, ?_⟩
  · rw [store_step, hwrite, ha.store]
    rfl
  · have hclosed := h.closed_step id e
    rw [hinput] at hclosed
    rw [ha.closed]
    exact (Bool.not_inj hclosed).symm
  · rw [capacity_step, ha.capacity]

private theorem Alike.run (ha : Alike h h') (id : Nat) (es : List Event) :
    Alike (h.run es) (h'.run (es.filterMap (Event.alone id))) := by
  induction es generalizing h h' with
  | nil => exact ha
  | cons e es ih =>
    cases he : e.alone id with
    | none =>
      rw [List.filterMap_cons_none he]
      exact ih (ha.skip he)
    | some e' =>
      rw [List.filterMap_cons_some he]
      exact ih (ha.step he)

private theorem Alike.register (ha : Alike h h') :
    Alike (h.step .register) (h'.step .register) := by
  refine ⟨?_, ?_, ?_⟩
  · rw [store_register, store_register, ha.store]
  · rw [closed_register, closed_register, ha.closed]
  · rw [capacity_step, capacity_step, ha.capacity]

end Hub
end ControlPlane
