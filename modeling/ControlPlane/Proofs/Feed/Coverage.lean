import ControlPlane.Proofs.Feed.Service

/-! # What a drained subscription has told

A run that announces only what it committed offers changes that show its commits. A subscription
that was drained, and neither lags nor was shut out, has passed on last of each formation its newest
record, if that was in its replay or was announced.
-/
namespace ControlPlane

/-- A subscription with nothing left to yield that is neither lagging nor at its end. -/
def Feed.Idle (feed : Feed) (id : Nat) : Prop :=
  (feed.poll id none).1 = [] ∧ (feed.poll id none).2.1 = false

instance (feed : Feed) (id : Nat) : Decidable (feed.Idle id) :=
  inferInstanceAs (Decidable ((feed.poll id none).1 = [] ∧ (feed.poll id none).2.1 = false))

namespace Hub
open Store

/-- The changes that a run offers. -/
def changes : Hub → List Event → List Change := trace fun h e => (h.offered e).toList

/-- What is announced in a run was committed before. -/
def OnlyCommitted (past : List FormationRecord) (h : Hub) (es : List Event) : Prop :=
  ∀ front e back, es = front ++ e :: back → ∀ r, (h.run front).announced e = some r →
    r ∈ past ++ h.commits (front ++ [e])

/-- The store is consistent, and `past` are its commits. -/
structure Sound (past : List FormationRecord) (h : Hub) : Prop where
  consistent : h.store.Consistent
  ledger : h.store.Ledger past

theorem sound_ofBuffer (size : Nat) : Sound [] (ofBuffer size) := ⟨consistent_empty, ledger_empty⟩

variable {h : Hub} {id : Nat} {past : List FormationRecord} {es es' : List Event}
  {r : FormationRecord} {c : Change}

theorem Sound.run (hs : h.Sound past) (hes : ∀ e ∈ es, e.Proper)
    (hlen : (past ++ h.commits es).length < UInt64.size) :
    (h.run es).Sound (past ++ h.commits es) :=
  ⟨run_consistent hs.consistent hes, run_ledger hs.consistent hs.ledger hes hlen⟩

/-- The newest record of a formation has been the newest ever since it was committed. -/
theorem Sound.get?_of_mem {h' : Hub} {late : List FormationRecord} {k : String} (hs : h.Sound past)
    (hs' : h'.Sound (past ++ late)) (hr : h'.store.formations.get? k = some r) (hmem : r ∈ past) :
    h.store.formations.get? k = some r := by
  have hkey : r.key = k := hs'.consistent.record_key k r hr
  obtain ⟨r', hr', hle⟩ := hs.ledger.current r hmem
  have hmem' : r' ∈ past := hs.ledger.committed _ r' hr'
  have hkey' : r'.key = k := (hs.consistent.record_key _ r' hr').trans hkey
  have hge : r'.version ≤ r.version := hs'.ledger.le_of_get? hr (List.mem_append_left _ hmem') hkey'
  have he : r' = r := hs.ledger.eq_of_version hmem' hmem (UInt64.le_antisymm hge hle)
  rw [← hkey, hr', he]

/-- It was there with its app, if the app is still there. -/
theorem Sound.found {h' : Hub} {late : List FormationRecord} {k : String} (hs : h.Sound past)
    (hs' : h'.Sound (past ++ late)) (hext : Extends h.store h'.store)
    (hr : h'.store.formations.get? k = some r)
    (hlive : ∃ row, h'.store.liveApp? r.formation.app = some row) (hmem : r ∈ past) :
    h.store.formations.get? k = some r ∧ ∃ row, h.store.liveApp? r.formation.app = some row := by
  have hget := hs.get?_of_mem hs' hr hmem
  exact ⟨hget, hext.live (hs.consistent.refers k r hget).app hlive⟩

theorem mem_trace {α : Type} {f : Hub → Event → List α} {x : α} :
    x ∈ trace f h es ↔ ∃ front e back, es = front ++ e :: back ∧ x ∈ f (h.run front) e := by
  constructor
  · intro hx
    induction es generalizing h with
    | nil => cases hx
    | cons e es ih =>
      obtain hx | hx := List.mem_append.1 hx
      · exact ⟨[], e, es, rfl, hx⟩
      · obtain ⟨front, e', back, rfl, hx'⟩ := ih hx
        exact ⟨e :: front, e', back, rfl, hx'⟩
  · rintro ⟨front, e, back, rfl, hx⟩
    rw [trace_append]
    exact List.mem_append_right _ (List.mem_append_left _ hx)

theorem commits_append (h : Hub) (es es' : List Event) :
    h.commits (es ++ es') = h.commits es ++ (h.run es).commits es' :=
  trace_append _ h es es'

theorem OnlyCommitted.cons {e : Event}
    (hnow : ∀ r, h.announced e = some r → r ∈ past ++ (h.committed e).toList)
    (hlater : OnlyCommitted (past ++ (h.committed e).toList) (h.step e) es) :
    OnlyCommitted past h (e :: es) := by
  intro front e' back he r hr
  cases front with
  | nil =>
    cases he
    have hone : h.commits [e] = (h.committed e).toList := List.append_nil _
    rw [List.nil_append, hone]
    exact hnow r hr
  | cons f front =>
    cases he
    have hmem := hlater front e' back rfl r hr
    rw [List.append_assoc] at hmem
    exact hmem

/-- At every point of a run the store lies between the first and the last. -/
theorem store_along (hs : h.store.Consistent) (hes : ∀ e ∈ es, e.Proper)
    (hids : (h.run es).store.AppsIdentified) {front back : List Event} (he : es = front ++ back) :
    (h.run front).store.Consistent ∧ (h.run front).store.AppsIdentified ∧
      Extends h.store (h.run front).store ∧
      Extends (h.run front).store (h.run es).store := by
  have hfront : ∀ e ∈ front, e.Proper := fun e he' => hes e (he ▸ List.mem_append_left _ he')
  have hback : ∀ e ∈ back, e.Proper := fun e he' => hes e (he ▸ List.mem_append_right _ he')
  have hs' := run_consistent hs hfront
  have hext : Extends (h.run front).store (h.run es).store := by
    rw [he, run_append]
    exact run_extends hs' hback
  exact ⟨hs', hids.of_extends hs' (run_consistent hs hes) hext, run_extends hs hfront, hext⟩

/-- Where a record is announced, the store holds all that it names. -/
theorem announced_along (hs : h.Sound past) (hes : ∀ e ∈ es, e.Proper)
    (hlen : (past ++ h.commits es).length < UInt64.size) (ho : OnlyCommitted past h es)
    {front back : List Event} {e : Event} (he : es = front ++ e :: back)
    (hr : (h.run front).announced e = some r) :
    r ∈ past ++ h.commits es ∧ ((h.run front).step e).store.Refers r := by
  have hsplit : es = (front ++ [e]) ++ back := by rw [he, List.append_assoc, List.singleton_append]
  have hmem : r ∈ past ++ h.commits (front ++ [e]) := ho front e back he r hr
  have hcommits : past ++ h.commits es =
      past ++ h.commits (front ++ [e]) ++ (h.run (front ++ [e])).commits back := by
    rw [hsplit, commits_append, List.append_assoc]
  have hproper : ∀ e' ∈ front ++ [e], e'.Proper :=
    fun e' he' => hes e' (hsplit ▸ List.mem_append_left _ he')
  have hs' : (h.run (front ++ [e])).Sound (past ++ h.commits (front ++ [e])) := by
    refine hs.run hproper ?_
    rw [hcommits, List.length_append] at hlen
    omega
  have href := hs'.ledger.refers r hmem
  rw [run_append] at href
  exact ⟨by rw [hcommits]; exact List.mem_append_left _ hmem, href⟩

theorem shows_of_mem_changes (hs : h.Sound past) (hes : ∀ e ∈ es, e.Proper)
    (hlen : (past ++ h.commits es).length < UInt64.size) (ho : OnlyCommitted past h es)
    (hids : (h.run es).store.AppsIdentified) (hc : c ∈ h.changes es) :
    ∃ r ∈ h.announcements es, r ∈ past ++ h.commits es ∧ c.Shows r := by
  obtain ⟨front, e, back, he, hoffered⟩ := mem_trace.1 hc
  obtain ⟨r, hr, hexpand⟩ := Option.bind_eq_some_iff.1 (Option.mem_toList.1 hoffered)
  obtain ⟨hmem, href⟩ := announced_along hs hes hlen ho he hr
  have hsplit : es = (front ++ [e]) ++ back := by rw [he, List.append_assoc, List.singleton_append]
  obtain ⟨hs', hids', -, -⟩ := store_along hs.consistent hes hids hsplit
  rw [run_append] at hs' hids'
  exact ⟨r, mem_trace.2 ⟨front, e, back, he, Option.mem_toList.2 hr⟩, hmem,
    shows_of_expand? hs' hids' href hexpand⟩

/-- What is announced where its app is there is offered. -/
theorem exists_mem_changes (hs : h.Sound past) (hes : ∀ e ∈ es, e.Proper)
    (hlen : (past ++ h.commits es).length < UInt64.size) (ho : OnlyCommitted past h es)
    (hids : (h.run es).store.AppsIdentified) {front back : List Event} {e : Event}
    (he : es = front ++ e :: back) (hr : (h.run front).announced e = some r)
    (hlive : ∃ row, ((h.run front).step e).store.liveApp? r.formation.app = some row) :
    ∃ c ∈ h.changes es, c.Shows r := by
  obtain ⟨-, href⟩ := announced_along hs hes hlen ho he hr
  have hsplit : es = (front ++ [e]) ++ back := by rw [he, List.append_assoc, List.singleton_append]
  obtain ⟨hs', hids', -, -⟩ := store_along hs.consistent hes hids hsplit
  rw [run_append] at hs' hids'
  obtain ⟨c, hc, hshows⟩ := exists_shows_of_live hs' hids' href hlive
  refine ⟨c, mem_trace.2 ⟨front, e, back, he, Option.mem_toList.2 ?_⟩, hshows⟩
  rw [offered, hr]
  exact hc

private theorem isOpen_of_run (hopen : (h.run es).feed.closed = false) : h.feed.closed = false := by
  induction es generalizing h with
  | nil => exact hopen
  | cons e es ih =>
    have hstep := h.closed_step 0 e
    rw [ih hopen] at hstep
    cases hclosed : h.feed.closed with
    | false => rfl
    | true =>
      rw [hclosed] at hstep
      cases hi : h.input 0 e with
      | none => rw [hi] at hstep; cases hstep
      | some i => rw [hi] at hstep; cases i <;> cases hstep

private theorem isClosed_run (hclosed : h.feed.closed = true) (id : Nat) (es : List Event) :
    h.offers id es = [] := by
  induction es generalizing h with
  | nil => rfl
  | cons e es ih =>
    have hnow : h.offeredTo id e = [] := by
      unfold offeredTo
      split
      · rw [if_pos hclosed]
      · rfl
    have hstep : (h.step e).feed.closed = true := by
      cases hopen : (h.step e).feed.closed with
      | true => rfl
      | false => rw [@isOpen_of_run h [e] hopen] at hclosed; cases hclosed
    exact List.append_eq_nil_iff.2 ⟨hnow, ih hstep⟩

/-- A subscription is offered all that the feed offers, in order, until the feed is closed. -/
private theorem offers_prefix {sub : Subscription} (hsub : h.feed.subscription? id = some sub)
    (hkeep : ∀ e ∈ es, e ≠ .drop id) : (h.offers id es).map (·.1) <+: h.changes es ∧
      ((h.run es).feed.closed = false → (h.offers id es).map (·.1) = h.changes es) := by
  induction es generalizing h sub with
  | nil => exact ⟨List.prefix_rfl, fun _ => rfl⟩
  | cons e es ih =>
    cases hclosed : h.feed.closed with
    | true =>
      rw [isClosed_run hclosed]
      refine ⟨List.nil_prefix, fun hopen => ?_⟩
      rw [isOpen_of_run hopen] at hclosed
      cases hclosed
    | false =>
      have hstep := subscription?_step hsub (hkeep e (by simp))
      obtain ⟨hfront, heq⟩ := ih hstep fun e he => hkeep e (by simp [he])
      have hhead : (h.offeredTo id e).map (·.1) = (h.offered e).toList := by
        rw [offeredTo, hsub, hclosed]
        cases h.offered e <;> rfl
      have hoffers : (h.offers id (e :: es)).map (·.1) =
          (h.offered e).toList ++ ((h.step e).offers id es).map (·.1) := by
        rw [← hhead, ← List.map_append]
        rfl
      rw [hoffers]
      exact ⟨(List.prefix_append_right_inj _).2 hfront, fun hopen => congrArg (_ ++ ·) (heq hopen)⟩

section Subscribes
variable {between after : List Event} {since : Instant}

private theorem Subscribes.offers_prefix (hs : h.Subscribes id between after) (hn : h.feed.Numbered)
    (since : Instant) :
    (h.offers id (lifetime id since between after)).map (·.1) <+:
      h.changes (lifetime id since between after) ∧
      ((h.run (lifetime id since between after)).feed.closed = false →
        (h.offers id (lifetime id since between after)).map (·.1) =
          h.changes (lifetime id since between after)) := by
  have hnew : (h.step .register).feed.subscription? id = some { id } := by
    rw [← hs.next]
    exact subscription?_register hs.isOpen hn
  have hkeep : ∀ e ∈ between ++ Event.beginReplay id since :: after, e ≠ .drop id := by
    rintro e he rfl
    have he' : Event.drop id ∈ between ∨ Event.drop id ∈ after := by simpa using he
    rcases he' with he' | he'
    · exact hs.waits _ he' rfl
    · cases hs.polls _ he' rfl
  -- the registration itself offers nothing
  have htail := Hub.offers_prefix hnew hkeep
  exact htail

/-- What a subscription has passed on is the news of the first of all that it was to
replay and was offered. -/
theorem Subscribes.exists_prefix (hs : h.Subscribes id between after) (hn : h.feed.Numbered)
    (since : Instant) :
    ∃ ds, ds <+: Feed.replayOf (h.atReplay between).store since ++
      h.changes (lifetime id since between after) ∧
      changesOf (h.yields id (lifetime id since between after)) = newsAfter [] ds := by
  obtain ⟨sub, -, hserved⟩ := hs.served hn since
  obtain ⟨ds, hds, hys⟩ := hserved.exists_prefix
  exact ⟨ds, hds.trans ((List.prefix_append_right_inj _).2 (hs.offers_prefix hn since).1), hys⟩

/-- A subscription that is idle has passed on all that was news of its replay and
of all announcements. -/
theorem Subscribes.changesOf_yields (hs : h.Subscribes id between after) (hn : h.feed.Numbered)
    (hidle : (h.run (lifetime id since between after)).feed.Idle id) :
    changesOf (h.yields id (lifetime id since between after)) =
      newsAfter [] (Feed.replayOf (h.atReplay between).store since ++
        h.changes (lifetime id since between after)) := by
  obtain ⟨sub, hsub, hserved⟩ := hs.served hn since
  obtain ⟨hall, hended⟩ := hserved.drain
  obtain ⟨hnone, hgoes⟩ := hidle
  simp only [Feed.poll, hsub, Option.getD_none] at hnone hgoes
  rw [hgoes, eq_comm, Bool.not_eq_false', Bool.and_eq_true, Bool.not_eq_true', Bool.not_eq_true']
    at hended
  obtain ⟨hopen, hfits⟩ := hended
  have hys : sub.yielded (.poll none) = [] := hnone
  rw [hys, List.append_nil, Subscription.fitting_eq_map hfits, (hs.offers_prefix hn since).2 hopen]
    at hall
  rw [hall, changesOf_transcript, newsAfter_append]
  rfl

variable (hsound : h.Sound past) (hes : ∀ e ∈ lifetime id since between after, e.Proper)
  (hlen : (past ++ h.commits (lifetime id since between after)).length < UInt64.size)
  (ho : OnlyCommitted past h (lifetime id since between after))
  (hids : (h.run (lifetime id since between after)).store.AppsIdentified)
include hsound hes hlen hids

/-- Where the replay is read, the store holds what was committed so far, and all of it stays. -/
theorem atReplay_sound : (h.atReplay between).Sound (past ++ h.commits (.register :: between)) ∧
    (h.atReplay between).store.AppsIdentified ∧
    Extends (h.atReplay between).store (h.run (lifetime id since between after)).store ∧
    past ++ h.commits (lifetime id since between after) =
      past ++ h.commits (.register :: between) ++
      ((h.atReplay between).commits (.beginReplay id since :: after)) := by
  have hcommits : past ++ h.commits (lifetime id since between after) =
      past ++ h.commits (.register :: between) ++
      ((h.atReplay between).commits (.beginReplay id since :: after)) := by
    rw [List.append_assoc]
    exact congrArg (past ++ ·)
      (h.commits_append (.register :: between) (.beginReplay id since :: after))
  have hsplit : lifetime id since between after =
      (.register :: between) ++ .beginReplay id since :: after := rfl
  obtain ⟨-, hids', -, hext⟩ := store_along hsound.consistent hes hids hsplit
  refine ⟨hsound.run (fun e he => hes e (List.mem_append_left _ he)) ?_, hids', hext, hcommits⟩
  rw [hcommits, List.length_append] at hlen
  omega

/-- The newest record of a formation was found by the query, or was committed later. -/
theorem found_or_committed {k : String}
    (hr : (h.run (lifetime id since between after)).store.formations.get? k = some r) :
    (h.atReplay between).store.formations.get? k = some r ∨
      r ∈ (h.atReplay between).commits (.beginReplay id since :: after) := by
  obtain ⟨hquery, -, -, hsplit⟩ := atReplay_sound hsound hes hlen hids
  have hfinal := hsound.run hes hlen
  rw [hsplit] at hfinal
  exact (List.mem_append.1 (hfinal.ledger.committed k r hr)).imp_left (hquery.get?_of_mem hfinal hr)

include ho in
/-- What is replayed or offered shows records that were committed. -/
theorem exists_shows
    (hc : c ∈ Feed.replayOf (h.atReplay between).store since ++
      h.changes (lifetime id since between after)) :
    ∃ r ∈ past ++ h.commits (lifetime id since between after), c.Shows r := by
  obtain hc | hc := List.mem_append.1 hc
  · obtain ⟨hs, hids', -, hcommits⟩ := atReplay_sound hsound hes hlen hids
    obtain ⟨k, r, hk, hshows⟩ := shows_of_mem_replayOf hs.consistent hids' hc
    rw [hcommits]
    exact ⟨r, List.mem_append_left _ (hs.ledger.committed k r hk), hshows⟩
  · obtain ⟨r, -, hr, hshows⟩ := shows_of_mem_changes hsound hes hlen ho hids hc
    exact ⟨r, hr, hshows⟩

include ho in
/-- The newest record of a formation of a live app was brought, if the query found
it or it was announced. -/
theorem brought_of_live {k : String}
    (hlive : ∃ row,
      (h.run (lifetime id since between after)).store.liveApp? r.formation.app = some row)
    (hreach : ((h.atReplay between).store.formations.get? k = some r ∧
      ∃ t, r.changedAt = some t ∧ since ≤ t) ∨
      r ∈ h.announcements (lifetime id since between after)) :
    ∃ c ∈ Feed.replayOf (h.atReplay between).store since ++
      h.changes (lifetime id since between after), c.Shows r := by
  rcases hreach with ⟨hget, t, ht, hle⟩ | hannounced
  · obtain ⟨hs', hids', hext, -⟩ := atReplay_sound hsound hes hlen hids
    have hlive' := hext.live (hs'.consistent.refers k r hget).app hlive
    obtain ⟨c, hc, hshows⟩ := exists_mem_replayOf hs'.consistent hids' hget ht hle hlive'
    exact ⟨c, List.mem_append_left _ hc, hshows⟩
  · obtain ⟨front, e, back, he, hannounced⟩ := mem_trace.1 hannounced
    have hannounced := Option.mem_toList.1 hannounced
    obtain ⟨-, href⟩ := announced_along hsound hes hlen ho he hannounced
    have hsplit : lifetime id since between after = (front ++ [e]) ++ back := by
      rw [he, List.append_assoc, List.singleton_append]
    obtain ⟨-, -, -, hext⟩ := store_along hsound.consistent hes hids hsplit
    rw [run_append] at hext
    obtain ⟨c, hc, hshows⟩ :=
      exists_mem_changes hsound hes hlen ho hids he hannounced (hext.live href.app hlive)
    exact ⟨c, List.mem_append_right _ hc, hshows⟩

include ho in
/-- Of a formation whose newest record is among what came, the last news is that record. -/
theorem lastOf_newsAfter_of_shows {ds : List Change}
    (hds : ∀ d ∈ ds, d ∈ Feed.replayOf (h.atReplay between).store since ++
      h.changes (lifetime id since between after))
    {k : String} (hr : (h.run (lifetime id since between after)).store.formations.get? k = some r)
    (hcame : ∃ c ∈ ds, c.Shows r) :
    ∃ c, lastOf k (newsAfter [] ds) = some c ∧ c.Shows r := by
  have hfinal := hsound.run hes hlen
  obtain ⟨c, hc, hshows⟩ := hcame
  have hkey : c.key = k := hshows.key.trans (hfinal.consistent.record_key k r hr)
  have hmax : ∀ d ∈ ds, d.key = c.key → d.version ≤ c.version := by
    intro d hd hdk
    obtain ⟨r', hr', hshows'⟩ := exists_shows hsound hes hlen ho hids (hds d hd)
    rw [hshows.version, hshows'.version]
    exact hfinal.ledger.le_of_get? hr hr' (hshows'.key.symm.trans (hdk.trans hkey))
  obtain ⟨d, hd, hlast, -, hversion⟩ := lastOf_newsAfter hc hmax
  obtain ⟨r', hr', hshows'⟩ := exists_shows hsound hes hlen ho hids (hds d hd)
  have he : r' = r := by
    refine hfinal.ledger.eq_of_version hr' (hfinal.ledger.committed k r hr) ?_
    rw [← hshows'.version, hversion, hshows.version]
  rw [← hkey]
  exact ⟨d, hlast, he ▸ hshows'⟩

include ho in
/-- Of a formation whose newest record was in the replay or was offered, an idle subscription has
told that record last. -/
theorem Subscribes.lastOf_yields (hs : h.Subscribes id between after) (hn : h.feed.Numbered)
    (hidle : (h.run (lifetime id since between after)).feed.Idle id) {k : String}
    (hr : (h.run (lifetime id since between after)).store.formations.get? k = some r)
    (hbrought : ∃ c ∈ Feed.replayOf (h.atReplay between).store since ++
      h.changes (lifetime id since between after),
      c.Shows r) :
    ∃ c, lastOf k (changesOf (h.yields id (lifetime id since between after))) = some c ∧
      c.Shows r := by
  rw [hs.changesOf_yields hn hidle]
  exact lastOf_newsAfter_of_shows hsound hes hlen ho hids (fun d hd => hd) hr hbrought

end Subscribes

end Hub
end ControlPlane
