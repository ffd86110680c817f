import ControlPlane.Proofs.Feed.Coverage

/-! # Runs that announce what they commit at once

Where writing and announcing are one event, every commit is offered at once, in the order of the
versions, as its app is there. The times of the commits come from the clock that the events read.
-/
namespace ControlPlane
namespace Hub
open Store

variable {h : Hub} {past : List FormationRecord} {es : List Event} {e : Event}
  {r : FormationRecord} {c : Change}

theorem announced_eq_committed (h : Hub) (he : e.isAdjacent = true) :
    h.announced e = h.committed e := by
  cases e with
  | write m w =>
    cases w with
    | putFormation formation => cases he
    | deleteFormation app release => cases he
    | _ => rfl
  | announce r => cases he
  | _ => rfl

theorem announcements_eq_commits (h : Hub) (hes : ∀ e ∈ es, e.isAdjacent = true) :
    h.announcements es = h.commits es := by
  induction es generalizing h with
  | nil => rfl
  | cons e es ih =>
    have hnow := h.announced_eq_committed (hes e (by simp))
    have hlater := ih (h.step e) fun e he => hes e (by simp [he])
    change (h.announced e).toList ++ (h.step e).announcements es =
      (h.committed e).toList ++ (h.step e).commits es
    rw [hnow, hlater]

theorem onlyCommitted_of_adjacent (past : List FormationRecord) (h : Hub)
    (hes : ∀ e ∈ es, e.isAdjacent = true) :
    OnlyCommitted past h es := by
  induction es generalizing h past with
  | nil =>
    intro front e back he
    cases front <;> cases he
  | cons e es ih =>
    refine .cons (fun r hr => ?_) (ih _ _ fun e he => hes e (by simp [he]))
    rw [h.announced_eq_committed (hes e (by simp))] at hr
    simp [hr]

/-- Where a record is committed, its app is there, before the event and after it. -/
theorem live_of_committed (hs : h.store.Consistent) (hids : h.store.AppsIdentified)
    (hr : h.committed e = some r) :
    ∃ row, h.store.liveApp? r.formation.app = some row ∧
      (h.step e).store.liveApp? r.formation.app = some row := by
  obtain ⟨-, -, hnone⟩ | ⟨p, -, heffect⟩ := h.step_effect e
  · rw [hnone] at hr
    cases hr
  · rw [hr] at heffect
    obtain ⟨row, hrow⟩ := heffect.live hs hids
    have hstore := (heffect.commits hs).store
    exact ⟨row, hrow, by rw [hstore]; exact hrow⟩

/-- A record is stamped by the event that commits it. -/
theorem changedAt_of_mem_commits (hs : h.store.Consistent) (hes : ∀ e ∈ es, e.Proper)
    (hr : r ∈ h.commits es) :
    ∃ e ∈ es, ∃ p ∈ e.write?, r.changedAt = some p.1.now := by
  obtain ⟨front, e, back, he, hcommitted⟩ := mem_trace.1 hr
  have hcommitted := Option.mem_toList.1 hcommitted
  have hs' : (h.run front).store.Consistent :=
    run_consistent hs fun e' he' => hes e' (he ▸ List.mem_append_left _ he')
  obtain ⟨-, -, hnone⟩ | ⟨p, hp, heffect⟩ := (h.run front).step_effect e
  · rw [hnone] at hcommitted
    cases hcommitted
  · rw [hcommitted] at heffect
    exact ⟨e, by simp [he], p, hp, (heffect.commits hs').changed⟩

/-- The clock that writes read does not go backwards. -/
def Clocked (es : List Event) : Prop :=
  (es.filterMap Event.write?).Pairwise (fun p q => p.1.now ≤ q.1.now)

instance (es : List Event) : Decidable (Clocked es) :=
  inferInstanceAs (Decidable ((es.filterMap Event.write?).Pairwise (fun p q => p.1.now ≤ q.1.now)))

theorem clocked_cons : Clocked (e :: es) ↔
    (∀ p ∈ e.write?, ∀ q ∈ es.filterMap Event.write?, p.1.now ≤ q.1.now) ∧ Clocked es := by
  unfold Clocked
  cases he : e.write? <;> simp [he]

theorem commits_clocked (hs : h.store.Consistent) (hes : ∀ e ∈ es, e.Proper) (hclock : Clocked es) :
    (h.commits es).Pairwise (fun r r' => ∀ t t', r.changedAt = some t →
      r'.changedAt = some t' → t ≤ t') := by
  induction es generalizing h with
  | nil => exact .nil
  | cons e es ih =>
    obtain ⟨hnow, hlater⟩ := clocked_cons.1 hclock
    have hs' := step_consistent hs (hes e (by simp))
    have hes' : ∀ e ∈ es, e.Proper := fun e he => hes e (by simp [he])
    refine List.pairwise_append.2 ⟨by cases h.committed e <;> simp, ih hs' hes' hlater, ?_⟩
    intro r hr r' hr' t t' ht ht'
    obtain ⟨e', he', p', hp', hchanged'⟩ := changedAt_of_mem_commits hs' hes' hr'
    obtain ⟨-, -, hnone⟩ | ⟨p, hp, heffect⟩ := h.step_effect e
    · simp [hnone] at hr
    · rw [Option.mem_toList.1 hr] at heffect
      have hchanged : r.changedAt = some p.1.now := (heffect.commits hs).changed
      rw [hchanged, Option.some.injEq] at ht
      rw [hchanged', Option.some.injEq] at ht'
      rw [← ht, ← ht']
      exact hnow p hp p' (List.mem_filterMap.2 ⟨e', he', hp'⟩)

/-- Records of higher versions changed no earlier. -/
def TimeOrdered (rs : List FormationRecord) : Prop :=
  ∀ q ∈ rs, ∀ r ∈ rs, q.version ≤ r.version → ∀ t t', q.changedAt = some t →
    r.changedAt = some t' → t ≤ t'

theorem timeOrdered_commits (hs : h.store.Consistent) (hes : ∀ e ∈ es, e.Proper)
    (hclock : Clocked es) (hl : (h.run es).store.Ledger (past ++ h.commits es)) :
    TimeOrdered (h.commits es) := by
  have hforth : (h.commits es).Pairwise (fun q r => q.version ≤ r.version →
      ∀ t t', q.changedAt = some t → r.changedAt = some t' → t ≤ t') :=
    (commits_clocked hs hes hclock).imp fun hqr _ t t' ht ht' => hqr t t' ht ht'
  have hback : (h.commits es).Pairwise (flip fun q r => q.version ≤ r.version →
      ∀ t t', q.changedAt = some t → r.changedAt = some t' → t ≤ t') := by
    refine (List.pairwise_append.1 hl.increasing).2.1.imp fun hlt hge => ?_
    exact absurd hge (UInt64.not_le.2 hlt)
  refine fun q hq r hr => hforth.forall_of_forall_of_flip (fun q _ _ t t' ht ht' => ?_) hback hq hr
  cases ht.symm.trans ht'
  exact Int.le_refl _

/-- The versions of what is offered are those of what is committed, but for what is passed over. -/
theorem changes_sublist (h : Hub) (hes : ∀ e ∈ es, e.isAdjacent = true) :
    ((h.changes es).map (·.version)).Sublist ((h.commits es).map (·.version)) := by
  induction es generalizing h with
  | nil => exact .slnil
  | cons e es ih =>
    have hlater := ih (h.step e) fun e he => hes e (by simp [he])
    have hnow :
        ((h.offered e).toList.map (·.version)).Sublist
          ((h.committed e).toList.map (·.version)) := by
      rw [offered, h.announced_eq_committed (hes e (by simp))]
      cases h.committed e with
      | none => exact .slnil
      | some r =>
        cases hc : Change.expand? (h.step e).store r with
        | none => simp [hc]
        | some c => simp [hc, version_of_expand? hc]
    change (((h.offered e).toList ++ (h.step e).changes es).map (·.version)).Sublist
      (((h.committed e).toList ++ (h.step e).commits es).map (·.version))
    rw [List.map_append, List.map_append]
    exact hnow.append hlater

theorem changes_sorted (hl : (h.run es).store.Ledger (past ++ h.commits es))
    (hes : ∀ e ∈ es, e.isAdjacent = true) :
    (h.changes es).Pairwise (fun c d => c.version < d.version) := by
  have hcommits : ((h.commits es).map (·.version)).Pairwise (· < ·) :=
    List.pairwise_map.2 (List.pairwise_append.1 hl.increasing).2.1
  exact List.pairwise_map.1 (hcommits.sublist (h.changes_sublist hes))

section Sound
variable (hs : h.Sound past) (hes : ∀ e ∈ es, e.Proper) (hids : (h.run es).store.AppsIdentified)
include hs hes hids

/-- Whatever is committed for an app that was there before the run was committed while
the app was still there. -/
theorem live_of_mem_commits (hr : r ∈ h.commits es)
    (happ : ∃ row, h.store.apps.get? r.formation.app = some row) :
    ∃ row, h.store.liveApp? r.formation.app = some row := by
  obtain ⟨front, e, back, he, hcommitted⟩ := mem_trace.1 hr
  obtain ⟨hs', hids', hext, -⟩ := store_along hs.consistent hes hids he
  obtain ⟨row, hrow, -⟩ := live_of_committed hs' hids' (Option.mem_toList.1 hcommitted)
  exact hext.live happ ⟨row, hrow⟩

/-- Every commit is offered. -/
theorem exists_mem_changes_of_commit (hadjacent : ∀ e ∈ es, e.isAdjacent = true)
    (hlen : (past ++ h.commits es).length < UInt64.size) (hr : r ∈ h.commits es) :
    ∃ c ∈ h.changes es, c.Shows r := by
  obtain ⟨front, e, back, he, hcommitted⟩ := mem_trace.1 hr
  have hcommitted := Option.mem_toList.1 hcommitted
  have hannounced : (h.run front).announced e = some r :=
    (announced_eq_committed _ (hadjacent e (by simp [he]))).trans hcommitted
  obtain ⟨hs', hids', -, -⟩ := store_along hs.consistent hes hids he
  obtain ⟨row, -, hlive⟩ := live_of_committed hs' hids' hcommitted
  exact exists_mem_changes hs hes hlen (onlyCommitted_of_adjacent past h hadjacent) hids he
    hannounced ⟨row, hlive⟩

end Sound

/-- A subscription that is opened in a run that announces at once what it commits. -/
structure Opened (past : List FormationRecord) (h : Hub) (id : Nat) (since : Instant)
    (between after : List Event) :
    Prop where
  subscribes : h.Subscribes id between after
  numbered : h.feed.Numbered
  sound : h.Sound past
  proper : ∀ e ∈ lifetime id since between after, e.Proper
  adjacent : ∀ e ∈ lifetime id since between after, e.isAdjacent = true
  count : (past ++ h.commits (lifetime id since between after)).length < UInt64.size
  ids : (h.run (lifetime id since between after)).store.AppsIdentified

/-- Such a subscription that is idle at the end. -/
structure Followed (past : List FormationRecord) (h : Hub) (id : Nat) (since : Instant)
    (between after : List Event) :
    Prop extends Opened past h id since between after where
  idle : (h.run (lifetime id since between after)).feed.Idle id

section Opened
variable {id : Nat} {since : Instant} {between after : List Event} {k : String}

/-- A subscription that is opened in the course of a run. -/
theorem opened_of_run (hn : h.feed.Numbered) (hsound : h.Sound past)
    (hes : ∀ e ∈ es ++ lifetime id since between after, e.Proper)
    (hadjacent : ∀ e ∈ lifetime id since between after, e.isAdjacent = true)
    (hlen : (past ++ h.commits (es ++ lifetime id since between after)).length < UInt64.size)
    (hs : (h.run es).Subscribes id between after)
    (hids : (h.run (es ++ lifetime id since between after)).store.AppsIdentified) :
    Opened (past ++ h.commits es) (h.run es) id since between after := by
  rw [commits_append, ← List.append_assoc] at hlen
  rw [run_append] at hids
  have hsound' : (h.run es).Sound (past ++ h.commits es) := by
    refine hsound.run (fun e he => hes e (List.mem_append_left _ he)) ?_
    rw [List.length_append] at hlen
    omega
  exact ⟨hs, numbered_run hn, hsound', fun e he => hes e (List.mem_append_right _ he),
    hadjacent, hlen, hids⟩

/-- A subscription that is opened in a run that goes on after it. -/
theorem opened_of_run_append {more : List Event} (hn : h.feed.Numbered) (hsound : h.Sound past)
    (hes : ∀ e ∈ es ++ lifetime id since between after ++ more, e.Proper)
    (hadjacent : ∀ e ∈ lifetime id since between after, e.isAdjacent = true)
    (hlen : (past ++ h.commits (es ++ lifetime id since between after ++ more)).length <
      UInt64.size)
    (hs : (h.run es).Subscribes id between after)
    (hids : (h.run (es ++ lifetime id since between after ++ more)).store.AppsIdentified) :
    Opened (past ++ h.commits es) (h.run es) id since between after := by
  obtain ⟨-, hids', -, -⟩ := store_along hsound.consistent hes hids rfl
  refine opened_of_run hn hsound (fun e he => hes e (List.mem_append_left _ he))
    hadjacent ?_ hs hids'
  rw [commits_append, ← List.append_assoc, List.length_append] at hlen
  omega

namespace Opened
variable (ho : Opened past h id since between after)
include ho

theorem onlyCommitted : OnlyCommitted past h (lifetime id since between after) :=
  onlyCommitted_of_adjacent past h ho.adjacent

theorem sound_run :
    (h.run (lifetime id since between after)).Sound
      (past ++ h.commits (lifetime id since between after)) :=
  ho.sound.run ho.proper ho.count

theorem extends_run : Extends h.store (h.run (lifetime id since between after)).store :=
  run_extends ho.sound.consistent ho.proper

end Opened

namespace Followed
variable (hf : Followed past h id since between after)
include hf

/-- The newest record was told last if the query found it with its app, or if it was committed
since the registration. -/
theorem told (hr : (h.run (lifetime id since between after)).store.formations.get? k = some r)
    (hreach : ((h.atReplay between).store.formations.get? k = some r ∧
        (∃ row, (h.atReplay between).store.liveApp? r.formation.app = some row) ∧
        ∃ t, r.changedAt = some t ∧ since ≤ t) ∨ r ∈ h.commits (lifetime id since between after)) :
    ∃ c, lastOf k (changesOf (h.yields id (lifetime id since between after))) = some c ∧
      c.Shows r := by
  refine hf.subscribes.lastOf_yields hf.sound hf.proper hf.count hf.onlyCommitted hf.ids
    hf.numbered hf.idle hr ?_
  rcases hreach with ⟨hget, hlive, t, ht, hle⟩ | hmem
  · obtain ⟨hs', hids', -, -⟩ := atReplay_sound hf.sound hf.proper hf.count hf.ids
    obtain ⟨c, hc, hshows⟩ := exists_mem_replayOf hs'.consistent hids' hget ht hle hlive
    exact ⟨c, List.mem_append_left _ hc, hshows⟩
  · obtain ⟨c, hc, hshows⟩ :=
      exists_mem_changes_of_commit hf.sound hf.proper hf.ids hf.adjacent hf.count hmem
    exact ⟨c, List.mem_append_right _ hc, hshows⟩

/-- Nothing was told of a formation that the query did not find, or not with its app, and that was
not committed since the registration. -/
theorem untold
    (hquery : ∀ r, (h.atReplay between).store.formations.get? k = some r →
      (∃ t, r.changedAt = some t ∧ since ≤ t) →
      (h.atReplay between).store.liveApp? r.formation.app = none)
    (hcommits : ∀ r ∈ h.commits (lifetime id since between after), r.key ≠ k) :
    lastOf k (changesOf (h.yields id (lifetime id since between after))) = none := by
  rw [hf.subscribes.changesOf_yields hf.numbered hf.idle]
  refine lastOf_eq_none fun c hc hk => ?_
  rcases List.mem_append.1 ((newsAfter_sublist [] _).subset hc) with hc | hc
  · obtain ⟨hs', hids', -, -⟩ := atReplay_sound hf.sound hf.proper hf.count hf.ids
    obtain ⟨r, hr, hexpand⟩ := mem_replayOf.1 hc
    obtain ⟨⟨k', hk'⟩, hchanged⟩ := mem_formationChangesSince.1 hr
    have href := hs'.consistent.refers k' r hk'
    have hkey : k' = k := by
      rw [← hs'.consistent.record_key k' r hk', ← hk]
      exact (shows_of_expand? hs'.consistent hids' href hexpand).key.symm
    subst hkey
    have hgone := (expand?_eq_none hs'.consistent hids' href).2 (hquery r hk' hchanged)
    rw [hexpand] at hgone
    cases hgone
  · obtain ⟨r, hr, -, hshows⟩ :=
      shows_of_mem_changes hf.sound hf.proper hf.count hf.onlyCommitted hf.ids hc
    rw [announcements_eq_commits h hf.adjacent] at hr
    exact hcommits r hr (hshows.key.symm.trans hk)

end Followed
end Opened

end Hub
end ControlPlane
