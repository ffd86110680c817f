import ControlPlane.Proofs.Feed.Coverage

/-! # From replay to live changes, while writers race

A writer commits a formation and announces it in two steps; a subscriber registers and reads its
replay in two steps. However these come one after another, each formation's versions are yielded in
order, and the newest is yielded once its announcement has come.
-/
namespace ControlPlane
namespace Hub

/-- A hub with the records that writers have committed and have still to announce. -/
structure Race where
  hub : Hub
  pending : List FormationRecord := []

namespace Race

/-- Whoever commits announces later, and nobody announces anything else. -/
def step (x : Race) (e : Event) : Option Race :=
  match e with
  | .write .. => some ⟨x.hub.step e, x.pending ++ (x.hub.committed e).toList⟩
  | .announce r => if r ∈ x.pending then some ⟨x.hub.step e, x.pending.erase r⟩ else none
  | _ => some ⟨x.hub.step e, x.pending⟩

def run (x : Race) : List Event → Option Race
  | [] => some x
  | e :: es => (x.step e).bind (run · es)

variable {x y : Race} {e : Event} {es : List Event} {past : List FormationRecord}
  {r : FormationRecord}

theorem run_cons (h : x.run (e :: es) = some y) : ∃ z, x.step e = some z ∧ z.run es = some y :=
  Option.bind_eq_some_iff.1 h

theorem run_append {es' : List Event} (h : x.run (es ++ es') = some y) :
    ∃ z, x.run es = some z ∧ z.run es' = some y := by
  induction es generalizing x with
  | nil => exact ⟨x, rfl, h⟩
  | cons e es ih =>
    obtain ⟨z, hz, hrest⟩ := run_cons h
    obtain ⟨w, hw, hw'⟩ := ih hrest
    exact ⟨w, by rw [run, hz]; exact hw, hw'⟩

/-- A step of a race is a step of its hub; a record that it commits or that was pending is announced
or is pending after it, and nothing else is. -/
structure Steps (x : Race) (e : Event) (y : Race) : Prop where
  hub : y.hub = x.hub.step e
  kept : ∀ r, r ∈ x.pending ∨ x.hub.committed e = some r →
    x.hub.announced e = some r ∨ r ∈ y.pending
  announced : ∀ r, x.hub.announced e = some r → r ∈ x.pending ∨ x.hub.committed e = some r
  pending : ∀ r ∈ y.pending, r ∈ x.pending ∨ x.hub.committed e = some r

theorem steps_of_step (h : x.step e = some y) : Steps x e y := by
  cases e with
  | write m w =>
    cases h
    exact ⟨rfl, fun r hr => .inr (by simpa using hr), fun r hr => (by cases hr), by simp⟩
  | announce r =>
    simp only [step] at h
    split at h
    · next hr =>
      cases h
      refine ⟨rfl, ?_, ?_, ?_⟩
      · rintro r' (hr' | hr')
        · by_cases he : r' = r
          · exact .inl (congrArg some he.symm)
          · exact .inr ((List.mem_erase_of_ne he).2 hr')
        · cases hr'
      · intro r' hr'
        cases hr'
        exact .inl hr
      · exact fun r' hr' => .inl (List.mem_of_mem_erase hr')
    · cases h
  | put m formation =>
    cases h; exact ⟨rfl, fun r hr => hr.symm, fun r hr => .inr hr, fun r hr => .inl hr⟩
  | delete m app release =>
    cases h; exact ⟨rfl, fun r hr => hr.symm, fun r hr => .inr hr, fun r hr => .inl hr⟩
  | _ =>
    cases h
    refine ⟨rfl, ?_, fun r hr => (by cases hr), fun r hr => .inl hr⟩
    rintro r (hr | hr)
    · exact .inr hr
    · cases hr

theorem hub_of_run (h : x.run es = some y) : y.hub = x.hub.run es := by
  induction es generalizing x with
  | nil => cases h; rfl
  | cons e es ih =>
    obtain ⟨z, hz, hrest⟩ := run_cons h
    rw [ih hrest, (steps_of_step hz).hub]
    rfl

/-- What was committed in a race is announced in it, or is still pending. -/
theorem announced_or_pending (h : x.run es = some y) (hr : r ∈ x.pending ∨ r ∈ x.hub.commits es) :
    r ∈ x.hub.announcements es ∨ r ∈ y.pending := by
  induction es generalizing x with
  | nil =>
    cases h
    rcases hr with hr | hr
    · exact .inr hr
    · cases hr
  | cons e es ih =>
    obtain ⟨z, hz, hrest⟩ := run_cons h
    have hs := steps_of_step hz
    have hcons : ∀ r, r ∈ z.hub.announcements es → r ∈ x.hub.announcements (e :: es) := by
      rw [hs.hub]
      exact fun r hr => List.mem_append_right _ hr
    have hlater : r ∈ z.pending ∨ r ∈ z.hub.commits es →
        r ∈ x.hub.announcements (e :: es) ∨ r ∈ y.pending :=
      fun hr => (ih hrest hr).imp_left (hcons r)
    have hnow : r ∈ x.pending ∨ x.hub.committed e = some r →
        r ∈ x.hub.announcements (e :: es) ∨ r ∈ y.pending := by
      intro hr
      rcases hs.kept r hr with hr | hr
      · exact .inl (List.mem_append_left _ (Option.mem_toList.2 hr))
      · exact hlater (.inl hr)
    rcases hr with hr | hr
    · exact hnow (.inl hr)
    · rcases List.mem_append.1 hr with hr | hr
      · exact hnow (.inr (Option.mem_toList.1 hr))
      · exact hlater (.inr (by rw [hs.hub]; exact hr))

/-- A race announces only what it committed. -/
theorem onlyCommitted (h : x.run es = some y) (hp : ∀ r ∈ x.pending, r ∈ past) :
    OnlyCommitted past x.hub es ∧ ∀ r ∈ y.pending, r ∈ past ++ x.hub.commits es := by
  induction es generalizing x past with
  | nil =>
    cases h
    refine ⟨fun front e back he => ?_, fun r hr => List.mem_append_left _ (hp r hr)⟩
    cases front <;> cases he
  | cons e es ih =>
    obtain ⟨z, hz, hrest⟩ := run_cons h
    have hs := steps_of_step hz
    have hsofar : ∀ r, r ∈ x.pending ∨ x.hub.committed e = some r →
        r ∈ past ++ (x.hub.committed e).toList := by
      rintro r (hr | hr)
      · exact List.mem_append_left _ (hp r hr)
      · exact List.mem_append_right _ (Option.mem_toList.2 hr)
    obtain ⟨honly, hpending⟩ := ih hrest fun r hr => hsofar r (hs.pending r hr)
    rw [hs.hub] at honly hpending
    refine ⟨.cons (fun r hr => hsofar r (hs.announced r hr)) honly, ?_⟩
    rw [List.append_assoc] at hpending
    exact hpending

end Race

/-- However writers and a subscriber interleave: the versions that are yielded of one formation
increase, and once nothing is pending and the subscription is idle, what it yielded last of a
formation is its newest record, if that formation changed at or after `since` by the time of the
query or was committed after the registration. The apps of these formations are still there, and the
counter of versions has not come round. -/
theorem handover_lossless (size : Nat) {before between after : List Event} {id : Nat}
    {since : Instant} {y : Race}
    (hrun : Race.run ⟨ofBuffer size, []⟩ (before ++ lifetime id since between after) = some y)
    (hproper : ∀ e ∈ before ++ lifetime id since between after, e.Proper)
    (hcount : ((ofBuffer size).commits (before ++ lifetime id since between after)).length <
      UInt64.size)
    (hs : ((ofBuffer size).run before).Subscribes id between after)
    (hids : y.hub.store.AppsIdentified) :
    let opened := (ofBuffer size).run before
    let ys := opened.yields id (lifetime id since between after)
    Increasing (changesOf ys) ∧ (y.pending = [] → y.hub.feed.Idle id →
      ∀ k r, y.hub.store.formations.get? k = some r →
        (∃ row, y.hub.store.liveApp? r.formation.app = some row) →
        ((∃ q t, (opened.atReplay between).store.formations.get? k = some q ∧
          q.changedAt = some t ∧ since ≤ t) ∨
          ∃ q ∈ opened.commits (lifetime id since between after), q.key = k) →
        ∃ c, lastOf k (changesOf ys) = some c ∧ c.version = r.version) := by
  intro opened ys
  have hn : opened.feed.Numbered := numbered_run (numbered_ofBuffer size)
  obtain ⟨x, hx, hy⟩ := Race.run_append hrun
  have hopened : x.hub = opened := Race.hub_of_run hx
  have hfinal : y.hub = opened.run (lifetime id since between after) := by
    rw [Race.hub_of_run hy, hopened]
  have hcommits := (ofBuffer size).commits_append before (lifetime id since between after)
  have hbefore : ∀ e ∈ before, e.Proper := fun e he => hproper e (List.mem_append_left _ he)
  have hes : ∀ e ∈ lifetime id since between after, e.Proper :=
    fun e he => hproper e (List.mem_append_right _ he)
  rw [hcommits] at hcount
  have hsound : opened.Sound ((ofBuffer size).commits before) := by
    refine (sound_ofBuffer size).run hbefore ?_
    rw [List.length_append] at hcount
    exact Nat.lt_of_le_of_lt (Nat.le_add_right _ _) hcount
  refine ⟨?_, fun hpending hidle k r hr hlive hreach => ?_⟩
  · obtain ⟨sub, -, hserved⟩ := hs.served hn since
    exact hserved.increasing
  have honly :
      OnlyCommitted ((ofBuffer size).commits before) opened (lifetime id since between after) := by
    have hpend : ∀ r ∈ x.pending, r ∈ [] ++ (ofBuffer size).commits before :=
      (Race.onlyCommitted hx (by simp)).2
    rw [← hopened]
    exact (Race.onlyCommitted hy hpend).1
  have hannounced : ∀ q ∈ opened.commits (lifetime id since between after),
      q ∈ opened.announcements (lifetime id since between after) := by
    intro q hq
    rw [← hopened] at hq ⊢
    simpa [hpending] using Race.announced_or_pending hy (.inr hq)
  rw [hfinal] at hids hidle hr hlive
  have hend := hsound.run hes hcount
  have hnewest :
      ((opened.atReplay between).store.formations.get? k = some r ∧
        ∃ t, r.changedAt = some t ∧ since ≤ t) ∨
      r ∈ opened.announcements (lifetime id since between after) := by
    rcases hreach with ⟨q, t, hq, ht, hle⟩ | ⟨q, hq, hk⟩
    · -- the record that the query found is still the newest, or a newer one came after the query
      rcases found_or_committed hsound hes hcount hids hr with hget | hmem
      · rw [hq] at hget
        cases hget
        exact .inl ⟨hq, t, ht, hle⟩
      · refine .inr (hannounced r ?_)
        rw [lifetime, commits_append]
        exact List.mem_append_right _ hmem
    · have hge : q.version ≤ r.version := hend.ledger.le_of_get? hr (List.mem_append_right _ hq) hk
      exact .inr (hannounced r (hend.ledger.mem_of_le hq (hend.ledger.committed k r hr) hge))
  have hbrought := brought_of_live hsound hes hcount honly hids hlive hnewest
  obtain ⟨c, hlast, hshows⟩ := hs.lastOf_yields hsound hes hcount honly hids hn hidle hr hbrought
  exact ⟨c, hlast, hshows.version⟩

/-- The first write of a formation comes before the query, the second after it, and the
second is announced first. -/
theorem handover_lossless_of_crossing :
    let before := sampleSetup
    let between : List Event := [.write (sampleMoment 1) (.putFormation (sampleFormation 1))]
    let after : List Event := [.write (sampleMoment 2) (.putFormation (sampleFormation 2)),
      .announce (sampleRecord 2), .announce (sampleRecord 1), .poll 0 none]
    ∃ y, Race.run ⟨ofBuffer 8, []⟩ (before ++ lifetime 0 .epoch between after) = some y ∧
      y.pending = [] ∧
      y.hub.feed.Idle 0 ∧ ∃ c, lastOf (Formation.keyOf sampleApp sampleRelease)
        (changesOf (((ofBuffer 8).run before).yields 0 (lifetime 0 .epoch between after))) =
          some c ∧ c.version = 2 := by
  intro before between after
  have hrun :
      (Race.run ⟨ofBuffer 8, []⟩ (before ++ lifetime 0 .epoch between after)).map
        (·.pending) = some [] ∧
      ((ofBuffer 8).run before).Subscribes 0 between after ∧
      ((ofBuffer 8).commits (before ++ lifetime 0 .epoch between after)).length < UInt64.size ∧
      ((ofBuffer 8).run (before ++ lifetime 0 .epoch between after)).store.AppsIdentified ∧
      ((ofBuffer 8).run (before ++ lifetime 0 .epoch between after)).feed.Idle 0 ∧
      ((ofBuffer 8).run (before ++ lifetime 0 .epoch between after)).store.formations.get?
        (Formation.keyOf sampleApp sampleRelease) = some (sampleRecord 2) ∧
      (((ofBuffer 8).run (before ++ lifetime 0 .epoch between after)).store.liveApp?
        sampleApp).isSome ∧
      ∃ q ∈ ((ofBuffer 8).run before).commits (lifetime 0 .epoch between after),
        q.key = Formation.keyOf sampleApp sampleRelease := by
    decide +kernel
  obtain ⟨hsome, hs, hcount, hids, hidle, hr, hlive, hcommitted⟩ := hrun
  obtain ⟨y, hy, hpending⟩ := Option.map_eq_some_iff.1 hsome
  have hhub : y.hub = (ofBuffer 8).run (before ++ lifetime 0 .epoch between after) :=
    Race.hub_of_run hy
  rw [← hhub] at hids hidle hr hlive
  have hlossless := handover_lossless 8 hy (by decide +kernel) hcount hs hids
  refine ⟨y, hy, hpending, hidle, ?_⟩
  exact hlossless.2 hpending hidle _ (sampleRecord 2) hr (Option.isSome_iff_exists.1 hlive)
    (.inr hcommitted)

end Hub
end ControlPlane
