import ControlPlane.Proofs.Feed.Adjacent

/-! # What subscribers who came early and late make of the formations

The picture of a subscriber is what it was told last of each formation. The deletion of an app is
not told, but a replay passes over the formations of apps that are gone, so a late picture is an
early one without these.
-/
namespace ControlPlane

/-- The processes that a formation runs by the last that was told of it, if it is live by that. -/
def picture (ds : List Delivery) (k : String) : Option (Dict Int32) :=
  (lastOf k (changesOf ds)).bind (·.formation.processes)

/-- There is a record of the formation, but its app is gone. -/
def Store.appGone (s : Store) (k : String) : Bool :=
  (s.formations.get? k).any fun r => (s.liveApp? r.formation.app).isNone

namespace Hub
open Store

/-- Two subscriptions of one run, opened at the epoch before and after `middle` and idle at its end,
make different pictures of a formation. -/
def PicturesDiffer (before middle : List Event) (k : String) : Prop :=
  let after : List Event := [.poll 0 none, .poll 1 none]
  let early := (ofBuffer 8).run before
  let late := early.run (lifetime 0 .epoch [] middle)
  let last := late.run (lifetime 1 .epoch [] after)
  early.Subscribes 0 [] (middle ++ lifetime 1 .epoch [] after) ∧ late.Subscribes 1 [] after ∧
    (∀ e ∈ before ++ lifetime 0 .epoch [] (middle ++ lifetime 1 .epoch [] after),
      e.isAdjacent = true ∧ e.Proper) ∧
    last.feed.Idle 0 ∧ last.feed.Idle 1 ∧
    picture (early.yields 0 (lifetime 0 .epoch [] (middle ++ lifetime 1 .epoch [] after))) k ≠
      picture (late.yields 1 (lifetime 1 .epoch [] after)) k

/-- Pictures differ over the deletion of an app and, where nothing is deleted, over an app that
stands under what is no identifier when another takes that for its name. -/
theorem pictures_differ :
    let key := Formation.keyOf sampleApp sampleRelease
    let misnamed : Event := .write (sampleMoment 0) (.createApp { id := "shop", name := "web" })
    let namesake : Event := .write (sampleMoment 2) (.createApp { id := sampleApp, name := "shop" })
    (Identifier.isId sampleApp = true ∧ PicturesDiffer sampleSetup
      [.put (sampleMoment 1) (sampleFormation 1), .write (sampleMoment 2) (.deleteApp "web")] key) ∧
    Identifier.isId "shop" = false ∧ PicturesDiffer (sampleSetup.take 2 ++ [misnamed])
      [.put (sampleMoment 1) { sampleFormation 1 with app := "web" }, namesake] key := by
  unfold PicturesDiffer
  decide +kernel

/-- What is told last of a formation is its whole picture. -/
private theorem picture_of_shows {ds : List Delivery} {k : String} {r : FormationRecord}
    (h : ∃ c, lastOf k (changesOf ds) = some c ∧ c.Shows r) :
    picture ds k = if r.isDeleted then none else some r.formation.processes := by
  obtain ⟨c, hlast, hshows⟩ := h
  rw [picture, hlast, Option.bind_some, hshows.processes]

/-- Two subscriptions of one run, opened at the epoch and idle at its end; all commits are
stamped after the epoch. -/
structure Meeting (past : List FormationRecord) (early late : Hub) (i j : Nat)
    (middle after : List Event) : Prop where
  late_eq : late = early.run (lifetime i .epoch [] middle)
  first : Followed past early i .epoch [] (middle ++ lifetime j .epoch [] after)
  second : Followed (past ++ early.commits (lifetime i .epoch [] middle)) late j .epoch [] after
  stamped :
    ∀ r ∈ past ++ early.commits (lifetime i .epoch [] (middle ++ lifetime j .epoch [] after)),
    ∃ t, r.changedAt = some t ∧ Instant.epoch ≤ t

namespace Meeting
variable {early late : Hub} {i j : Nat} {middle after : List Event}
  {past : List FormationRecord} {k : String}
  {r : FormationRecord}

private theorem split (i j : Nat) (middle after : List Event) :
    lifetime i .epoch [] (middle ++ lifetime j .epoch [] after) =
      lifetime i .epoch [] middle ++ lifetime j .epoch [] after := by
  simp [lifetime]

variable (hm : Meeting past early late i j middle after)
include hm

private theorem run_eq : early.run (lifetime i .epoch [] (middle ++ lifetime j .epoch [] after)) =
    late.run (lifetime j .epoch [] after) := by
  rw [split, run_append, ← hm.late_eq]

private theorem commits_eq :
    early.commits (lifetime i .epoch [] (middle ++ lifetime j .epoch [] after)) =
    early.commits (lifetime i .epoch [] middle) ++ late.commits (lifetime j .epoch [] after) := by
  rw [split, commits_append, ← hm.late_eq]

/-- A newest record whose app was there when the late subscription was opened
was told to both last. -/
private theorem both_told
    (hr : (late.run (lifetime j .epoch [] after)).store.formations.get? k = some r)
    (hlive : ∀ r, late.store.formations.get? k = some r →
      ∃ row, late.store.liveApp? r.formation.app = some row) :
    (∃ c, lastOf k (changesOf (late.yields j (lifetime j .epoch [] after))) = some c ∧ c.Shows r) ∧
      ∃ c, lastOf k (changesOf (early.yields i
        (lifetime i .epoch [] (middle ++ lifetime j .epoch [] after)))) = some c ∧ c.Shows r := by
  have hfinal := hm.second.sound_run
  have hmem := hfinal.ledger.committed k r hr
  have hstamp : ∃ t, r.changedAt = some t ∧ Instant.epoch ≤ t := by
    refine hm.stamped r ?_
    rw [hm.commits_eq, ← List.append_assoc]
    exact hmem
  have hr' : (early.run (lifetime i .epoch []
      (middle ++ lifetime j .epoch [] after))).store.formations.get? k = some r := by
    rw [hm.run_eq]
    exact hr
  rcases List.mem_append.1 hmem with hmem | hmem
  · have hget := hm.second.sound.get?_of_mem hfinal hr hmem
    have hlate := hlive r hget
    refine ⟨hm.second.told hr (.inl ⟨?_, ?_, hstamp⟩), hm.first.told hr' ?_⟩
    · exact late.store_register ▸ hget
    · exact late.store_register ▸ hlate
    · rcases List.mem_append.1 hmem with hmem | hmem
      · obtain ⟨-, -, hext, -⟩ :=
          store_along hm.first.sound.consistent hm.first.proper hm.first.ids
            (split i j middle after)
        rw [← hm.late_eq] at hext
        obtain ⟨hget', hearly⟩ := hm.first.sound.found hm.second.sound hext hget hlate hmem
        refine .inl ⟨?_, ?_, hstamp⟩
        · exact early.store_register ▸ hget'
        · exact early.store_register ▸ hearly
      · refine .inr ?_
        rw [hm.commits_eq]
        exact List.mem_append_left _ hmem
  · refine ⟨hm.second.told hr (.inr hmem), hm.first.told hr' (.inr ?_)⟩
    rw [hm.commits_eq]
    exact List.mem_append_right _ hmem

/-- Where there is no record of a formation, neither subscription was told of it. -/
private theorem none_told
    (hnone : (late.run (lifetime j .epoch [] after)).store.formations.get? k = none) :
    lastOf k (changesOf (late.yields j (lifetime j .epoch [] after))) = none ∧
      lastOf k (changesOf (early.yields i
        (lifetime i .epoch [] (middle ++ lifetime j .epoch [] after)))) = none := by
  have hfinal := hm.second.sound_run
  have hnever : ∀ r ∈ past ++ early.commits (lifetime i .epoch [] middle) ++
      late.commits (lifetime j .epoch [] after), r.key ≠ k := by
    rintro r hr rfl
    obtain ⟨r', hr', -⟩ := hfinal.ledger.current r hr
    rw [hnone] at hr'
    cases hr'
  have hnever' :
      ∀ r ∈ past ++ early.commits (lifetime i .epoch [] (middle ++ lifetime j .epoch [] after)),
        r.key ≠ k := by
    rw [hm.commits_eq, ← List.append_assoc]
    exact hnever
  constructor
  · refine hm.second.untold (fun r hr _ => ?_) fun r hr => hnever r (List.mem_append_right _ hr)
    have hr : late.store.formations.get? k = some r := late.store_register ▸ hr
    exact absurd (hm.second.sound.consistent.record_key k r hr)
      (hnever r (List.mem_append_left _ (hm.second.sound.ledger.committed k r hr)))
  · refine hm.first.untold (fun r hr _ => ?_) fun r hr => hnever' r (List.mem_append_right _ hr)
    have hr : early.store.formations.get? k = some r := early.store_register ▸ hr
    exact absurd (hm.first.sound.consistent.record_key k r hr)
      (hnever' r (List.mem_append_left _ (hm.first.sound.ledger.committed k r hr)))

/-- Of a formation whose app was gone when the late subscription was opened, that subscription is
told nothing: no event of it can come any more. -/
private theorem gone_untold {q : FormationRecord} (hq : late.store.formations.get? k = some q)
    (hgone : late.store.liveApp? q.formation.app = none) :
    lastOf k (changesOf (late.yields j (lifetime j .epoch [] after))) = none := by
  have hs := hm.second.sound
  have hfinal := hm.second.sound_run
  refine hm.second.untold (fun r hr _ => ?_) fun r hr hk => ?_
  · have hr : late.store.formations.get? k = some r := late.store_register ▸ hr
    rw [hq] at hr
    cases hr
    exact late.store_register ▸ hgone
  · have href : (late.run (lifetime j .epoch [] after)).store.Refers q  :=
      hm.second.extends_run.refers (hs.consistent.refers k q hq)
    have href' := hfinal.ledger.refers r (List.mem_append_right _ hr)
    have happ : r.formation.app = q.formation.app :=
      href'.app_eq href hfinal.consistent hm.second.ids
        (hk.trans (hs.consistent.record_key k q hq).symm)
    have hin : ∃ row, late.store.apps.get? r.formation.app = some row :=
      happ ▸ (hs.consistent.refers k q hq).app
    obtain ⟨row, hrow⟩ := live_of_mem_commits hs hm.second.proper hm.second.ids hr hin
    rw [happ, hgone] at hrow
    cases hrow

/-- The late picture is the early one but for the formations of apps that were gone by then. -/
private theorem picture_eq (k : String) : picture (late.yields j (lifetime j .epoch [] after)) k =
    if late.store.appGone k then none
    else picture
      (early.yields i (lifetime i .epoch [] (middle ++ lifetime j .epoch [] after))) k := by
  split
  · next hgone =>
    obtain ⟨q, hq, hnone⟩ := (Option.any_eq_true _ _).1 hgone
    rw [picture, hm.gone_untold hq (Option.isNone_iff_eq_none.1 hnone)]
    rfl
  · next hgone =>
    cases hr : (late.run (lifetime j .epoch [] after)).store.formations.get? k with
    | none =>
      obtain ⟨hlate, hearly⟩ := hm.none_told hr
      rw [picture, picture, hlate, hearly]
    | some r =>
      have hlive : ∀ q, late.store.formations.get? k = some q →
          ∃ row, late.store.liveApp? q.formation.app = some row := by
        intro q hq
        rw [appGone, hq] at hgone
        exact Option.ne_none_iff_exists'.1 (by simpa using hgone)
      obtain ⟨hlate, hearly⟩ := hm.both_told hr hlive
      rw [picture_of_shows hlate, picture_of_shows hearly]

end Meeting

/-- Two subscriptions of one run, opened at the epoch at different moments, both idle at its
end: the later one makes of the formations what the earlier one makes of them, but for those
of apps that had been deleted when it was opened, of which it knows nothing. The run
announces at once what it commits; its clock shows no time before the epoch, and the counter
of versions has not come round. -/
theorem pictures_agree (size : Nat) {before middle after : List Event} {i j : Nat}
    {early late : Hub}
    (hearly : early = (ofBuffer size).run before)
    (hlate : late = early.run (lifetime i .epoch [] middle))
    (hfirst : early.Subscribes i [] (middle ++ lifetime j .epoch [] after))
    (hsecond : late.Subscribes j [] after)
    (hproper : ∀ e ∈ before ++ lifetime i .epoch [] (middle ++ lifetime j .epoch [] after),
      e.Proper)
    (hclock : ∀ e ∈ before ++ lifetime i .epoch [] (middle ++ lifetime j .epoch [] after),
      ∀ p ∈ e.write?, Instant.epoch ≤ p.1.now)
    (hadjacent : ∀ e ∈ lifetime i .epoch [] (middle ++ lifetime j .epoch [] after),
      e.isAdjacent = true)
    (hcount : ((ofBuffer size).commits
      (before ++ lifetime i .epoch [] (middle ++ lifetime j .epoch [] after))).length <
      UInt64.size)
    (hids : (late.run (lifetime j .epoch [] after)).store.AppsIdentified)
    (hidle : (late.run (lifetime j .epoch [] after)).feed.Idle i)
    (hidle' : (late.run (lifetime j .epoch [] after)).feed.Idle j) (k : String) :
    picture (late.yields j (lifetime j .epoch [] after)) k =
      if late.store.appGone k then none
      else picture
        (early.yields i (lifetime i .epoch [] (middle ++ lifetime j .epoch [] after))) k := by
  have hn := numbered_ofBuffer size
  have hsound := sound_ofBuffer size
  have hrun :
      (ofBuffer size).run (before ++ lifetime i .epoch [] (middle ++ lifetime j .epoch [] after)) =
      late.run (lifetime j .epoch [] after) := by
    rw [Meeting.split, run_append, run_append, ← hearly, ← hlate]
  have hsplit : before ++ lifetime i .epoch [] (middle ++ lifetime j .epoch [] after) =
      (before ++ lifetime i .epoch [] middle) ++ lifetime j .epoch [] after := by
    rw [Meeting.split, List.append_assoc]
  have hfollowed :
      Followed ((ofBuffer size).commits before) early i .epoch []
        (middle ++ lifetime j .epoch [] after) := by
    rw [hearly] at hfirst ⊢
    refine ⟨opened_of_run hn hsound hproper hadjacent hcount hfirst ?_, ?_⟩
    · rw [hrun]
      exact hids
    · rw [← run_append, hrun]
      exact hidle
  have hstamped : ∀ r ∈ (ofBuffer size).commits before ++
      early.commits (lifetime i .epoch [] (middle ++ lifetime j .epoch [] after)),
      ∃ t, r.changedAt = some t ∧ Instant.epoch ≤ t := by
    intro r hr
    rw [hearly, ← commits_append] at hr
    obtain ⟨e, he, p, hp, ht⟩ := changedAt_of_mem_commits hsound.consistent hproper hr
    exact ⟨p.1.now, ht, hclock e he p hp⟩
  have hlate' : (ofBuffer size).run (before ++ lifetime i .epoch [] middle) = late := by
    rw [run_append, ← hearly, ← hlate]
  have hcommits : (ofBuffer size).commits before ++ early.commits (lifetime i .epoch [] middle) =
      (ofBuffer size).commits (before ++ lifetime i .epoch [] middle) := by
    rw [commits_append, ← hearly]
  have hfollowed' :
      Followed ((ofBuffer size).commits before ++
        early.commits (lifetime i .epoch [] middle)) late j
      .epoch [] after := by
    rw [Meeting.split] at hadjacent
    rw [hsplit] at hproper hcount hrun
    rw [← hlate'] at hsecond
    rw [hcommits, ← hlate']
    refine ⟨opened_of_run hn hsound hproper (fun e he => hadjacent e (List.mem_append_right _ he))
      hcount hsecond ?_, ?_⟩
    · rw [hrun]
      exact hids
    · rw [← run_append, hrun]
      exact hidle'
  exact Meeting.picture_eq ⟨hlate, hfollowed, hfollowed', hstamped⟩ k

/-- A formation is written before the late subscription is opened and again after it. -/
theorem pictures_agree_on_sample :
    let middle : List Event := [.put (sampleMoment 1) (sampleFormation 1)]
    let after : List Event :=
      [.put (sampleMoment 2) (sampleFormation 2), .poll 0 none, .poll 1 none]
    let early := (ofBuffer 8).run sampleSetup
    let late := early.run (lifetime 0 .epoch [] middle)
    let k := Formation.keyOf sampleApp sampleRelease
    (late.run (lifetime 1 .epoch [] after)).feed.Idle 0 ∧
      (late.run (lifetime 1 .epoch [] after)).feed.Idle 1 ∧
      picture (late.yields 1 (lifetime 1 .epoch [] after)) k =
        picture
          (early.yields 0 (lifetime 0 .epoch [] (middle ++ lifetime 1 .epoch [] after))) k := by
  intro middle after early late k
  have hrun : early.Subscribes 0 [] (middle ++ lifetime 1 .epoch [] after) ∧
      late.Subscribes 1 [] after ∧
      ((ofBuffer 8).commits
        (sampleSetup ++ lifetime 0 .epoch [] (middle ++ lifetime 1 .epoch [] after))).length <
        UInt64.size ∧
      (late.run (lifetime 1 .epoch [] after)).store.AppsIdentified ∧
      (late.run (lifetime 1 .epoch [] after)).feed.Idle 0 ∧
      (late.run (lifetime 1 .epoch [] after)).feed.Idle 1 ∧
      late.store.appGone k = false := by
    decide +kernel
  obtain ⟨hfirst, hsecond, hcount, hids, hidle, hidle', hthere⟩ := hrun
  refine ⟨hidle, hidle', ?_⟩
  rw [pictures_agree 8 rfl rfl hfirst hsecond (by decide +kernel) (by decide +kernel)
    (by decide +kernel) hcount hids hidle hidle' k, hthere]
  rfl

end Hub
end ControlPlane
