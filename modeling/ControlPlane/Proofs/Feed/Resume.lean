import ControlPlane.Proofs.Feed.Adjacent
import ControlPlane.Proofs.Time.Rfc3339

/-! # Subscribing again after a cut

A subscriber that was cut off asks again from the time of the last formation it was told of. What it
was told before and what it is told now then make up the newest records: replays and announcements
come in the order of the commits, and so in the order of their times, so whatever it missed changed
no earlier than what it heard.
-/
namespace ControlPlane

/-- The time from which to subscribe again: that of the last formation that was told
of, if there was any. -/
def resumeAt (since : Instant) (ds : List Delivery) : Instant :=
  ((changesOf ds).getLast?.map (·.formation.updatedAt)).getD since

/-- What changed before the time to resume from, but not before `since`, changed before
something that was told of. -/
theorem exists_of_lt_resumeAt {since since' t : Instant} {ds : List Delivery}
    (hsince : since' ≤ resumeAt since ds) (hle : since ≤ t) (hold : ¬ since' ≤ t) :
    ∃ d ∈ changesOf ds, ¬ d.formation.updatedAt ≤ t := by
  unfold resumeAt at hsince
  cases hlast : (changesOf ds).getLast? with
  | none =>
    rw [hlast] at hsince
    exact absurd (Int.le_trans hsince hle) hold
  | some d =>
    rw [hlast] at hsince
    exact ⟨d, List.mem_of_getLast? hlast, fun hdt => hold (Int.le_trans hsince hdt)⟩

/-- In a list in order of versions, what is of a lower version than something in the
first part is there too. -/
private theorem mem_of_version_lt {front cs : List Change}
    (hcs : cs.Pairwise (fun c d => c.version ≤ d.version)) (hfront : front <+: cs) {c d : Change}
    (hd : d ∈ front) (hc : c ∈ cs) (hlt : c.version < d.version) : c ∈ front := by
  obtain ⟨back, rfl⟩ := hfront
  rcases List.mem_append.1 hc with hc | hc
  · exact hc
  · have hle : d.version ≤ c.version := (List.pairwise_append.1 hcs).2.2 d hd c hc
    exact absurd hlt (UInt64.not_lt.2 hle)

namespace Hub
open Store

variable {h : Hub} {id : Nat} {since : Instant} {between after : List Event}
  {past : List FormationRecord} {k : String}
  {r : FormationRecord} {d : Change}

namespace Opened
variable (ho : Opened past h id since between after)
include ho

/-- What is told shows records that were committed. -/
theorem shows_of_told (hd : d ∈ changesOf (h.yields id (lifetime id since between after))) :
    ∃ q ∈ past ++ h.commits (lifetime id since between after), d.Shows q := by
  obtain ⟨ds, hds, hys⟩ := ho.subscribes.exists_prefix ho.numbered since
  rw [hys] at hd
  exact exists_shows ho.sound ho.proper ho.count ho.onlyCommitted ho.ids
    (hds.subset ((newsAfter_sublist [] ds).subset hd))

section Front
variable {ds : List Change}
  (hds : ds <+: Feed.replayOf (h.atReplay between).store since ++
    h.changes (lifetime id since between after))
  (hd : d ∈ ds) (hlt : r.version < d.version)
include hds hd hlt

/-- A record that the query found has come, if anything of a higher version has. -/
private theorem came_of_query (hget : (h.atReplay between).store.formations.get? k = some r)
    (hlive : ∃ row, (h.atReplay between).store.liveApp? r.formation.app = some row)
    (hchanged : ∃ t, r.changedAt = some t ∧ since ≤ t) : ∃ c ∈ ds, c.Shows r := by
  obtain ⟨hquery, hids, -, -⟩ := atReplay_sound ho.sound ho.proper ho.count ho.ids
  obtain ⟨t, ht, hle⟩ := hchanged
  obtain ⟨c, hc, hshows⟩ := exists_mem_replayOf hquery.consistent hids hget ht hle hlive
  refine ⟨c, ?_, hshows⟩
  rcases List.prefix_or_prefix_of_prefix hds (List.prefix_append _ _) with hfront | hfront
  · rw [← hshows.version] at hlt
    exact mem_of_version_lt (replayOf_sorted _ _) hfront hd hc hlt
  · exact hfront.subset hc

/-- A record that was committed after the query has come, if anything of a higher version has: that
was offered, as all of the replay is older. -/
private theorem came_of_commit
    (hmem : r ∈ (h.atReplay between).commits (.beginReplay id since :: after)) :
    ∃ c ∈ ds, c.Shows r := by
  obtain ⟨hquery, hids, -, hsplit⟩ := atReplay_sound ho.sound ho.proper ho.count ho.ids
  have hledger := ho.sound_run.ledger
  have hout : d ∉ Feed.replayOf (h.atReplay between).store since := by
    intro hin
    obtain ⟨k', q, hq, hshows⟩ := shows_of_mem_replayOf hquery.consistent hids hin
    have hold := hquery.ledger.committed k' q hq
    rw [hsplit] at hledger
    have hbelow : q.version < r.version := hledger.lt_of_late hold hmem
    rw [hshows.version] at hlt
    exact absurd (UInt64.lt_trans hlt hbelow) (UInt64.lt_irrefl _)
  have hcommitted : r ∈ h.commits (lifetime id since between after) := by
    rw [lifetime, commits_append]
    exact List.mem_append_right _ hmem
  obtain ⟨c, hc, hshows⟩ :=
    exists_mem_changes_of_commit ho.sound ho.proper ho.ids ho.adjacent ho.count hcommitted
  have hsorted :
      (h.changes (lifetime id since between after)).Pairwise (fun c d => c.version ≤ d.version) :=
    (changes_sorted hledger ho.adjacent).imp UInt64.le_of_lt
  rcases List.prefix_or_prefix_of_prefix hds (List.prefix_append _ _) with hfront | ⟨live, rfl⟩
  · exact absurd (hfront.subset hd) hout
  · have hfront : live <+: h.changes (lifetime id since between after) :=
      (List.prefix_append_right_inj _).1 hds
    have hd' : d ∈ live := (List.mem_append.1 hd).resolve_left hout
    rw [← hshows.version] at hlt
    exact ⟨c, List.mem_append_right _ (mem_of_version_lt hsorted hfront hd' hc hlt), hshows⟩

end Front

/-- A newest record that was committed before something that was told was told as well, the
last of its formation. -/
theorem told_before (hd : d ∈ changesOf (h.yields id (lifetime id since between after)))
    (hr : (h.run (lifetime id since between after)).store.formations.get? k = some r)
    (hlive : ∃ row,
      (h.run (lifetime id since between after)).store.liveApp? r.formation.app = some row)
    (hchanged : ∃ t, r.changedAt = some t ∧ since ≤ t) (hlt : r.version < d.version) :
    ∃ c, lastOf k (changesOf (h.yields id (lifetime id since between after))) = some c ∧
      c.Shows r := by
  obtain ⟨ds, hds, hys⟩ := ho.subscribes.exists_prefix ho.numbered since
  rw [hys] at hd ⊢
  have hd' : d ∈ ds := (newsAfter_sublist [] ds).subset hd
  have hcame : ∃ c ∈ ds, c.Shows r := by
    obtain ⟨hquery, -, hext, -⟩ := atReplay_sound ho.sound ho.proper ho.count ho.ids
    rcases found_or_committed ho.sound ho.proper ho.count ho.ids hr with hget | hmem
    · have hlive' := hext.live (hquery.consistent.refers k r hget).app hlive
      exact ho.came_of_query hds hd' hlt hget hlive' hchanged
    · exact ho.came_of_commit hds hd' hlt hmem
  exact lastOf_newsAfter_of_shows ho.sound ho.proper ho.count ho.onlyCommitted ho.ids
    (fun d hd => hds.subset hd) hr hcame

/-- What a later subscription does not replay, as it changed too early, was told before the cut. -/
theorem told_of_old {late : List FormationRecord} {h' : Hub} {since' t : Instant}
    (hs : h'.Sound (past ++ h.commits (lifetime id since between after) ++ late))
    (hext : Extends (h.run (lifetime id since between after)).store h'.store)
    (hordered : TimeOrdered (past ++ h.commits (lifetime id since between after) ++ late))
    (hsince : since' ≤ resumeAt since (h.yields id (lifetime id since between after)))
    (hr : h'.store.formations.get? k = some r)
    (hlive : ∃ row, h'.store.liveApp? r.formation.app = some row) (ht : r.changedAt = some t)
    (hle : since ≤ t) (hold : ¬ since' ≤ t) :
    ∃ c, lastOf k (changesOf (h.yields id (lifetime id since between after))) = some c ∧
      c.Shows r := by
  obtain ⟨d, hd, hdt⟩ := exists_of_lt_resumeAt hsince hle hold
  obtain ⟨q, hq, hshows⟩ := ho.shows_of_told hd
  have hrs := hs.ledger.committed k r hr
  -- the clock orders the two records by their versions
  have hlt : r.version < q.version := by
    refine UInt64.not_le.1 fun hge => hdt ?_
    exact hordered q (List.mem_append_left _ hq) r hrs hge _ t hshows.updatedAt ht
  have hmem : r ∈ past ++ h.commits (lifetime id since between after) := by
    rcases List.mem_append.1 hrs with hmem | hmem
    · exact hmem
    · exact absurd (UInt64.lt_trans hlt (hs.ledger.lt_of_late hq hmem)) (UInt64.lt_irrefl _)
  obtain ⟨hget, hlive'⟩ := ho.sound_run.found hs hext hr hlive hmem
  rw [← hshows.version] at hlt
  exact ho.told_before hd hget hlive' ⟨t, ht, hle⟩ hlt

end Opened

/-- An idle subscription was told of a newest record last, or not at all of the formation, which
then changed too early. -/
theorem Followed.told_or_old (hf : Followed past h id since between after) {t : Instant}
    (hr : (h.run (lifetime id since between after)).store.formations.get? k = some r)
    (hlive : ∃ row,
      (h.run (lifetime id since between after)).store.liveApp? r.formation.app = some row)
    (ht : r.changedAt = some t) :
    (∃ c,
      lastOf k (changesOf (h.yields id (lifetime id since between after))) = some c ∧ c.Shows r) ∨
      lastOf k (changesOf (h.yields id (lifetime id since between after))) = none ∧ r ∈ past ∧
      ¬ since ≤ t := by
  have hfinal := hf.sound_run
  rcases List.mem_append.1 (hfinal.ledger.committed k r hr) with hmem | hmem
  · obtain ⟨hquery, -, hext, hsplit⟩ := atReplay_sound hf.sound hf.proper hf.count hf.ids
    obtain ⟨hget, hlive'⟩ : (h.atReplay between).store.formations.get? k = some r ∧
        ∃ row, (h.atReplay between).store.liveApp? r.formation.app = some row := by
      rw [hsplit] at hfinal
      exact hquery.found hfinal hext hr hlive (List.mem_append_left _ hmem)
    by_cases hle : since ≤ t
    · exact .inl (hf.told hr (.inl ⟨hget, hlive', t, ht, hle⟩))
    · refine .inr ⟨hf.untold ?_ ?_, hmem, hle⟩
      · rintro r' hr' ⟨t', ht', hle'⟩
        rw [hget, Option.some.injEq] at hr'
        rw [← hr', ht, Option.some.injEq] at ht'
        rw [← ht'] at hle'
        exact absurd hle' hle
      · intro r' hr' hk
        have hle' : r'.version ≤ r.version :=
          hfinal.ledger.le_of_get? hr (List.mem_append_right _ hr') hk
        exact absurd hle' (UInt64.not_le.2 (hfinal.ledger.lt_of_late hmem hr'))
  · exact .inl (hf.told hr (.inr hmem))

/-- A subscriber is cut off anywhere, whether it was reading its replay, was live, or had lagged,
and subscribes again from no later than the time of the last formation that it was told of, as one
does that writes this time to the microsecond. Once the new subscription is idle, what was told
last of a formation in all is its newest record, processes or deletion, if that changed at or
after `since`. Formations are announced by the events that write them while a subscription lives,
the clock does not go backwards, the app of the formation is still there, and the counter of
versions has not come round. -/
theorem resume_lossless (size : Nat)
    {before between after middle between' after' : List Event} {i j : Nat}
    {since since' : Instant} {first second : Hub} (hfirst : first = (ofBuffer size).run before)
    (hsecond : second = (ofBuffer size).run (before ++ lifetime i since between after ++ middle))
    (hopened : first.Subscribes i between after) (hreopened : second.Subscribes j between' after')
    (hproper : ∀ e ∈ before ++ lifetime i since between after ++ middle ++
      lifetime j since' between' after', e.Proper)
    (hclock : Clocked (before ++ lifetime i since between after ++ middle))
    (hadjacent : ∀ e ∈ lifetime i since between after, e.isAdjacent = true)
    (hadjacent' : ∀ e ∈ lifetime j since' between' after', e.isAdjacent = true)
    (hcount : ((ofBuffer size).commits
      (before ++ lifetime i since between after ++ middle ++
        lifetime j since' between' after')).length < UInt64.size)
    (hids : (second.run (lifetime j since' between' after')).store.AppsIdentified)
    (hidle : (second.run (lifetime j since' between' after')).feed.Idle j)
    (hsince : since' ≤ resumeAt since (first.yields i (lifetime i since between after)))
    (hr : (second.run (lifetime j since' between' after')).store.formations.get? k = some r)
    (hlive : ∃ row,
      (second.run (lifetime j since' between' after')).store.liveApp? r.formation.app = some row)
    (hchanged : ∃ t, r.changedAt = some t ∧ since ≤ t) :
    let m := resumeAt since (first.yields i (lifetime i since between after))
    (∃ t, Rfc3339.parse? (Rfc3339.renderMicros m) = some t ∧ t ≤ m) ∧
      ∃ c, lastOf k (changesOf (first.yields i (lifetime i since between after) ++
        second.yields j (lifetime j since' between' after'))) = some c ∧ c.Shows r := by
  intro m
  refine ⟨Rfc3339.parse?_renderMicros m, ?_⟩
  have hn := numbered_ofBuffer size
  have hsound := sound_ofBuffer size
  have hrun :
      (ofBuffer size).run (before ++ lifetime i since between after ++ middle ++
        lifetime j since' between' after') =
      second.run (lifetime j since' between' after') := by
    rw [run_append, ← hsecond]
  have hsecond' :
      Followed ((ofBuffer size).commits (before ++ lifetime i since between after ++ middle))
        second j since' between' after' := by
    rw [hsecond] at hreopened ⊢
    refine ⟨opened_of_run hn hsound hproper hadjacent' hcount hreopened ?_, ?_⟩
    · rw [hrun]
      exact hids
    · rw [← run_append, hrun]
      exact hidle
  have hfirst' : Opened ((ofBuffer size).commits before) first i since between after := by
    rw [← hrun] at hids
    rw [List.append_assoc _ middle] at hproper hcount hids
    rw [hfirst] at hopened ⊢
    exact opened_of_run_append hn hsound hproper hadjacent hcount hopened hids
  have hmiddle : second = (first.run (lifetime i since between after)).run middle := by
    rw [hsecond, run_append, run_append, ← hfirst]
  have hcommits : (ofBuffer size).commits (before ++ lifetime i since between after ++ middle) =
      (ofBuffer size).commits before ++ first.commits (lifetime i since between after) ++
        (first.run (lifetime i since between after)).commits middle := by
    rw [commits_append, commits_append, run_append, ← hfirst]
  have hext : Extends (first.run (lifetime i since between after)).store second.store := by
    rw [hmiddle]
    refine run_extends hfirst'.sound_run.consistent fun e he => hproper e ?_
    exact List.mem_append_left _ (List.mem_append_right _ he)
  have hordered : TimeOrdered
      ((ofBuffer size).commits (before ++ lifetime i since between after ++ middle)) := by
    have hledger : second.store.Ledger
        ([] ++ (ofBuffer size).commits (before ++ lifetime i since between after ++ middle)) :=
      hsecond'.sound.ledger
    rw [hsecond] at hledger
    exact timeOrdered_commits hsound.consistent (fun e he => hproper e (List.mem_append_left _ he))
      hclock hledger
  obtain ⟨t, ht, hle⟩ := hchanged
  rw [changesOf_append, lastOf_append]
  rcases hsecond'.told_or_old hr hlive ht with ⟨c, hlast, hshows⟩ | ⟨hnone, hmem, hold⟩
  · exact ⟨c, by rw [hlast, Option.some_or], hshows⟩
  · obtain ⟨hget, hlive'⟩ :=
      hsecond'.sound.found hsecond'.sound_run hsecond'.extends_run hr hlive hmem
    rw [hnone, Option.none_or]
    have hsound' := hsecond'.sound
    rw [hcommits] at hsound' hordered
    exact hfirst'.told_of_old hsound' hext hordered hsince hget hlive' ht hle hold

/-- Two formations are told of and the later one changes again while nobody listens: the earlier one
is not told of again, and need not be. -/
theorem resume_lossless_of_drop :
    let other : Formation :=
      { sampleFormation 1 with release := "ffeeddccbbaa99887766554433221100" }
    let before := sampleSetup ++
      [.write (sampleMoment 0) (.createRelease { id := other.release, artifact := sampleRelease })]
    let after : List Event :=
      [.put (sampleMoment 1) (sampleFormation 1), .put (sampleMoment 2) other, .poll 0 none]
    let middle : List Event := [.drop 0, .put (sampleMoment 3) other]
    let first := (ofBuffer 8).run before
    let second := (ofBuffer 8).run (before ++ lifetime 0 .epoch [] after ++ middle)
    let ys := first.yields 0 (lifetime 0 .epoch [] after)
    let ys' := second.yields 1 (lifetime 1 (resumeAt .epoch ys) [] [.poll 1 none])
    (changesOf ys').map (·.version) = [3] ∧
      ∃ c, lastOf (Formation.keyOf sampleApp sampleRelease) (changesOf (ys ++ ys')) = some c ∧
        c.Shows (sampleRecord 1) := by
  intro other before after middle first second ys ys'
  have hrun : first.Subscribes 0 [] after ∧ second.Subscribes 1 [] [.poll 1 none] ∧
      ((ofBuffer 8).commits (before ++ lifetime 0 .epoch [] after ++ middle ++
        lifetime 1 (resumeAt .epoch ys) [] [.poll 1 none])).length < UInt64.size ∧
      (second.run (lifetime 1 (resumeAt .epoch ys) [] [.poll 1 none])).store.AppsIdentified ∧
      (second.run (lifetime 1 (resumeAt .epoch ys) [] [.poll 1 none])).feed.Idle 1 ∧
      (second.run (lifetime 1 (resumeAt .epoch ys) [] [.poll 1 none])).store.formations.get?
        (Formation.keyOf sampleApp sampleRelease) = some (sampleRecord 1) ∧
      ((second.run (lifetime 1 (resumeAt .epoch ys) [] [.poll 1 none])).store.liveApp?
        sampleApp).isSome ∧
      (changesOf ys').map (·.version) = [3] := by
    decide +kernel
  obtain ⟨hopened, hreopened, hcount, hids, hidle, hr, hlive, hversions⟩ := hrun
  have hchanged : ∃ t, (sampleRecord 1).changedAt = some t ∧ Instant.epoch ≤ t :=
    ⟨_, rfl, by decide +kernel⟩
  refine ⟨hversions, ?_⟩
  have hlossless := resume_lossless 8 rfl rfl hopened hreopened (by decide +kernel)
    (by decide +kernel) (by decide +kernel)
    (by decide +kernel) hcount hids hidle (Int.le_refl _) hr
    (Option.isSome_iff_exists.1 hlive) hchanged
  exact hlossless.2

end Hub
end ControlPlane
