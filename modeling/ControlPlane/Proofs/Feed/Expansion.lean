import ControlPlane.Feed
import ControlPlane.Proofs.Store.Ledger

/-! # What becomes of a record when it is expanded

A record of a store has a change as long as its app is there, and its change tells its key, its
version, the time of the change and its processes. This needs app identifiers to be identifiers: of
another text, the app that it finds may be one of that name.
-/
namespace ControlPlane
open Store

/-- The change tells what the record says: its processes, or that it is deleted. -/
structure Change.Shows (c : Change) (r : FormationRecord) : Prop where
  version : c.version = r.version
  key : c.key = r.key
  updatedAt : r.changedAt = some c.formation.updatedAt
  processes : c.formation.processes = if r.isDeleted then none else some r.formation.processes

variable {s : Store} {r : FormationRecord}

theorem Store.Consistent.findApp?_of_isId (hs : Consistent s) {id : String}
    (hid : Identifier.isId id = true) (hclean : Identifier.clean id = id) :
    s.findApp? id = s.liveApp? id := by
  rw [Store.findApp?_of_isId hs.name_valid hid, hclean]

/-- A record's release and artifact are there, so it is its app that decides whether
the record has a change. -/
theorem expand?_eq_map (hs : Consistent s) (hr : s.Refers r) :
    ∃ rel a t, rel.id = r.formation.release ∧ r.changedAt = some t ∧
      Change.expand? s r = (s.getApp? r.formation.app).map fun app => ⟨r.version, {
        app, release := rel, artifact := a
        processes := if r.isDeleted then none
        else some r.formation.processes, updatedAt := t }⟩ := by
  obtain ⟨rel, hrel⟩ := hr.release
  obtain ⟨a, ha⟩ := hs.artifact _ rel hrel
  obtain ⟨t, ht⟩ := hr.changed
  refine ⟨rel, a, t, hs.release_id _ rel hrel, ht, ?_⟩
  have hrelease : s.getRelease? r.formation.release = some rel := by
    rw [getRelease?, hr.release_clean, hrel]
  have hartifact : s.getArtifact? rel.artifact = some a := by
    rw [getArtifact?, hs.artifact_clean _ rel hrel, ha]
  unfold Change.expand?
  rw [hrelease, ht]
  cases s.getApp? r.formation.app <;> simp [hartifact]

/-- Every record of a store that was written to is stamped with the time of its change. So it is
passed over only where its app is not found, and never for want of a time. -/
theorem expand?_performAll {ws : List (Moment × Write)} (hws : ∀ w ∈ ws, w.1.Proper) {k : String}
    (hr : (performAll {} ws).formations.get? k = some r) :
    (∃ t, r.changedAt = some t) ∧
      (Change.expand? (performAll {} ws) r = none ↔
        (performAll {} ws).getApp? r.formation.app = none) := by
  have hs := consistent_performAll hws
  obtain ⟨rel, a, t, -, ht, he⟩ := expand?_eq_map hs (hs.refers k r hr)
  exact ⟨⟨t, ht⟩, by rw [he, Option.map_eq_none_iff]⟩

private theorem expand?_eq (hs : Consistent s) (hids : s.AppsIdentified) (hr : s.Refers r) :
    ∃ rel a t, rel.id = r.formation.release ∧ r.changedAt = some t ∧
      Change.expand? s r = (s.liveApp? r.formation.app).map fun row => ⟨r.version, {
        app := row.app, release := rel, artifact := a
        processes := if r.isDeleted then none
        else some r.formation.processes, updatedAt := t }⟩ := by
  obtain ⟨hid, hclean⟩ := hr.app_isId hs hids
  obtain ⟨rel, a, t, hrel, ht, he⟩ := expand?_eq_map hs hr
  refine ⟨rel, a, t, hrel, ht, ?_⟩
  rw [he, getApp?, hs.findApp?_of_isId hid hclean, Option.map_map]
  rfl

theorem version_of_expand? {c : Change} (hc : Change.expand? s r = some c) :
    c.version = r.version := by
  unfold Change.expand? at hc
  obtain ⟨app, -, hc⟩ := Option.bind_eq_some_iff.1 hc
  obtain ⟨rel, -, hc⟩ := Option.bind_eq_some_iff.1 hc
  obtain ⟨a, -, hc⟩ := Option.bind_eq_some_iff.1 hc
  obtain ⟨t, -, hc⟩ := Option.bind_eq_some_iff.1 hc
  cases hc
  rfl

/-- A record is passed over if and only if its app is gone. -/
theorem expand?_eq_none (hs : Consistent s) (hids : s.AppsIdentified) (hr : s.Refers r) :
    Change.expand? s r = none ↔ s.liveApp? r.formation.app = none := by
  obtain ⟨rel, a, t, -, -, he⟩ := expand?_eq hs hids hr
  rw [he, Option.map_eq_none_iff]

theorem shows_of_expand? (hs : Consistent s) (hids : s.AppsIdentified) (hr : s.Refers r)
    {c : Change} (hc : Change.expand? s r = some c) : c.Shows r := by
  obtain ⟨rel, a, t, hrel, ht, he⟩ := expand?_eq hs hids hr
  rw [he, Option.map_eq_some_iff] at hc
  obtain ⟨row, hrow, rfl⟩ := hc
  refine ⟨rfl, ?_, ht, rfl⟩
  have hid : row.app.id = r.formation.app := hs.app_id _ row (liveApp?_eq_some.1 hrow).1
  simp [Change.key, ExpandedFormation.key, FormationRecord.key, Formation.key, hid, hrel]

theorem exists_shows_of_live (hs : Consistent s) (hids : s.AppsIdentified) (hr : s.Refers r)
    (hlive : ∃ row, s.liveApp? r.formation.app = some row) :
    ∃ c, Change.expand? s r = some c ∧ c.Shows r := by
  obtain ⟨row, hrow⟩ := hlive
  cases hc : Change.expand? s r with
  | none => rw [(expand?_eq_none hs hids hr).1 hc] at hrow; cases hrow
  | some c => exact ⟨c, rfl, shows_of_expand? hs hids hr hc⟩

section Replay
variable {since : Instant} {c : Change}

theorem mem_replayOf : c ∈ Feed.replayOf s since ↔
    ∃ r ∈ s.formationChangesSince since, Change.expand? s r = some c := by
  simp [Feed.replayOf]

/-- What a replay holds shows records of the table. -/
theorem shows_of_mem_replayOf (hs : Consistent s) (hids : s.AppsIdentified)
    (hc : c ∈ Feed.replayOf s since) :
    ∃ k r, s.formations.get? k = some r ∧ c.Shows r := by
  obtain ⟨r, hr, he⟩ := mem_replayOf.1 hc
  obtain ⟨⟨k, hk⟩, -⟩ := mem_formationChangesSince.1 hr
  exact ⟨k, r, hk, shows_of_expand? hs hids (hs.refers k r hk) he⟩

theorem exists_mem_replayOf (hs : Consistent s) (hids : s.AppsIdentified) {k : String} {t : Instant}
    (hr : s.formations.get? k = some r) (ht : r.changedAt = some t) (hle : since ≤ t)
    (hlive : ∃ row, s.liveApp? r.formation.app = some row) :
    ∃ c ∈ Feed.replayOf s since, c.Shows r := by
  obtain ⟨c, hc, hshows⟩ := exists_shows_of_live hs hids (hs.refers k r hr) hlive
  exact ⟨c, mem_replayOf.2 ⟨r, mem_formationChangesSince.2 ⟨⟨k, hr⟩, t, ht, hle⟩, hc⟩, hshows⟩

theorem replayOf_sorted (s : Store) (since : Instant) :
    (Feed.replayOf s since).Pairwise (fun c d => c.version ≤ d.version) := by
  refine List.pairwise_filterMap.2
    ((formationChangesSince_sorted s since).imp fun hle c hc d hd => ?_)
  rw [version_of_expand? hc, version_of_expand? hd]
  exact hle

end Replay
end ControlPlane
