import ControlPlane.Proofs.Dict
import ControlPlane.Proofs.Identifier
import ControlPlane.Store.Apps
import ControlPlane.Store.Formations
import ControlPlane.Store.Releases

/-! # Writes of the store as data, and what each can do

An operation on the tables is a `Write`, performed at a moment. `Effect` lists what any of them can
do to the store, with the checks that were passed; all that a run keeps is read off it.
-/
namespace ControlPlane.Store
open Json

inductive Write
  | createApp (app : App)
  | updateApp (idOrName : String) (patch : Dict Value)
  | deleteApp (idOrName : String)
  | setAppRelease (idOrName release : String)
  | createArtifact (artifact : Artifact)
  | createRelease (release : Release)
  | putFormation (formation : Formation)
  | deleteFormation (app release : String)

/-- The store after a write, and the formation record it committed, if any. A write that fails
leaves the store as it is. -/
def perform (s : Store) (m : Moment) : Write → Store × Option FormationRecord
  | .createApp app => ((s.createApp m app).toOption.elim s (·.2), none)
  | .updateApp idOrName patch => ((s.updateApp m idOrName patch).toOption.elim s (·.2), none)
  | .deleteApp idOrName => ((s.deleteApp m idOrName).2, none)
  | .setAppRelease idOrName release => ((s.setAppRelease m idOrName release).toOption.getD s, none)
  | .createArtifact artifact => ((s.createArtifact m artifact).toOption.elim s (·.2), none)
  | .createRelease release => ((s.createRelease m release).toOption.elim s (·.2), none)
  | .putFormation formation =>
    (s.putFormation m formation).toOption.elim (s, none) fun (record, s) => (s, some record)
  | .deleteFormation app release =>
    (s.deleteFormation m app release).toOption.elim (s, none) fun (record?, s) => (s, record?)

/-- The store with one more record committed. -/
def record (s : Store) (key : String) (r : FormationRecord) : Store :=
  { s with formations := s.formations.insert key r, formationVersion := s.formationVersion + 1 }

/-- What a write may do: the store it leaves and the record it commits. -/
inductive Effect (s : Store) (m : Moment) : Store → Option FormationRecord → Prop
  | idle : Effect s m s none
  | appCreated (app : App) (hname : AppName.isValid app.name = true)
      (hid : Identifier.clean app.id = app.id ∨ app.id = m.id)
      (hnew : s.apps.get? app.id = none) (hfree : s.appNames.get? app.name = none) :
      Effect s m { s.putApp { app } with appNames := s.appNames.insert app.name app.id } none
  | appChanged (row row' : AppRow) (hrow : ∃ k, s.liveApp? k = some row)
      (hid : row'.app.id = row.app.id)
        (hname : row'.app.name = row.app.name) (hlive : row'.deletedAt = row.deletedAt) :
        Effect s m (s.putApp row') none
  | appDeleted (row : AppRow) (hrow : ∃ k, s.liveApp? k = some row) :
      Effect s m { s.putApp { row with deletedAt := some m.now } with
        appNames := s.appNames.erase row.app.name } none
  | artifactCreated (artifact : Artifact) (hnew : s.artifacts.get? artifact.id = none) :
      Effect s m { s with artifacts := s.artifacts.insert artifact.id artifact } none
  | releaseCreated (release : Release)
      (hclean : Identifier.clean release.artifact = release.artifact)
      (hartifact : ∃ a, s.artifacts.get? release.artifact = some a)
      (hnew : s.releases.get? release.id = none)
      (hid : Identifier.clean release.id = release.id ∨ release.id = m.id) :
      Effect s m { s with releases := s.releases.insert release.id release } none
  | put (row : AppRow) (r : FormationRecord) (hrow : ∃ k, s.liveApp? k = some row)
      (happ : r.formation.app = row.app.id)
      (hclean : Identifier.clean r.formation.release = r.formation.release)
      (hrelease : ∃ rel, s.releases.get? r.formation.release = some rel)
      (hversion : r.version = s.formationVersion + 1) (hlive : r.deletedAt = none)
      (hchanged : r.changedAt = some m.now) :
      Effect s m (s.record r.key r) (some r)
  | deleted (row : AppRow) (release : String) (old : FormationRecord)
      (hrow : ∃ k, s.liveApp? k = some row)
        (hold : s.formations.get? (Formation.keyOf row.app.id release) = some old) :
        Effect s m (s.record (Formation.keyOf row.app.id release)
            { old with version := s.formationVersion + 1, deletedAt := some m.now })
          (some { old with version := s.formationVersion + 1, deletedAt := some m.now })

theorem liveApp?_eq_some {s : Store} {id : String} {row : AppRow} :
    s.liveApp? id = some row ↔ s.apps.get? id = some row ∧ row.isLive = true := by
  simp [liveApp?, Option.filter_eq_some_iff]

/-- However an app is found, it is a live one. -/
theorem exists_liveApp?_of_findApp? {s : Store} {idOrName : String} {row : AppRow}
    (h : s.findApp? idOrName = some row) : ∃ k, s.liveApp? k = some row := by
  rw [findApp?, Option.orElse_eq_orElse, Option.orElse_eq_or, Option.or_eq_some_iff] at h
  rcases h with h | ⟨-, h⟩
  · split at h
    · exact ⟨_, h⟩
    · cases h
  · obtain ⟨id, -, hid⟩ := Option.bind_eq_some_iff.1 h
    exact ⟨id, hid⟩

/-- An identifier finds the app that stands under it, in any spelling, and never one by its name. -/
theorem findApp?_of_isId {s : Store}
    (hvalid : ∀ n id, s.appNames.get? n = some id → AppName.isValid n = true) {text : String}
    (hid : Identifier.isId text = true) :
    s.findApp? text = s.liveApp? (Identifier.clean text) := by
  have hname : s.appNames.get? text = none := by
    cases hn : s.appNames.get? text with
    | none => rfl
    | some other =>
      have hnot := AppName.not_isId (hvalid text other hn)
      rw [hid] at hnot
      cases hnot
  rw [findApp?, if_pos hid, hname]
  cases s.liveApp? (Identifier.clean text) <;> rfl

theorem findApp_eq_ok {s : Store} {idOrName : String} {row : AppRow} :
    s.findApp idOrName = .ok row ↔ s.findApp? idOrName = some row := by
  unfold findApp
  split <;> simp_all

private theorem bind_eq_ok {ε α β : Type} {x : Except ε α} {f : α → Except ε β} {b : β} :
    x >>= f = .ok b ↔ ∃ a, x = .ok a ∧ f a = .ok b := by
  cases x with
  | error e => exact ⟨nofun, fun ⟨_, h, _⟩ => nomatch h⟩
  | ok a => exact ⟨fun h => ⟨a, rfl, h⟩, fun ⟨_, rfl, h⟩ => h⟩

private theorem exists_of_findApp {s : Store} {idOrName : String} {row : AppRow}
    (h : s.findApp idOrName = .ok row) :
    ∃ k, s.liveApp? k = some row :=
  exists_liveApp?_of_findApp? (findApp_eq_ok.1 h)

/-- An identifier is cleaned unless it is a fresh one. -/
theorem newId_clean_or (m : Moment) (id : String) :
    Identifier.clean (newId m id) = newId m id ∨ newId m id = m.id := by
  rw [newId]
  split
  · exact .inr rfl
  · exact .inl (Identifier.clean_clean id)

private theorem createApp_effect {s s' : Store} {m : Moment} {app a : App}
    (h : s.createApp m app = .ok (a, s')) : Effect s m s' none := by
  obtain ⟨⟨⟩, hname, h⟩ := bind_eq_ok.1 h
  simp only [checkAppName] at hname
  split at hname
  · cases hname
  split at hname
  case isFalse => cases hname
  next hvalid =>
    dsimp only at h
    split at h
    · cases h
    split at h
    · cases h
    next hfree hnew =>
      cases h
      refine .appCreated { app with
        id := newId m app.id, createdAt := some m.now, updatedAt := some m.now }
        hvalid (newId_clean_or m app.id) ?_ ?_
      · simpa [Dict.contains] using hnew
      · simpa [Dict.contains] using hfree

private theorem updateApp_effect {s s' : Store} {m : Moment} {idOrName : String}
    {patch : Dict Value} {a : App} (h : s.updateApp m idOrName patch = .ok (a, s')) :
    Effect s m s' none := by
  obtain ⟨row, hrow, h⟩ := bind_eq_ok.1 h
  split at h
  · cases h; exact .idle
  · split at h
    · cases h; exact .idle
    · cases h; exact .appChanged row _ (exists_of_findApp hrow) rfl rfl rfl
  · cases h

private theorem deleteApp_effect (s : Store) (m : Moment) (idOrName : String) :
    Effect s m (s.deleteApp m idOrName).2 none := by
  unfold deleteApp
  split
  · exact .idle
  · next row hrow => exact .appDeleted row (exists_liveApp?_of_findApp? hrow)

private theorem setAppRelease_effect {s s' : Store} {m : Moment} {idOrName release : String}
    (h : s.setAppRelease m idOrName release = .ok s') : Effect s m s' none := by
  obtain ⟨row, hrow, h⟩ := bind_eq_ok.1 h
  dsimp only at h
  split at h
  · cases h; exact .appChanged row _ (exists_of_findApp hrow) rfl rfl rfl
  · cases h

private theorem createArtifact_effect {s s' : Store} {m : Moment} {artifact a : Artifact}
    (h : s.createArtifact m artifact = .ok (a, s')) : Effect s m s' none := by
  unfold createArtifact at h
  split at h
  · cases h
  dsimp only at h
  split at h
  · cases h
  next hnew =>
    cases h
    exact .artifactCreated { artifact with id := newId m artifact.id, createdAt := some m.now }
      (by simpa [Dict.contains] using hnew)

private theorem createRelease_effect {s s' : Store} {m : Moment} {release r : Release}
    (h : s.createRelease m release = .ok (r, s')) : Effect s m s' none := by
  unfold createRelease at h
  split at h
  · cases h
  dsimp only at h
  split at h
  · cases h
  split at h
  · cases h
  next hartifact hnew =>
    cases h
    refine .releaseCreated { release with
      id := newId m release.id
      artifact := Identifier.clean release.artifact
      createdAt := some m.now } ?_ ?_ ?_ (newId_clean_or m release.id)
    · simp
    · exact Dict.contains_iff.1 (by simpa using hartifact)
    · simpa [Dict.contains] using hnew

/-- What is committed where `formation` is put: it names the app and the release by their
identifiers, and keeps the time of its creation from a live record. -/
def written (s : Store) (m : Moment) (row : AppRow) (formation : Formation) : FormationRecord where
  formation := { formation with
    app := row.app.id, release := Identifier.clean formation.release
    createdAt :=
      some (((s.formation? (Formation.keyOf row.app.id (Identifier.clean formation.release))).bind
        (·.formation.createdAt)).getD m.now)
    updatedAt := some m.now }
  version := s.formationVersion + 1

/-- What is committed where a live record is deleted. -/
def struck (s : Store) (m : Moment) (old : FormationRecord) : FormationRecord :=
  { old with version := s.formationVersion + 1, deletedAt := some m.now }

theorem putFormation_eq_ok {s s' : Store} {m : Moment} {formation : Formation}
    {r : FormationRecord} :
    s.putFormation m formation = .ok (r, s') ↔ (formation.app ≠ "" ∧ formation.release ≠ "") ∧
      ∃ row, s.findApp? formation.app = some row ∧
        s.releases.contains (Identifier.clean formation.release) = true ∧
        r = s.written m row formation ∧ s' = s.record r.key r := by
  have hblank : ¬ (formation.app.isEmpty || formation.release.isEmpty) = true ↔
      formation.app ≠ "" ∧ formation.release ≠ "" := by
    simp
  rw [← hblank, putFormation]
  split
  · next h => exact ⟨nofun, fun hok => absurd h hok.1⟩
  next h =>
  rw [and_iff_right h, bind_eq_ok]
  refine exists_congr fun row => and_congr findApp_eq_ok ?_
  dsimp only
  cases s.releases.contains (Identifier.clean formation.release) with
  | false => exact ⟨nofun, nofun⟩
  | true =>
    rw [and_iff_right rfl]
    constructor
    · intro hok
      cases hok
      exact ⟨rfl, rfl⟩
    · rintro ⟨rfl, rfl⟩
      rfl

theorem deleteFormation_eq_ok {s s' : Store} {m : Moment} {app release : String}
    {r? : Option FormationRecord} :
    s.deleteFormation m app release = .ok (r?, s') ↔ ∃ row, s.findApp? app = some row ∧
      (r?, s') = match s.formation? (Formation.keyOf row.app.id (Identifier.clean release)) with
        | none => (none, s)
        | some old => (some (s.struck m old),
          s.record (Formation.keyOf row.app.id (Identifier.clean release)) (s.struck m old)) := by
  rw [deleteFormation, bind_eq_ok]
  refine exists_congr fun row => and_congr findApp_eq_ok ?_
  dsimp only
  cases s.formation? (Formation.keyOf row.app.id (Identifier.clean release)) with
  | none => exact ⟨fun h => (Except.ok.inj h).symm, fun h => congrArg _ h.symm⟩
  | some old => exact ⟨fun h => (Except.ok.inj h).symm, fun h => congrArg _ h.symm⟩

theorem getFormation?_of_findApp? {s : Store} {app : String} {row : AppRow}
    (h : s.findApp? app = some row) (release : String) : s.getFormation? app release =
      (s.formation? (Formation.keyOf row.app.id (Identifier.clean release))).map (·.formation) := by
  rw [getFormation?, h]
  exact Option.map_eq_bind.symm

private theorem putFormation_effect {s s' : Store} {m : Moment} {formation : Formation}
    {r : FormationRecord} (h : s.putFormation m formation = .ok (r, s')) :
    Effect s m s' (some r) := by
  obtain ⟨-, row, hrow, hrelease, rfl, rfl⟩ := putFormation_eq_ok.1 h
  exact .put row _ (exists_liveApp?_of_findApp? hrow) rfl (Identifier.clean_clean _)
    (Dict.contains_iff.1 hrelease) rfl rfl rfl

private theorem deleteFormation_effect {s s' : Store} {m : Moment} {app release : String}
    {r? : Option FormationRecord} (h : s.deleteFormation m app release = .ok (r?, s')) :
    Effect s m s' r? := by
  obtain ⟨row, hrow, h⟩ := deleteFormation_eq_ok.1 h
  split at h
  · cases h; exact .idle
  · next old hold =>
    cases h
    exact .deleted row _ old (exists_liveApp?_of_findApp? hrow) (Option.filter_eq_some_iff.1 hold).1

/-- Every write does one of the things that `Effect` lists. -/
theorem perform_effect (s : Store) (m : Moment) (w : Write) :
    Effect s m (s.perform m w).1 (s.perform m w).2 := by
  cases w with
  | createApp app =>
    change Effect s m ((s.createApp m app).toOption.elim s (·.2)) none
    cases h : s.createApp m app with
    | error e => exact .idle
    | ok p => exact createApp_effect h
  | updateApp idOrName patch =>
    change Effect s m ((s.updateApp m idOrName patch).toOption.elim s (·.2)) none
    cases h : s.updateApp m idOrName patch with
    | error e => exact .idle
    | ok p => exact updateApp_effect h
  | deleteApp idOrName => exact deleteApp_effect s m idOrName
  | setAppRelease idOrName release =>
    change Effect s m ((s.setAppRelease m idOrName release).toOption.getD s) none
    cases h : s.setAppRelease m idOrName release with
    | error e => exact .idle
    | ok s' => exact setAppRelease_effect h
  | createArtifact artifact =>
    change Effect s m ((s.createArtifact m artifact).toOption.elim s (·.2)) none
    cases h : s.createArtifact m artifact with
    | error e => exact .idle
    | ok p => exact createArtifact_effect h
  | createRelease release =>
    change Effect s m ((s.createRelease m release).toOption.elim s (·.2)) none
    cases h : s.createRelease m release with
    | error e => exact .idle
    | ok p => exact createRelease_effect h
  | putFormation formation =>
    rw [perform]
    cases h : s.putFormation m formation with
    | error e => exact .idle
    | ok p => exact putFormation_effect h
  | deleteFormation app release =>
    rw [perform]
    cases h : s.deleteFormation m app release with
    | error e => exact .idle
    | ok p => exact deleteFormation_effect h

/-- A put that commits a record has answered it. -/
theorem putFormation_of_perform {s : Store} {m : Moment} {formation : Formation}
    {r : FormationRecord} (h : (s.perform m (.putFormation formation)).2 = some r) :
    s.putFormation m formation = .ok (r, (s.perform m (.putFormation formation)).1) := by
  rw [perform] at h ⊢
  cases hput : s.putFormation m formation with
  | error e => rw [hput] at h; cases h
  | ok p => rw [hput] at h; cases h; rfl

theorem deleteFormation_of_perform {s : Store} {m : Moment} {app release : String}
    {r : FormationRecord} (h : (s.perform m (.deleteFormation app release)).2 = some r) :
    s.deleteFormation m app release =
      .ok (some r, (s.perform m (.deleteFormation app release)).1) := by
  rw [perform] at h ⊢
  cases hdelete : s.deleteFormation m app release with
  | error e => rw [hdelete] at h; cases h
  | ok p => rw [hdelete] at h; obtain ⟨r?, s'⟩ := p; cases h; rfl

/-! ## Runs of writes -/

/-- The store after some writes, one after another. -/
def performAll (s : Store) (ws : List (Moment × Write)) : Store :=
  ws.foldl (fun s w => (s.perform w.1 w.2).1) s

/-- What every effect at an admitted moment keeps, a run of writes at such moments keeps. -/
theorem performAll_keeps {P : Store → Prop} {Q : Moment → Prop}
    (hstep : ∀ {s m s' r?}, P s → Q m → Effect s m s' r? → P s') {s : Store} (hs : P s)
    {ws : List (Moment × Write)} (hws : ∀ w ∈ ws, Q w.1) : P (s.performAll ws) := by
  induction ws generalizing s with
  | nil => exact hs
  | cons w ws ih =>
    have hs' : P (s.perform w.1 w.2).1 := hstep hs (hws w (by simp)) (perform_effect s w.1 w.2)
    exact ih hs' fun w hw => hws w (by simp [hw])

end ControlPlane.Store
