import ControlPlane.Dispatch
import ControlPlane.Proofs.Store.History
import ControlPlane.Proofs.Store.Names

/-! # References between records

A record names others by their identifiers. What it names is there from then on: releases and
artifacts never leave and never change, an app keeps its row when it is deleted, and its release is
the one that it was set to last.
-/
namespace ControlPlane.Store

/-- What the records of a store name is in it, and every record stands under its own identifier. -/
structure Linked (s : Store) : Prop where
  app_id : ∀ k row, s.apps.get? k = some row → row.app.id = k
  release_id : ∀ k r, s.releases.get? k = some r → r.id = k
  artifact_id : ∀ k a, s.artifacts.get? k = some a → a.id = k
  record_key : ∀ k r, s.formations.get? k = some r → r.key = k
  artifact_of_release : ∀ k r, s.releases.get? k = some r → s.artifacts.contains r.artifact = true
  release_of_app : ∀ k row id, s.apps.get? k = some row → row.release = some id →
    s.releases.contains id = true
  app_of_record : ∀ k r, s.formations.get? k = some r → s.apps.contains r.formation.app = true
  release_of_record : ∀ k r, s.formations.get? k = some r →
    s.releases.contains r.formation.release = true

/-- The release that the app of an identifier is set to, if any. -/
def releaseOf? (s : Store) (app : String) : Option String := (s.apps.get? app).bind (·.release)

/-- The app that a write sets to a release, and the release, if it succeeds in that. -/
def setting? (s : Store) (m : Moment) : Write → Option (String × String)
  | .setAppRelease idOrName release =>
    if (s.setAppRelease m idOrName release).isOk then
      (s.findApp? idOrName).map fun row => (row.app.id, Identifier.clean release)
    else none
  | _ => none

/-- Which apps were set to which releases in a run of writes, in order. -/
def settings : Store → List (Moment × Write) → List (String × String)
  | _, [] => []
  | s, (m, w) :: ws => (s.setting? m w).toList ++ settings (s.perform m w).1 ws

/-- What an app was set to last. -/
def lastSetting? (sets : List (String × String)) (app : String) : Option String :=
  ((sets.filter (·.1 == app)).getLast?).map (·.2)

theorem lastSetting?_append (sets : List (String × String)) (set? : Option (String × String))
    (app : String) :
    lastSetting? (sets ++ set?.toList) app =
      ((set?.filter (·.1 == app)).map (·.2) <|> lastSetting? sets app) := by
  cases set? with
  | none => simp [lastSetting?]
  | some set => by_cases h : set.1 = app <;> simp [lastSetting?, Option.filter_some, h]

theorem lastSetting?_eq_none {sets : List (String × String)} {app : String} :
    lastSetting? sets app = none ↔ ∀ set ∈ sets, set.1 ≠ app := by
  simp [lastSetting?]

/-! ## What a write does to the releases of apps -/

section
variable {s s' : Store} {m : Moment} {row : AppRow}

theorem releaseOf?_insert (happs : s'.apps = s.apps.insert row.app.id row) (k : String) :
    s'.releaseOf? k = if row.app.id = k then row.release else s.releaseOf? k := by
  rw [releaseOf?, happs, Dict.get?_insert]
  split <;> rfl

/-- A row that goes in its own place with the release it has changes no release. -/
private theorem releaseOf?_keep (hs : Indexed s) {text : String} (hrow : s.findApp? text = some row)
    (row' : AppRow) (hid : row'.app.id = row.app.id) (hrelease : row'.release = row.release)
    (happs : s'.apps = s.apps.insert row'.app.id row') (k : String) :
    s'.releaseOf? k = s.releaseOf? k := by
  have hget : s.apps.get? row.app.id = some row :=
    hs.mem_values.1 (hs.findApp?_eq_some_iff.1 hrow).1
  rw [releaseOf?_insert happs]
  split
  · next hk => rw [← hk, hid, hrelease, releaseOf?, hget, Option.bind_some]
  · rfl

private theorem releaseOf?_createApp {app a : App} (h : s.createApp m app = .ok (a, s'))
    (k : String) :
    s'.releaseOf? k = s.releaseOf? k := by
  rw [createApp] at h
  cases hname : checkAppName app.name with
  | error e => rw [hname] at h; cases h
  | ok u =>
    rw [hname] at h
    change (if _ then _ else _) = _ at h
    split at h
    · cases h
    split at h
    · cases h
    next hnew =>
      cases h
      refine (releaseOf?_insert rfl k).trans ?_
      split
      · next hk =>
        have hnone : s.apps.get? k = none := by
          rw [← hk]
          simpa [Dict.contains] using hnew
        rw [releaseOf?, hnone, Option.bind_none]
      · rfl

private theorem releaseOf?_updateApp (hs : Indexed s) {text : String} {patch : Dict Json.Value}
    {a : App} (h : s.updateApp m text patch = .ok (a, s')) (k : String) :
    s'.releaseOf? k = s.releaseOf? k := by
  rw [updateApp] at h
  cases hrow : s.findApp text with
  | error e => rw [hrow] at h; cases h
  | ok row =>
    rw [hrow] at h
    simp only [bind, Except.bind] at h
    split at h
    · cases h; rfl
    · next isProtected _ =>
      split at h
      · cases h; rfl
      · cases h
        exact releaseOf?_keep hs (findApp_eq_ok.1 hrow)
          { row with app := { row.app with isProtected, updatedAt := some m.now } } rfl rfl rfl k
    · cases h

private theorem releaseOf?_deleteApp (hs : Indexed s) (text : String) (k : String) :
    (s.deleteApp m text).2.releaseOf? k = s.releaseOf? k := by
  unfold deleteApp
  split
  · rfl
  · next row hrow =>
      exact releaseOf?_keep hs hrow { row with deletedAt := some m.now } rfl rfl rfl k

theorem setAppRelease_eq_ok {text release : String} : s.setAppRelease m text release = .ok s' ↔
    ∃ row, s.findApp? text = some row ∧ s.releases.contains (Identifier.clean release) = true ∧
      s' = s.putApp { row with
        release := some (Identifier.clean release)
        app := { row.app with updatedAt := some m.now } } := by
  rw [setAppRelease]
  constructor
  · intro h
    cases hrow : s.findApp text with
    | error e => rw [hrow] at h; cases h
    | ok row =>
      rw [hrow] at h
      change (if _ then _ else _) = _ at h
      split at h
      · next hrelease =>
        cases h
        exact ⟨row, findApp_eq_ok.1 hrow, hrelease, rfl⟩
      · cases h
  · rintro ⟨row, hrow, hrelease, rfl⟩
    rw [findApp_eq_ok.2 hrow]
    exact if_pos hrelease

/-- Only a write that sets an app to a release changes the release of an app. -/
theorem releaseOf?_perform (hs : Indexed s) (m : Moment) (w : Write) (k : String) :
    (s.perform m w).1.releaseOf? k =
      (((s.setting? m w).filter (·.1 == k)).map (·.2) <|> s.releaseOf? k) := by
  cases w with
  | createApp app =>
    rw [perform]
    cases h : s.createApp m app with
    | error e => rfl
    | ok p => exact releaseOf?_createApp h k
  | updateApp text patch =>
    rw [perform]
    cases h : s.updateApp m text patch with
    | error e => rfl
    | ok p => exact releaseOf?_updateApp hs h k
  | deleteApp text => exact releaseOf?_deleteApp hs text k
  | setAppRelease text release =>
    rw [perform, setting?]
    cases h : s.setAppRelease m text release with
    | error e => rfl
    | ok p =>
      obtain ⟨row, hrow, -, rfl⟩ := setAppRelease_eq_ok.1 h
      refine (releaseOf?_insert rfl k).trans ?_
      by_cases hk : row.app.id = k <;>
        simp [hrow, hk, Except.isOk, Except.toBool, Option.filter_some]
  | createArtifact artifact =>
    rw [perform, createArtifact]
    split
    · rfl
    · dsimp only
      split <;> rfl
  | createRelease release =>
    rw [perform, createRelease]
    split
    · rfl
    · dsimp only
      split
      · rfl
      · split <;> rfl
  | putFormation formation =>
    rw [perform]
    cases h : s.putFormation m formation with
    | error e => rfl
    | ok p =>
      obtain ⟨-, row, -, -, -, hstore⟩ := putFormation_eq_ok.1 h
      change p.2.releaseOf? k = _
      rw [hstore]
      rfl
  | deleteFormation app release =>
    rw [perform]
    cases h : s.deleteFormation m app release with
    | error e => rfl
    | ok p =>
      obtain ⟨row, -, hp⟩ := deleteFormation_eq_ok.1 h
      change p.2.releaseOf? k = _
      rw [(Prod.mk.inj hp).2]
      split <;> rfl

end

/-! ## Runs of writes -/

section
variable {s s' : Store} {m : Moment} {ws : List (Moment × Write)}

theorem releaseOf?_performAll {sets : List (String × String)} (hs : Indexed s)
    (h : ∀ k, s.releaseOf? k = lastSetting? sets k) (ws : List (Moment × Write)) (k : String) :
    (s.performAll ws).releaseOf? k = lastSetting? (sets ++ settings s ws) k := by
  induction ws generalizing s sets with
  | nil => rw [settings, List.append_nil]; exact h k
  | cons w ws ih =>
    have hstep (k : String) : (s.perform w.1 w.2).1.releaseOf? k =
        lastSetting? (sets ++ (s.setting? w.1 w.2).toList) k := by
      rw [releaseOf?_perform hs, lastSetting?_append, h]
    rw [settings, ← List.append_assoc]
    exact ih ((perform_effect s w.1 w.2).indexed hs) hstep

theorem linked_empty : Linked {} := by
  constructor <;> simp

theorem Effect.artifact_id {r? : Option FormationRecord} (h : Effect s m s' r?)
    (hs : ∀ k a, s.artifacts.get? k = some a → a.id = k) :
    ∀ k a, s'.artifacts.get? k = some a → a.id = k := by
  cases h with
  | artifactCreated artifact =>
    intro k a hk
    rw [Dict.get?_insert] at hk
    split at hk
    · next he => cases hk; exact he
    · exact hs k a hk
  | _ => exact hs

/-- What a write sets an app to is a release of the store. -/
theorem contains_of_setting? {w : Write} {set : String × String} (h : s.setting? m w = some set) :
    s.releases.contains set.2 = true := by
  cases w with
  | setAppRelease text release =>
    rw [setting?] at h
    cases hok : s.setAppRelease m text release with
    | error e => rw [hok] at h; cases h
    | ok s' =>
      obtain ⟨row, hrow, hrelease, -⟩ := setAppRelease_eq_ok.1 hok
      rw [hok, hrow] at h
      cases h
      exact hrelease
  | _ => cases h

/-- What is committed or stored by a write names what was there before it. -/
theorem Linked.perform (hc : Consistent s) (hi : Indexed s) (h : Linked s) (hm : m.Proper)
    (w : Write) :
    Linked (s.perform m w).1 := by
  have heffect := perform_effect s m w
  have hc' : Consistent (s.perform m w).1 := heffect.consistent hc hm
  have hext : Extends s (s.perform m w).1 := heffect.extends hc
  refine ⟨hc'.app_id, hc'.release_id, heffect.artifact_id h.artifact_id, hc'.record_key,
    fun k r hk => Dict.contains_iff.2 (hc'.artifact k r hk), fun k row id hk hid => ?_,
    fun k r hk => Dict.contains_iff.2 (hc'.refers k r hk).app, fun k r hk =>
      Dict.contains_iff.2 (hc'.refers k r hk).release⟩
  have hnow : (s.perform m w).1.releaseOf? k = some id := by
    rw [releaseOf?, hk, Option.bind_some, hid]
  have hbefore : s.releases.contains id = true := by
    rw [releaseOf?_perform hi, Option.orElse_eq_orElse, Option.orElse_eq_or, Option.or_eq_some_iff]
      at hnow
    obtain hnow | ⟨-, hnow⟩ := hnow
    · obtain ⟨set, hfilter, rfl⟩ := Option.map_eq_some_iff.1 hnow
      exact contains_of_setting? (Option.filter_eq_some_iff.1 hfilter).1
    · obtain ⟨old, hold, hid⟩ := Option.bind_eq_some_iff.1 hnow
      exact h.release_of_app k old id hold hid
  obtain ⟨r, hr⟩ := Dict.contains_iff.1 hbefore
  exact Dict.contains_iff.2 ⟨r, hext.release id r hr⟩

theorem Linked.performAll (hc : Consistent s) (hi : Indexed s) (h : Linked s)
    (hws : ∀ w ∈ ws, w.1.Proper) :
    Linked (s.performAll ws) := by
  induction ws generalizing s with
  | nil => exact h
  | cons w ws ih =>
    have hm : w.1.Proper := hws w List.mem_cons_self
    have heffect := perform_effect s w.1 w.2
    exact ih (heffect.consistent hc hm) (heffect.indexed hi) (h.perform hc hi hm w.2)
      fun w hw => hws w (List.mem_cons_of_mem _ hw)

theorem extends_performAll (hc : Consistent s) (hws : ∀ w ∈ ws, w.1.Proper) :
    Extends s (s.performAll ws) := by
  refine (performAll_keeps (P := fun s' => Consistent s' ∧ Extends s s') ?_ ⟨hc, .refl s⟩ hws).2
  intro s₁ m s₂ r? h hm heffect
  exact ⟨heffect.consistent h.1 hm, h.2.trans (heffect.extends h.1)⟩

/-- Whatever holds of all that extends a store after a write holds after the rest of a run. -/
theorem extends_of_split {w : Moment × Write} {before after : List (Moment × Write)}
    (hws : ∀ v ∈ before ++ w :: after, v.1.Proper) :
    Extends ((performAll {} before).perform w.1 w.2).1 (performAll {} (before ++ w :: after)) := by
  have hbefore : Consistent (performAll {} before) := consistent_performAll fun v hv =>
    hws v (by simp [hv])
  have hstep : Consistent ((performAll {} before).perform w.1 w.2).1 :=
    (perform_effect _ w.1 w.2).consistent hbefore (hws w (by simp))
  have hrun : performAll {} (before ++ w :: after) =
      ((performAll {} before).perform w.1 w.2).1.performAll after :=
    List.foldl_append
  rw [hrun]
  exact extends_performAll hstep fun v hv => hws v (by simp [hv])

theorem clean_newId (hm : m.Proper) (id : String) : Identifier.clean (newId m id) = newId m id := by
  obtain hclean | hfresh := newId_clean_or m id
  · exact hclean
  · rw [hfresh, hm]

/-- A release that was created is found at once, under any spelling of its identifier. -/
theorem getRelease?_of_createRelease {release r : Release} (hm : m.Proper)
    (h : s.createRelease m release = .ok (r, s')) {id : String}
    (hid : Identifier.clean id = Identifier.clean r.id) : s'.getRelease? id = some r := by
  rw [createRelease] at h
  split at h
  · cases h
  · dsimp only at h
    split at h
    · cases h
    split at h
    · cases h
    · cases h
      rw [getRelease?, hid, clean_newId hm]
      exact Dict.get?_insert_self _ _ _

theorem getArtifact?_of_createArtifact {artifact a : Artifact} (hm : m.Proper)
    (h : s.createArtifact m artifact = .ok (a, s')) {id : String}
    (hid : Identifier.clean id = Identifier.clean a.id) :
    s'.getArtifact? id = some a := by
  rw [createArtifact] at h
  split at h
  · cases h
  · dsimp only at h
    split at h
    · cases h
    · cases h
      rw [getArtifact?, hid, clean_newId hm]
      exact Dict.get?_insert_self _ _ _

end

/-! ## What follows -/

section
variable {s : Store} {sets : List (String × String)}

/-- The release of an app is missing only where none was ever set. -/
theorem getAppRelease_eq_none (hi : Indexed s) (h : Linked s)
    (hsets : ∀ k, s.releaseOf? k = lastSetting? sets k) (text : String) :
    s.getAppRelease text = .ok none ↔
      ∃ row, s.findApp? text = some row ∧ ∀ set ∈ sets, set.1 ≠ row.app.id := by
  rw [getAppRelease]
  cases hfind : s.findApp? text with
  | none =>
    have herror : s.findApp text = .error (.notFound ("app " ++ text)) := by
      simp only [findApp, hfind]
    rw [herror]
    exact ⟨nofun, fun ⟨_, hrow, _⟩ => nomatch hrow⟩
  | some row =>
    have hget : s.apps.get? row.app.id = some row :=
      hi.mem_values.1 (hi.findApp?_eq_some_iff.1 hfind).1
    have hlast : row.release = lastSetting? sets row.app.id := by
      rw [← hsets, releaseOf?, hget, Option.bind_some]
    have hnone : row.release.bind s.releases.get? = none ↔ row.release = none := by
      cases hr : row.release with
      | none => simp
      | some id =>
        obtain ⟨r, hr⟩ := Dict.contains_iff.1 (h.release_of_app _ row id hget hr)
        simp [hr]
    rw [findApp_eq_ok.2 hfind]
    change Except.ok (row.release.bind s.releases.get?) = _ ↔ _
    rw [Except.ok.injEq, hnone, hlast, lastSetting?_eq_none]
    simp

/-- A release that is found has an artifact that is found. -/
theorem Linked.getArtifact? (hc : Consistent s) (h : Linked s) {text : String} {r : Release}
    (hr : s.getRelease? text = some r) : ∃ a, s.getArtifact? r.artifact = some a := by
  rw [Store.getArtifact?, hc.artifact_clean _ r hr]
  exact Dict.contains_iff.1 (h.artifact_of_release _ r hr)

theorem prepare_ne_artifactNotFound (hc : Consistent s) (h : Linked s) (app : App) (job : NewJob)
    (attach : Bool) (id : String) :
    Dispatch.prepare s app job attach ≠ .error (.artifactNotFound id) := by
  rw [Dispatch.prepare]
  split
  · simp
  · next r hr =>
    obtain ⟨a, ha⟩ := h.getArtifact? hc hr
    rw [ha]
    dsimp only
    cases hp : Dispatch.processOf r job with
    | ok process => simp
    | error e =>
      rw [Dispatch.processOf] at hp
      split at hp
      · cases hp
      · split at hp
        · cases hp; simp
        · cases hp

end

/-- After any run of writes: what the records name is there, each record stands under its own
identifier, a release or an artifact that was created is what a look-up of its identifier finds ever
after, the release of an app is missing only where the app is live and none was ever set, and no job
is refused for a missing artifact. -/
theorem references_hold (ws : List (Moment × Write)) (hws : ∀ w ∈ ws, w.1.Proper) :
    let s := performAll {} ws
    Linked s ∧
    (∀ before m release after, ws = before ++ (m, .createRelease release) :: after →
      ∀ r s', (performAll {} before).createRelease m release = .ok (r, s') →
        ∀ id, Identifier.clean id = Identifier.clean r.id → s.getRelease? id = some r) ∧
    (∀ before m artifact after, ws = before ++ (m, .createArtifact artifact) :: after →
      ∀ a s', (performAll {} before).createArtifact m artifact = .ok (a, s') →
        ∀ id, Identifier.clean id = Identifier.clean a.id → s.getArtifact? id = some a) ∧
    (∀ text, s.getAppRelease text = .ok none ↔
      ∃ row, s.findApp? text = some row ∧ row.isLive = true ∧
        ∀ set ∈ settings {} ws, set.1 ≠ row.app.id) ∧
    ∀ app job attach id, Dispatch.prepare s app job attach ≠ .error (.artifactNotFound id) := by
  intro s
  have hc : Consistent s := consistent_performAll hws
  have hi : Indexed s := indexed_performAll ws
  have hl : Linked s := linked_empty.performAll consistent_empty indexed_empty hws
  have hnone (k : String) : ({} : Store).releaseOf? k = lastSetting? [] k := rfl
  have hsets (k : String) : s.releaseOf? k = lastSetting? (settings {} ws) k :=
    releaseOf?_performAll indexed_empty hnone ws k
  refine ⟨hl, ?_, ?_, fun text => ?_, prepare_ne_artifactNotFound hc hl⟩
  · rintro before m release after rfl r s' hcreate id hid
    have hext := extends_of_split hws
    have hfound :=
      getRelease?_of_createRelease (hws (m, .createRelease release) (by simp)) hcreate hid
    rw [perform, hcreate] at hext
    exact hext.release _ r hfound
  · rintro before m artifact after rfl a s' hcreate id hid
    have hext := extends_of_split hws
    have hfound :=
      getArtifact?_of_createArtifact (hws (m, .createArtifact artifact) (by simp)) hcreate hid
    rw [perform, hcreate] at hext
    exact hext.artifact _ a hfound
  · rw [getAppRelease_eq_none hi hl hsets]
    refine exists_congr fun row => and_congr_right fun hrow => ?_
    have hlive : row.isLive = true := (Bool.and_eq_true_iff.1 (hi.findApp?_eq_some_iff.1 hrow).2).1
    rw [and_iff_right hlive]

/-- An app that was set to a release is deleted, and another one takes its name. -/
def reuseWrites (m : Moment) : List (Moment × Write) := [
  (m, .createArtifact { id := "-", kind := "docker", uri := "registry/web" }),
  (m, .createRelease { id := "r-1", artifact := "--" }),
  (m, .createApp { id := "old", name := "web" }),
  (m, .setAppRelease "web" "r1"),
  (m, .putFormation { app := "web", release := "r-1" }),
  (m, .deleteApp "web"),
  (m, .createRelease { id := "r1", artifact := "-" }),
  (m, .createApp { name := "web" })]

/-- The identifier of the artifact is blank without its dash; the new app of the name has no
release, and the formation still names the old one. -/
theorem references_hold_of_reuse :
    let m : Moment := ⟨.epoch, "new"⟩
    let s := performAll {} (reuseWrites m)
    (∀ w ∈ reuseWrites m, w.1.Proper) ∧
      (∃ r, s.formations.get? "old/r1" = some r ∧ s.apps.contains r.formation.app = true ∧
        s.releases.contains r.formation.release = true) ∧
      s.getRelease? "-r1-" = some { id := "r1", artifact := "", createdAt := some .epoch } ∧
      s.getArtifact? "" =
        some { id := "", kind := "docker", uri := "registry/web", createdAt := some .epoch } ∧
      s.getAppRelease "web" = .ok none ∧
      Dispatch.prepare s { name := "web" } { release := "r1" } false ≠
        .error (.artifactNotFound "") := by
  intro m s
  have hws : ∀ w ∈ reuseWrites m, w.1.Proper := by decide +kernel
  obtain ⟨hl, hreleases, hartifacts, hrelease, hprepare⟩ := references_hold (reuseWrites m) hws
  have hrecord : ∃ r, s.formations.get? "old/r1" = some r :=
    Option.isSome_iff_exists.1 (by decide +kernel)
  have hrow : ∃ row, s.findApp? "web" = some row ∧ row.isLive = true ∧
      ∀ set ∈ settings {} (reuseWrites m), set.1 ≠ row.app.id := by
    refine ⟨{ app :=
      { id := "new", name := "web", createdAt := some .epoch, updatedAt := some .epoch } }, ?_⟩
    decide +kernel
  obtain ⟨r, hr⟩ := hrecord
  refine ⟨hws, ⟨r, hr, hl.app_of_record _ r hr, hl.release_of_record _ r hr⟩, ?_, ?_,
    (hrelease "web").2 hrow, hprepare _ _ _ _⟩
  · exact hreleases ((reuseWrites m).take 1) m _ ((reuseWrites m).drop 2) rfl _
      (performAll {} ((reuseWrites m).take 2)) (by decide +kernel) "-r1-" (by decide +kernel)
  · exact hartifacts [] m _ ((reuseWrites m).drop 1) rfl _
      (performAll {} ((reuseWrites m).take 1)) (by decide +kernel) "" (by decide +kernel)

end ControlPlane.Store
