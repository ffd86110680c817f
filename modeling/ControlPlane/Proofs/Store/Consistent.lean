import ControlPlane.Proofs.Store.Write

/-! # What every reachable store keeps

Rows stand under their own identifiers, names are valid, and what a release or a formation refers
to is there: apps are only ever marked as deleted, releases and artifacts never leave. `Extends`
orders the stores of a run.
-/
namespace ControlPlane

/-- A fresh identifier has no dashes. -/
def Moment.Proper (m : Moment) : Prop := Identifier.clean m.id = m.id

instance (m : Moment) : Decidable m.Proper :=
  inferInstanceAs (Decidable (Identifier.clean m.id = m.id))

namespace Store

/-- What a record names is in the store, the app perhaps as a deleted one. -/
structure Refers (s : Store) (r : FormationRecord) : Prop where
  app : ∃ row, s.apps.get? r.formation.app = some row
  release_clean : Identifier.clean r.formation.release = r.formation.release
  release : ∃ rel, s.releases.get? r.formation.release = some rel
  changed : ∃ t, r.changedAt = some t

structure Consistent (s : Store) : Prop where
  app_id : ∀ k row, s.apps.get? k = some row → row.app.id = k
  app_clean : ∀ k row, s.apps.get? k = some row → Identifier.clean k = k
  name_valid : ∀ n id, s.appNames.get? n = some id → AppName.isValid n = true
  release_id : ∀ k r, s.releases.get? k = some r → r.id = k
  release_clean : ∀ k r, s.releases.get? k = some r → Identifier.clean k = k
  artifact_clean : ∀ k r, s.releases.get? k = some r → Identifier.clean r.artifact = r.artifact
  artifact : ∀ k r, s.releases.get? k = some r → ∃ a, s.artifacts.get? r.artifact = some a
  record_key : ∀ k r, s.formations.get? k = some r → r.key = k
  refers : ∀ k r, s.formations.get? k = some r → s.Refers r

theorem consistent_empty : Consistent {} := by
  constructor <;> simp

/-- `s'` holds all that `s` holds; an app may have changed, and a deleted one stays deleted. -/
structure Extends (s s' : Store) : Prop where
  app : ∀ k row, s.apps.get? k = some row →
    ∃ row', s'.apps.get? k = some row' ∧ (row'.isLive = true → row.isLive = true)
  release : ∀ k r, s.releases.get? k = some r → s'.releases.get? k = some r
  artifact : ∀ k a, s.artifacts.get? k = some a → s'.artifacts.get? k = some a

namespace Extends
variable {s s' s'' : Store}

theorem refl (s : Store) : Extends s s :=
  ⟨fun _ row h => ⟨row, h, id⟩, fun _ _ h => h, fun _ _ h => h⟩

theorem trans (h : Extends s s') (h' : Extends s' s'') : Extends s s'' where
  app k row hk := by
    obtain ⟨row', hk', hlive⟩ := h.app k row hk
    obtain ⟨row'', hk'', hlive'⟩ := h'.app k row' hk'
    exact ⟨row'', hk'', fun hl => hlive (hlive' hl)⟩
  release k r hk := h'.release k r (h.release k r hk)
  artifact k a hk := h'.artifact k a (h.artifact k a hk)

theorem refers (h : Extends s s') {r : FormationRecord} (hr : s.Refers r) : s'.Refers r where
  app := by
    obtain ⟨row, hk⟩ := hr.app
    obtain ⟨row', hk', -⟩ := h.app _ row hk
    exact ⟨row', hk'⟩
  release_clean := hr.release_clean
  release := by
    obtain ⟨rel, hk⟩ := hr.release
    exact ⟨rel, h.release _ rel hk⟩
  changed := hr.changed

/-- An app that is live now was live ever since it was there. -/
theorem live (h : Extends s s') {k : String} (hin : ∃ row, s.apps.get? k = some row)
    (hlive : ∃ row, s'.liveApp? k = some row) : ∃ row, s.liveApp? k = some row := by
  obtain ⟨row, hk⟩ := hin
  obtain ⟨row', hlive⟩ := hlive
  obtain ⟨hk', hl⟩ := liveApp?_eq_some.1 hlive
  obtain ⟨row'', hk'', himp⟩ := h.app k row hk
  rw [hk'] at hk''
  cases hk''
  exact ⟨row, liveApp?_eq_some.2 ⟨hk, himp hl⟩⟩

end Extends

/-- The identifiers of all apps, those of deleted ones too, have the form of identifiers. -/
def AppsIdentified (s : Store) : Prop := ∀ row ∈ s.apps.values, Identifier.isId row.app.id = true

instance (s : Store) : Decidable s.AppsIdentified :=
  inferInstanceAs (Decidable (∀ row ∈ s.apps.values, Identifier.isId row.app.id = true))

theorem AppsIdentified.of_extends {s s' : Store} (hids : s'.AppsIdentified) (hs : Consistent s)
    (hs' : Consistent s')
    (h : Extends s s') : s.AppsIdentified := by
  intro row hrow
  obtain ⟨k, hk⟩ := Dict.mem_values_iff.1 hrow
  obtain ⟨row', hk', -⟩ := h.app k row hk
  rw [hs.app_id k row hk, ← hs'.app_id k row' hk']
  exact hids row' (Dict.mem_values_iff.2 ⟨k, hk'⟩)

namespace Refers
variable {s : Store} {r r' : FormationRecord}

theorem app_isId (hr : s.Refers r) (hs : Consistent s) (hids : s.AppsIdentified) :
    Identifier.isId r.formation.app = true ∧
    Identifier.clean r.formation.app = r.formation.app := by
  obtain ⟨row, hk⟩ := hr.app
  refine ⟨?_, hs.app_clean _ row hk⟩
  rw [← hs.app_id _ row hk]
  exact hids row (Dict.mem_values_iff.2 ⟨_, hk⟩)

/-- Records of one key are records of one app. -/
theorem app_eq (hr : s.Refers r) (hr' : s.Refers r') (hs : Consistent s) (hids : s.AppsIdentified)
    (h : r.key = r'.key) : r.formation.app = r'.formation.app := by
  obtain ⟨hid, hclean⟩ := hr.app_isId hs hids
  obtain ⟨hid', hclean'⟩ := hr'.app_isId hs hids
  refine (Formation.keyOf_inj ?_ h).1
  rw [Identifier.length_of_isId_clean hid hclean, Identifier.length_of_isId_clean hid' hclean']

end Refers

/-- A live app stands under its own identifier. -/
theorem Consistent.live_id {s : Store} (hs : Consistent s) {row : AppRow}
    (h : ∃ k, s.liveApp? k = some row) :
    s.apps.get? row.app.id = some row ∧ row.isLive = true := by
  obtain ⟨k, hk⟩ := h
  obtain ⟨hget, hlive⟩ := liveApp?_eq_some.1 hk
  rw [hs.app_id k row hget]
  exact ⟨hget, hlive⟩

private theorem extends_insert_app {s : Store} {row : AppRow} (names : Dict String)
    (h : ∀ old, s.apps.get? row.app.id = some old → row.isLive = true → old.isLive = true) :
    Extends s { s.putApp row with appNames := names } where
  app k old hk := by
    simp only [putApp, Dict.get?_insert]
    by_cases he : row.app.id = k
    · subst he
      exact ⟨row, if_pos rfl, h old hk⟩
    · exact ⟨old, by rwa [if_neg he], id⟩
  release _ _ hk := hk
  artifact _ _ hk := hk

theorem Effect.extends {s s' : Store} {m : Moment} {r? : Option FormationRecord} (hs : Consistent s)
    (h : Effect s m s' r?) : Extends s s' := by
  cases h with
  | idle => exact .refl s
  | appCreated app hname hid hnew hfree =>
    refine extends_insert_app _ fun old hold _ => ?_
    simp [hnew] at hold
  | appChanged row row' hrow hid hname hlive =>
    refine extends_insert_app s.appNames fun old hold _ => ?_
    obtain ⟨hget, hl⟩ := hs.live_id hrow
    rw [hid, hget] at hold
    cases hold
    exact hl
  | appDeleted row hrow =>
    refine extends_insert_app _ fun old hold hl => ?_
    simp [AppRow.isLive] at hl
  | artifactCreated artifact hnew =>
    refine ⟨fun _ row h => ⟨row, h, id⟩, fun _ _ h => h, fun k a hk => ?_⟩
    rwa [Dict.get?_insert_of_ne]
    rintro rfl
    simp [hnew] at hk
  | releaseCreated release hclean hartifact hnew =>
    refine ⟨fun _ row h => ⟨row, h, id⟩, fun k r hk => ?_, fun _ _ h => h⟩
    rwa [Dict.get?_insert_of_ne]
    rintro rfl
    simp [hnew] at hk
  | put row r => exact ⟨fun _ row h => ⟨row, h, id⟩, fun _ _ h => h, fun _ _ h => h⟩
  | deleted row release old => exact ⟨fun _ row h => ⟨row, h, id⟩, fun _ _ h => h, fun _ _ h => h⟩

/-- Rows of an app table, with one more row that stands under its own clean identifier. -/
private theorem Consistent.insert_app {s : Store} (hs : Consistent s) {row : AppRow}
    (names : Dict String) (hext : Extends s { s.putApp row with appNames := names })
    (hclean : Identifier.clean row.app.id = row.app.id)
    (hnames : ∀ n id, names.get? n = some id → AppName.isValid n = true) :
    Consistent { s.putApp row with appNames := names } where
  app_id k row' hk := by
    simp only [putApp, Dict.get?_insert] at hk
    split at hk
    · next he => cases hk; exact he
    · exact hs.app_id k row' hk
  app_clean k row' hk := by
    simp only [putApp, Dict.get?_insert] at hk
    split at hk
    · next he => exact he ▸ hclean
    · exact hs.app_clean k row' hk
  name_valid := hnames
  release_id := hs.release_id
  release_clean := hs.release_clean
  artifact_clean := hs.artifact_clean
  artifact := hs.artifact
  record_key := hs.record_key
  refers k r hk := hext.refers (hs.refers k r hk)

private theorem Consistent.record {s : Store} (hs : Consistent s) {key : String}
    {r : FormationRecord} (hkey : r.key = key) (href : s.Refers r) :
    Consistent (s.record key r) := by
  have hext : Extends s (s.record key r) :=
    ⟨fun _ row h => ⟨row, h, id⟩, fun _ _ h => h, fun _ _ h => h⟩
  refine { hs with record_key := fun k r' hk => ?_, refers := fun k r' hk => ?_ }
  · simp only [Store.record, Dict.get?_insert] at hk
    split at hk
    · next he => cases hk; rw [hkey, he]
    · exact hs.record_key k r' hk
  · simp only [Store.record, Dict.get?_insert] at hk
    split at hk
    · cases hk; exact hext.refers href
    · exact hext.refers (hs.refers k r' hk)

theorem Effect.consistent {s s' : Store} {m : Moment} {r? : Option FormationRecord}
    (hs : Consistent s) (hm : m.Proper) (h : Effect s m s' r?) : Consistent s' := by
  have hext : Extends s s' := h.extends hs
  cases h with
  | idle => exact hs
  | appCreated app hname hid hnew hfree =>
    refine hs.insert_app _ hext ?_ fun n id hn => ?_
    · rcases hid with hid | hid
      · exact hid
      · rw [hid, hm]
    · rw [Dict.get?_insert] at hn
      split at hn
      · next he => exact he ▸ hname
      · exact hs.name_valid n id hn
  | appChanged row row' hrow hid hname hlive =>
    refine hs.insert_app s.appNames hext ?_ hs.name_valid
    rw [hid]
    exact hs.app_clean _ row (hs.live_id hrow).1
  | appDeleted row hrow =>
    refine hs.insert_app _ hext (hs.app_clean _ row (hs.live_id hrow).1) fun n id hn => ?_
    rw [Dict.get?_erase] at hn
    split at hn
    · cases hn
    · exact hs.name_valid n id hn
  | artifactCreated artifact hnew =>
    refine { hs with
      artifact := fun k r hk => ?_, refers := fun k r hk => hext.refers (hs.refers k r hk) }
    obtain ⟨a, ha⟩ := hs.artifact k r hk
    exact ⟨a, hext.artifact _ a ha⟩
  | releaseCreated release hclean hartifact hnew hid =>
    have hcases (k : String) (r : Release)
        (hk : (s.releases.insert release.id release).get? k = some r) :
        (release.id = k ∧ r = release) ∨ s.releases.get? k = some r := by
      rw [Dict.get?_insert] at hk
      split at hk
      · next he => cases hk; exact .inl ⟨he, rfl⟩
      · exact .inr hk
    refine { hs with
      release_id := fun k r hk => ?_, release_clean := fun k r hk =>
        ?_, artifact_clean := fun k r hk => ?_,
      artifact := fun k r hk => ?_, refers := fun k r hk => hext.refers (hs.refers k r hk) }
    · obtain ⟨he, rfl⟩ | hk := hcases k r hk
      · exact he
      · exact hs.release_id k r hk
    · obtain ⟨rfl, rfl⟩ | hk := hcases k r hk
      · exact hid.elim id fun hfresh => by rw [hfresh, hm]
      · exact hs.release_clean k r hk
    · obtain ⟨-, rfl⟩ | hk := hcases k r hk
      · exact hclean
      · exact hs.artifact_clean k r hk
    · obtain ⟨-, rfl⟩ | hk := hcases k r hk
      · exact hartifact
      · exact hs.artifact k r hk
  | put row r hrow happ hclean hrelease hversion hlive hchanged =>
    refine hs.record rfl ⟨⟨row, ?_⟩, hclean, hrelease, _, hchanged⟩
    rw [happ]
    exact (hs.live_id hrow).1
  | deleted row release old hrow hold =>
    have href : s.Refers old := hs.refers _ old hold
    exact hs.record (hs.record_key _ old hold) { href with changed := ⟨m.now, rfl⟩ }

theorem consistent_performAll {ws : List (Moment × Write)} (hws : ∀ w ∈ ws, w.1.Proper) :
    Consistent (performAll {} ws) :=
  performAll_keeps (fun hs hm h => h.consistent hs hm) consistent_empty hws

end Store
end ControlPlane
