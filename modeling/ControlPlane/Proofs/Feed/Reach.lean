import ControlPlane.Proofs.Feed.Hub
import ControlPlane.Proofs.Store.Names

/-! # Apps by their own identifiers

A formation names its app by the identifier of its row, and the app is looked up again by that text.
The look-up takes a text for an identifier by its form, but a new app may bring any text: one
without the form is looked up among the names, where nobody answers to it or another app does.
-/
namespace ControlPlane.Store

/-- `s'` has the rows of `s`, but for one that stands in its place. -/
def OnlyRow (s : Store) (row : AppRow) (s' : Store) : Prop :=
  ∀ k, s'.apps.get? k = if row.app.id = k then some row else s.apps.get? k

/-- What is asked of the app of a row by its own identifier is done, and done to
that app and no other. -/
structure Serves (s : Store) (row : AppRow) : Prop where
  get : s.getApp? row.app.id = some row.app
  update : ∀ m patch isProtected, patch.get? "protected" = some (.bool isProtected) →
    ∃ app s', s.updateApp m row.app.id patch = .ok (app, s') ∧ app.isProtected = isProtected ∧
      app.id = row.app.id ∧ s.OnlyRow { row with app } s'
  delete : ∀ m, ∃ s', s.deleteApp m row.app.id = (true, s') ∧
    s.OnlyRow { row with deletedAt := some m.now } s'
  put : ∀ m formation, formation.app = row.app.id → formation.release ≠ "" →
    (∃ release, s.getRelease? formation.release = some release) →
      ∃ r s', s.putFormation m formation = .ok (r, s') ∧ r.formation.app = row.app.id ∧
        s'.apps = s.apps
  expand : ∀ k r, s.formations.get? k = some r → r.formation.app = row.app.id →
    ∃ c, Change.expand? s r = some c ∧ c.formation.app = row.app

/-! ## The operations on an app that is found -/

section
variable {s : Store} {row : AppRow}

theorem onlyRow_putApp (s : Store) (row : AppRow) : s.OnlyRow row (s.putApp row) := by
  intro k
  rw [putApp, Dict.get?_insert]

theorem updateApp_of_findApp? (hget : s.apps.get? row.app.id = some row)
    (h : s.findApp? row.app.id = some row) (m : Moment) {patch : Dict Json.Value}
    {isProtected : Bool} (hpatch : patch.get? "protected" = some (.bool isProtected)) :
    ∃ app s', s.updateApp m row.app.id patch = .ok (app, s') ∧ app.isProtected = isProtected ∧
      app.id = row.app.id ∧ s.OnlyRow { row with app } s' := by
  rw [updateApp, findApp_eq_ok.2 h, hpatch]
  by_cases hp : row.app.isProtected = isProtected
  · refine ⟨row.app, s, if_pos hp, hp, rfl, fun k => ?_⟩
    split
    · next hk => rw [← hk]; exact hget
    · rfl
  · exact ⟨{ row.app with isProtected, updatedAt := some m.now }, _, if_neg hp, rfl, rfl,
      onlyRow_putApp s _⟩

theorem deleteApp_of_findApp? (h : s.findApp? row.app.id = some row) (m : Moment) :
    ∃ s', s.deleteApp m row.app.id = (true, s') ∧
      s.OnlyRow { row with deletedAt := some m.now } s' := by
  rw [deleteApp, h]
  exact ⟨_, rfl, onlyRow_putApp s _⟩

theorem putFormation_of_findApp? (h : s.findApp? row.app.id = some row) (hid : row.app.id ≠ "")
    (m : Moment) {formation : Formation} (happ : formation.app = row.app.id)
    (hblank : formation.release ≠ "")
    (hrelease : ∃ release, s.getRelease? formation.release = some release) :
    ∃ r s', s.putFormation m formation = .ok (r, s') ∧ r.formation.app = row.app.id ∧
      s'.apps = s.apps := by
  have hput : s.putFormation m formation = .ok (s.written m row formation, _) :=
    putFormation_eq_ok.2 ⟨⟨happ ▸ hid, hblank⟩, row, happ ▸ h,
      Dict.contains_iff.2 hrelease, rfl, rfl⟩
  exact ⟨_, _, hput, rfl, rfl⟩

theorem Indexed.serves (hs : Indexed s) (hc : Consistent s) (hrow : row ∈ s.apps.values)
    (h : s.findApp? row.app.id = some row) : s.Serves row where
  get := by rw [getApp?, h]; rfl
  update m _ _ hpatch := updateApp_of_findApp? (hs.mem_values.1 hrow) h m hpatch
  delete := deleteApp_of_findApp? h
  put m _ happ hblank hrelease := putFormation_of_findApp? h (hs.ne_blank h) m happ hblank hrelease
  expand k r hk hr := by
    obtain ⟨rel, a, t, -, -, he⟩ := expand?_eq_map hc (hc.refers k r hk)
    rw [he, hr, getApp?, h]
    exact ⟨_, rfl, rfl⟩

/-- An app is found by its own identifier if the text has the form of one, or happens
to be the app's name. -/
theorem Indexed.findApp?_self_iff (hs : Indexed s) (hc : Consistent s) (hrow : row ∈ s.apps.values)
    (hlive : row.isLive = true) :
    s.findApp? row.app.id = some row ↔
      Identifier.isId row.app.id = true ∨ row.app.name = row.app.id := by
  have hclean : Identifier.clean row.app.id = row.app.id :=
    hc.app_clean _ row (hs.mem_values.1 hrow)
  rw [hs.findApp?_eq_some_iff, and_iff_right hrow]
  simp [AppRow.answers, hlive, hclean]

/-- Another app that is found by the identifier has it as its name. -/
theorem Indexed.findApp?_other_iff (hs : Indexed s) {other : AppRow} (hrow : row ∈ s.apps.values)
    (hne : other ≠ row) (hclean : Identifier.clean row.app.id = row.app.id) :
    s.findApp? row.app.id = some other ↔
      other ∈ s.apps.values ∧ other.isLive = true ∧ other.app.name = row.app.id := by
  rw [hs.findApp?_eq_some_iff]
  refine and_congr_right fun hother => ?_
  have hid : other.app.id ≠ row.app.id := fun he => hne (hs.eq_of_id hother hrow he)
  simp [AppRow.answers, hclean, hid]

end

/-- After any run of writes an app that is live is served by its own identifier if and only if the
text has the form of an identifier or is the app's own name; otherwise the text finds the live app
of that name, if there is one. -/
theorem serves_iff (ws : List (Moment × Write)) (hws : ∀ w ∈ ws, w.1.Proper) :
    let s := performAll {} ws
    ∀ row ∈ s.apps.values, row.isLive = true →
      (s.Serves row ↔ Identifier.isId row.app.id = true ∨ row.app.name = row.app.id) ∧
      (s.findApp? row.app.id = some row ↔
        Identifier.isId row.app.id = true ∨ row.app.name = row.app.id) ∧
      ∀ other ≠ row, s.findApp? row.app.id = some other ↔
        other ∈ s.apps.values ∧ other.isLive = true ∧ other.app.name = row.app.id := by
  intro s row hrow hlive
  have hs : Indexed s := indexed_performAll ws
  have hc : Consistent s := consistent_performAll hws
  have hself := hs.findApp?_self_iff hc hrow hlive
  refine ⟨⟨fun hserves => ?_, fun h => hs.serves hc hrow (hself.2 h)⟩, hself,
    fun other hne => hs.findApp?_other_iff hrow hne (hc.app_clean _ row (hs.mem_values.1 hrow))⟩
  obtain ⟨found, hfound, happ⟩ := Option.map_eq_some_iff.1 hserves.get
  have hsame := hs.eq_of_id (hs.findApp?_eq_some_iff.1 hfound).1 hrow (congrArg (·.id) happ)
  rw [← hself, hfound, hsame]

/-- An app that brings a name for its identifier, and then an app of that name. The
formation is the first app's. -/
def strayWrites : List (Moment × Write) :=
  let m := Hub.sampleMoment 0
  [(m, .createArtifact { id := Hub.sampleRelease, kind := "docker", uri := "registry/web" }),
    (m, .createRelease { id := Hub.sampleRelease, artifact := Hub.sampleRelease }),
    (m, .createApp { id := "shop", name := "web" }),
    (m, .createApp { id := Hub.sampleApp, name := "shop" }),
    (m, .putFormation { Hub.sampleFormation 1 with app := "web" })]

theorem serves_iff_of_stray :
    (∀ w ∈ strayWrites, w.1.Proper) ∧
    (∃ row ∈ (performAll {} strayWrites).apps.values, row.isLive = true ∧
      row.app.id = Hub.sampleApp ∧
      (performAll {} strayWrites).Serves row) ∧
    ∃ row ∈ (performAll {} strayWrites).apps.values, row.isLive = true ∧ row.app.id = "shop" ∧
      ¬ (performAll {} strayWrites).Serves row := by
  have hws : ∀ w ∈ strayWrites, w.1.Proper := by decide +kernel
  obtain ⟨row, hrow, hlive, hid⟩ : ∃ row ∈ (performAll {} strayWrites).apps.values,
      row.isLive = true ∧ row.app.id = Hub.sampleApp := by decide +kernel
  obtain ⟨stray, hstray, hlive', hid', hname⟩ : ∃ row ∈ (performAll {} strayWrites).apps.values,
      row.isLive = true ∧ row.app.id = "shop" ∧ row.app.name = "web" := by decide +kernel
  refine ⟨hws, ⟨row, hrow, hlive, hid, ?_⟩, stray, hstray, hlive', hid', ?_⟩
  · have hform : Identifier.isId row.app.id = true := by rw [hid]; decide +kernel
    exact (serves_iff strayWrites hws row hrow hlive).1.2 (.inl hform)
  · rw [(serves_iff strayWrites hws stray hstray hlive').1, hid', hname]
    decide +kernel

/-- A live app may not be found by its own identifier; once another app has it for a name, that app
is found, and what is announced of the first app's formation tells of the other. -/
theorem app_unserved :
    (∃ row ∈ (performAll {} (strayWrites.take 3)).apps.values, row.isLive = true ∧
      row.app.id = "shop" ∧
      (performAll {} (strayWrites.take 3)).findApp? row.app.id = none) ∧
    (∃ row ∈ (performAll {} strayWrites).apps.values, row.isLive = true ∧ row.app.id = "shop" ∧
      ((performAll {} strayWrites).findApp? row.app.id).map (·.app.id) = some Hub.sampleApp) ∧
    (performAll {} strayWrites).formations.values.map (fun r =>
      (r.formation.app, (Change.expand? (performAll {} strayWrites) r).map (·.formation.app.id))) =
        [("shop", some Hub.sampleApp)] := by
  decide +kernel

end ControlPlane.Store
