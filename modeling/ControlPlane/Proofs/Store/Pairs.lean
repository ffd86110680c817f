import ControlPlane.Proofs.Store.Consistent
import ControlPlane.Proofs.Store.Names

/-! # The formations of different pairs of an app and a release

A formation stands under the identifiers of its app and its release, joined by a slash. The store
takes any text for an identifier, so an identifier of an app may go on over a slash into what is the
release of another app: two such pairs have one key, and the formation of one is taken for that of
the other. All other pairs leave each other alone.
-/
namespace ControlPlane

namespace Formation

/-- One app goes on, over a slash, into the release of the other, and the keys of
the two pairs are one. -/
def Overlap (app release app' release' : String) : Prop :=
  ∃ x, (app' = keyOf app x ∧ release = keyOf x release') ∨
    (app = keyOf app' x ∧ release' = keyOf x release)

variable {app release app' release' : String}

theorem toList_keyOf (app release : String) :
    (keyOf app release).toList = app.toList ++ '/' :: release.toList := by
  simp [keyOf]

/-- The first app ends where the second does, or the second goes on into the first release. -/
private theorem longer_iff :
    (∃ l, app'.toList = app.toList ++ l ∧ '/' :: release.toList = l ++ '/' :: release'.toList) ↔
      app = app' ∧ release = release' ∨ ∃ x, app' = keyOf app x ∧ release = keyOf x release' := by
  constructor
  · rintro ⟨l, happ, hrelease⟩
    cases l with
    | nil =>
      rw [List.append_nil] at happ
      exact .inl ⟨String.toList_inj.1 happ.symm, String.toList_inj.1 (List.cons.inj hrelease).2⟩
    | cons c l =>
      obtain ⟨rfl, hl⟩ := List.cons.inj hrelease
      refine .inr ⟨String.ofList l, String.toList_inj.1 ?_, String.toList_inj.1 ?_⟩
      · rw [toList_keyOf, String.toList_ofList, happ]
      · rw [toList_keyOf, String.toList_ofList]
        exact hl
  · rintro (⟨rfl, rfl⟩ | ⟨x, rfl, rfl⟩)
    · exact ⟨[], by simp⟩
    · exact ⟨'/' :: x.toList, by simp [toList_keyOf]⟩

theorem keyOf_eq_keyOf_iff :
    keyOf app release = keyOf app' release' ↔
      (app = app' ∧ release = release') ∨ Overlap app release app' release' := by
  rw [← String.toList_inj, toList_keyOf, toList_keyOf, List.append_eq_append_iff,
    longer_iff, longer_iff, Overlap, exists_or, eq_comm (a := app'), eq_comm (a := release'),
    ← or_or_distrib_left]

/-- Apps without a slash have no pair that overlaps. -/
theorem not_overlap (h : '/' ∉ app.toList) (h' : '/' ∉ app'.toList) :
    ¬ Overlap app release app' release' := by
  rintro ⟨x, ⟨rfl, -⟩ | ⟨rfl, -⟩⟩
  · simp [toList_keyOf] at h'
  · simp [toList_keyOf] at h

end Formation

namespace Store
open Formation
variable {s : Store} {m : Moment} {row other : AppRow} {rel rel' : Release} {w : Write}

/-- A put or a deletion of the formation of an app and a release, by any texts that find them. -/
def Write.IsOf (s : Store) (row : AppRow) (rel : Release) : Write → Prop
  | .putFormation formation => s.findApp? formation.app = some row ∧
  s.getRelease? formation.release = some rel
  | .deleteFormation app release => s.findApp? app = some row ∧ s.getRelease? release = some rel
  | _ => False

/-- Whatever is asked of the formation of one pair, what is found of the other stays as it was. -/
def Apart (s : Store) (row : AppRow) (rel : Release) (other : AppRow) (rel' : Release) : Prop :=
  ∀ m w, w.IsOf s row rel → ∀ app release, s.findApp? app = some other →
    s.getRelease? release = some rel' →
    (s.perform m w).1.getFormation? app release = s.getFormation? app release

theorem mem_releases_iff (hc : Consistent s) :
    rel ∈ s.releases.values ↔ s.releases.get? rel.id = some rel := by
  rw [Dict.mem_values_iff]
  constructor
  · rintro ⟨k, hk⟩
    rwa [hc.release_id k rel hk]
  · exact fun h => ⟨_, h⟩

theorem id_of_getRelease? (hc : Consistent s) {release : String}
    (h : s.getRelease? release = some rel) :
    rel.id = Identifier.clean release :=
  hc.release_id _ rel h

/-- Every release is found by some text, which the store does not take for a missing one. -/
theorem exists_getRelease? (hc : Consistent s) (h : rel ∈ s.releases.values) :
    ∃ release ≠ "", s.getRelease? release = some rel := by
  have hget := (mem_releases_iff hc).1 h
  have hclean : Identifier.clean rel.id = rel.id := hc.release_clean _ rel hget
  by_cases hblank : rel.id = ""
  · refine ⟨"-", by decide, ?_⟩
    have hdash : Identifier.clean "-" = rel.id := by rw [hblank]; decide
    rwa [getRelease?, hdash]
  · exact ⟨rel.id, hblank, by rwa [getRelease?, hclean]⟩

theorem Indexed.findApp?_name (hi : Indexed s) (hrow : row ∈ s.apps.values)
    (hlive : row.isLive = true) :
    s.findApp? row.app.name = some row :=
  hi.findApp?_eq_some_iff.2 ⟨hrow, by simp [AppRow.answers, hlive]⟩

/-! ## What is asked of one pair -/

theorem formation?_record (s : Store) (key k : String) (r : FormationRecord) :
    (s.record key r).formation? k = if key = k then (some r).filter (!·.isDeleted)
      else s.formation? k := by
  simp only [formation?, record, Dict.get?_insert]
  split <;> rfl

/-- A write of the formation of a pair commits under the key of the pair, or nothing at all. -/
theorem Write.IsOf.perform_eq (hc : Consistent s) (h : w.IsOf s row rel) (m : Moment) :
    (s.perform m w).1 = s ∨ ∃ r, (s.perform m w).1 = s.record (keyOf row.app.id rel.id) r := by
  cases w with
  | putFormation formation =>
    obtain ⟨hrow, hrel⟩ := h
    rw [id_of_getRelease? hc hrel, perform]
    cases hput : s.putFormation m formation with
    | error e => exact .inl rfl
    | ok p =>
      obtain ⟨-, row', hrow', -, hr, hstore⟩ := putFormation_eq_ok.1 hput
      rw [hrow] at hrow'
      cases hrow'
      refine .inr ⟨p.1, hstore.trans ?_⟩
      rw [hr]
      rfl
  | deleteFormation app release =>
    obtain ⟨hrow, hrel⟩ := h
    rw [id_of_getRelease? hc hrel, perform]
    cases hdelete : s.deleteFormation m app release with
    | error e => exact .inl rfl
    | ok p =>
      obtain ⟨row', hrow', hp⟩ := deleteFormation_eq_ok.1 hdelete
      rw [hrow] at hrow'
      cases hrow'
      split at hp
      · exact .inl (congrArg Prod.snd hp)
      · exact .inr ⟨_, congrArg Prod.snd hp⟩
  | _ => exact h.elim

/-- Any processes can be put for a pair. -/
theorem exists_put (hi : Indexed s) (hc : Consistent s) (hrow : row ∈ s.apps.values)
    (hlive : row.isLive = true) (hrel : rel ∈ s.releases.values) (m : Moment)
    (processes : Dict Int32) :
    ∃ w r, w.IsOf s row rel ∧ (s.perform m w).1 = s.record (keyOf row.app.id rel.id) r ∧
      r.deletedAt = none ∧
      r.formation.processes = processes := by
  obtain ⟨release, hblank, hfound⟩ := exists_getRelease? hc hrel
  have hname := hi.findApp?_name hrow hlive
  let formation : Formation := { app := row.app.name, release, processes }
  let r := s.written m row formation
  have hput : s.putFormation m formation = .ok (r, s.record r.key r) :=
    putFormation_eq_ok.2 ⟨⟨hi.ne_blank hname, hblank⟩, row, hname,
      Dict.contains_iff.2 ⟨rel, hfound⟩, rfl, rfl⟩
  refine ⟨.putFormation formation, r, ⟨hname, hfound⟩, ?_, rfl, rfl⟩
  rw [perform, hput, id_of_getRelease? hc hfound]
  rfl

theorem apart_iff (hi : Indexed s) (hc : Consistent s) (hrow : row ∈ s.apps.values)
    (hlive : row.isLive = true) (hother : other ∈ s.apps.values) (hlive' : other.isLive = true)
    (hrel : rel ∈ s.releases.values) (hrel' : rel' ∈ s.releases.values)
    (hne : (row.app.id, rel.id) ≠ (other.app.id, rel'.id)) :
    s.Apart row rel other rel' ↔ ¬ Overlap row.app.id rel.id other.app.id rel'.id := by
  have hkey : keyOf row.app.id rel.id = keyOf other.app.id rel'.id ↔
      Overlap row.app.id rel.id other.app.id rel'.id := by
    rw [keyOf_eq_keyOf_iff, or_iff_right fun h => hne (Prod.ext h.1 h.2)]
  rw [← hkey]
  constructor
  · intro hapart hsame
    obtain ⟨release, -, hfound⟩ := exists_getRelease? hc hrel'
    have hname := hi.findApp?_name hother hlive'
    obtain ⟨processes, hnew⟩ :
        ∃ n, (s.getFormation? other.app.name release).map (·.processes) ≠ some n := by
      by_contra! hall
      have hsome := (hall {}).symm.trans (hall (.ofList [("web", 1)]))
      revert hsome
      decide
    obtain ⟨w, r, hw, hstore, hr, hp⟩ := exists_put hi hc hrow hlive hrel default processes
    apply hnew
    rw [← hapart default w hw _ release hname hfound, hstore,
      getFormation?_of_findApp? (s := s.record _ r) hname, ← id_of_getRelease? hc hfound,
      formation?_record, if_pos hsame]
    simp [Option.filter_some, FormationRecord.isDeleted, hr, hp]
  · intro hdiffers m w hw app release happ hfound
    obtain hstore | ⟨r, hstore⟩ := hw.perform_eq hc m
    · rw [hstore]
    · rw [hstore, getFormation?_of_findApp? (s := s.record _ r) happ,
        getFormation?_of_findApp? happ, ← id_of_getRelease? hc hfound, formation?_record,
        if_neg hdiffers]

/-- Where no app has a slash in its identifier, the formation of a pair is out
of reach of all others. -/
theorem apart_of_no_slash (hi : Indexed s) (hc : Consistent s)
    (hslash : ∀ row ∈ s.apps.values, '/' ∉ row.app.id.toList) (hrow : row ∈ s.apps.values)
    (hlive : row.isLive = true) (hother : other ∈ s.apps.values) (hlive' : other.isLive = true)
    (hrel : rel ∈ s.releases.values) (hrel' : rel' ∈ s.releases.values)
    (hne : (row.app.id, rel.id) ≠ (other.app.id, rel'.id)) : s.Apart row rel other rel' :=
  (apart_iff hi hc hrow hlive hother hlive' hrel hrel' hne).2
    (not_overlap (hslash row hrow) (hslash other hother))

/-! ## The list of an app's formations -/

theorem front_isPrefixOf_iff {app key : String} :
    (keyOf app "").toList.isPrefixOf key.toList = true ↔ ∃ x, key = keyOf app x := by
  rw [List.isPrefixOf_iff_prefix]
  constructor
  · rintro ⟨l, hl⟩
    refine ⟨String.ofList l, String.toList_inj.1 ?_⟩
    rw [← hl, toList_keyOf, toList_keyOf, String.toList_ofList]
    simp
  · rintro ⟨x, rfl⟩
    exact ⟨x.toList, by simp [toList_keyOf]⟩

/-- The list shows what is live under the keys that begin with the app. -/
theorem listFormations_of_findApp? (hc : Consistent s) {app : String}
    (h : s.findApp? app = some row) :
    ∃ fs, s.listFormations app = .ok fs ∧ ∀ f, f ∈ fs ↔
      (∃ r, s.formation? f.key = some r ∧ r.formation = f) ∧ ∃ x, f.key = keyOf row.app.id x := by
  refine ⟨_, by rw [listFormations, findApp_eq_ok.2 h]; rfl, fun f => ?_⟩
  simp only [Dict.values, Dict.filter, List.map_map, List.mem_map, List.mem_filter,
    Function.comp_apply, Bool.and_eq_true, front_isPrefixOf_iff, Prod.exists, Dict.mem_entries_iff,
    formation?, Option.filter_eq_some_iff]
  constructor
  · rintro ⟨k, r, ⟨hget, hfront, hlive⟩, rfl⟩
    have hkey : r.formation.key = k := hc.record_key k r hget
    exact ⟨⟨r, ⟨hkey ▸ hget, hlive⟩, rfl⟩, hkey ▸ hfront⟩
  · rintro ⟨⟨r, ⟨hget, hlive⟩, rfl⟩, hfront⟩
    exact ⟨_, r, ⟨hget, hfront, hlive⟩, rfl⟩

/-- So it shows the app's own formations, and those whose keys it takes for keys of its own. -/
theorem mem_listFormations_iff (hc : Consistent s) {app : String} (h : s.findApp? app = some row)
    {f : Formation} :
    ((∃ r, s.formation? f.key = some r ∧ r.formation = f) ∧ ∃ x, f.key = keyOf row.app.id x) ↔
      (f.app = row.app.id ∧ s.getFormation? app f.release = some f) ∨
      (f.app ≠ row.app.id ∧ (∃ r, s.formation? f.key = some r ∧ r.formation = f) ∧
        ∃ x, Overlap row.app.id x f.app f.release) := by
  have hown (happ : f.app = row.app.id) : (∃ r, s.formation? f.key = some r ∧ r.formation = f) ↔
      s.getFormation? app f.release = some f := by
    rw [getFormation?_of_findApp? h, Option.map_eq_some_iff, ← happ]
    constructor
    · rintro ⟨r, hr, hf⟩
      have hclean := (hc.refers _ r (Option.filter_eq_some_iff.1 hr).1).release_clean
      rw [hf] at hclean
      rw [hclean]
      exact ⟨r, hr, hf⟩
    · rintro ⟨r, hr, hf⟩
      have hkey := hc.record_key _ r (Option.filter_eq_some_iff.1 hr).1
      rw [FormationRecord.key, hf] at hkey
      rw [hkey]
      exact ⟨r, hr, hf⟩
  have hkey (x : String) : f.key = keyOf row.app.id x ↔
      (row.app.id = f.app ∧ x = f.release) ∨ Overlap row.app.id x f.app f.release := by
    rw [← keyOf_eq_keyOf_iff, eq_comm]
    rfl
  by_cases happ : f.app = row.app.id
  · have hfront : ∃ x, f.key = keyOf row.app.id x := ⟨f.release, by rw [← happ]; rfl⟩
    simp [happ, hfront, hown]
  · simp only [hkey, happ, Ne.symm happ, false_and, false_or, ne_eq, not_false_eq_true, true_and]

/-- After any run of writes: what is asked of the formation of one pair of a live app and a stored
release leaves the formation of another pair as it was, if and only if the pairs do not overlap; and
the list of a live app's formations shows its own, and besides them those of other apps whose pairs
overlap with one of the app. -/
theorem formations_apart_iff (ws : List (Moment × Write)) (hws : ∀ w ∈ ws, w.1.Proper) :
    let s := performAll {} ws
    (∀ row ∈ s.apps.values, ∀ other ∈ s.apps.values, row.isLive = true → other.isLive = true →
      ∀ rel ∈ s.releases.values, ∀ rel' ∈ s.releases.values,
        (row.app.id, rel.id) ≠ (other.app.id, rel'.id) →
        (s.Apart row rel other rel' ↔ ¬ Overlap row.app.id rel.id other.app.id rel'.id)) ∧
    ∀ app row, s.findApp? app = some row → ∃ fs, s.listFormations app = .ok fs ∧ ∀ f, f ∈ fs ↔
      (f.app = row.app.id ∧ s.getFormation? app f.release = some f) ∨
      (f.app ≠ row.app.id ∧ (∃ r, s.formation? f.key = some r ∧ r.formation = f) ∧
        ∃ x, Overlap row.app.id x f.app f.release) := by
  intro s
  have hi : Indexed s := indexed_performAll ws
  have hc : Consistent s := consistent_performAll hws
  refine ⟨fun row hrow other hother hlive hlive' rel hrel rel' hrel' hne =>
    apart_iff hi hc hrow hlive hother hlive' hrel hrel' hne, fun app row h => ?_⟩
  obtain ⟨fs, hlist, hmem⟩ := listFormations_of_findApp? hc h
  exact ⟨fs, hlist, fun f => (hmem f).trans (mem_listFormations_iff hc h)⟩

/-- Two apps, the identifier of one going on over a slash from that of the other, and
two releases to match. -/
def slashedWrites : List (Moment × Write) :=
  let m : Moment := ⟨.epoch, ""⟩
  [(m, .createArtifact { id := "image", kind := "docker", uri := "registry/web" }),
    (m, .createRelease { id := "y/z", artifact := "image" }),
    (m, .createRelease { id := "z", artifact := "image" }),
    (m, .createApp { id := "x", name := "web" }),
    (m, .createApp { id := "x/y", name := "shop" })]

/-- Of the pairs of the two apps one overlaps, and the pair beside it does not. -/
theorem formations_apart_iff_of_slashed :
    let s := performAll {} slashedWrites
    (∀ w ∈ slashedWrites, w.1.Proper) ∧
    ∃ row ∈ s.apps.values, ∃ other ∈ s.apps.values, ∃ rel ∈ s.releases.values,
      ∃ rel' ∈ s.releases.values,
      row.app.id = "x" ∧ other.app.id = "x/y" ∧ rel.id = "y/z" ∧ rel'.id = "z" ∧
        ¬ s.Apart row rel other rel' ∧ s.Apart row rel' other rel := by
  intro s
  have hws : ∀ w ∈ slashedWrites, w.1.Proper := by decide +kernel
  obtain ⟨row, hrow, hlive, hid⟩ : ∃ row ∈ s.apps.values, row.isLive = true ∧ row.app.id = "x" := by
    decide +kernel
  obtain ⟨other, hother, hlive', hid'⟩ : ∃ row ∈ s.apps.values, row.isLive = true ∧
    row.app.id = "x/y" := by
    decide +kernel
  obtain ⟨rel, hrel, hrelId⟩ : ∃ rel ∈ s.releases.values, rel.id = "y/z" := by decide +kernel
  obtain ⟨rel', hrel', hrelId'⟩ : ∃ rel ∈ s.releases.values, rel.id = "z" := by decide +kernel
  have hiff := (formations_apart_iff slashedWrites hws).1 row hrow other hother hlive hlive'
  refine ⟨hws, row, hrow, other, hother, rel, hrel, rel', hrel', hid, hid', hrelId, hrelId', ?_, ?_⟩
  · rw [hiff rel hrel rel' hrel' (by simp [hid, hid']), not_not, hid, hid', hrelId, hrelId']
    exact ⟨"y", by decide⟩
  · rw [hiff rel' hrel' rel hrel (by simp [hid, hid']), hid, hid', hrelId, hrelId']
    intro hoverlap
    have hkey : keyOf "x" "z" = keyOf "x/y" "y/z" := keyOf_eq_keyOf_iff.2 (.inr hoverlap)
    revert hkey
    decide

/-- The formation of one pair is put, and it is found and listed as the formation of the other. -/
theorem formation_shared :
    let s := performAll {} slashedWrites
    let put : Write :=
      .putFormation { app := "web", release := "y/z", processes := .ofList [("web", 1)] }
    let s' := (s.perform ⟨.epoch, ""⟩ put).1
    (s.getApp? "web").map (·.id) = some "x" ∧ (s.getApp? "shop").map (·.id) = some "x/y" ∧
      (s.getRelease? "y/z").map (·.id) = some "y/z" ∧ (s.getRelease? "z").map (·.id) = some "z" ∧
      s.getFormation? "shop" "z" = none ∧ (s'.getFormation? "shop" "z").map (·.app) = some "x" ∧
      (s'.listFormations "shop").toOption.map (·.map (·.app)) = some ["x"] := by
  decide +kernel

end Store
end ControlPlane
