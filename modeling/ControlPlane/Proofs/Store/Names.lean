import ControlPlane.Proofs.Store.Write
import Mathlib.Data.List.Nodup

/-! # The names of apps

Every write keeps the names in step with the rows of the apps: a name leads to the live app that has
it, and to nothing else. Since no name is an identifier, a look-up by the two tables then finds what
a scan of all rows finds.
-/
namespace ControlPlane

/-- Whether a row is what a text asks for: a live app of that identifier, in any
spelling, or of that name. -/
def AppRow.answers (text : String) (row : AppRow) : Bool :=
  row.isLive &&
    ((Identifier.isId text && row.app.id == Identifier.clean text) || row.app.name == text)

namespace Store

theorem checkAppName_of_isValid {name : String} (h : AppName.isValid name = true) :
    checkAppName name = .ok () := by
  have hblank : name.isEmpty = false := by
    rw [Bool.eq_false_iff]
    intro he
    rw [String.isEmpty_iff.1 he] at h
    cases h
  simp [checkAppName, hblank, h]

structure Indexed (s : Store) : Prop where
  app_id : ∀ k row, s.apps.get? k = some row → row.app.id = k
  valid : ∀ k row, s.apps.get? k = some row → AppName.isValid row.app.name = true
  index : ∀ n k, s.appNames.get? n = some k ↔ ∃ row, s.liveApp? k = some row ∧ row.app.name = n

theorem indexed_empty : Indexed {} := by
  constructor <;> simp [liveApp?]

theorem liveApp?_putApp (s : Store) (row : AppRow) (names : Dict String) (k : String) :
    ({ s.putApp row with appNames := names } : Store).liveApp? k =
      if row.app.id = k then (if row.isLive then some row else none) else s.liveApp? k := by
  simp only [liveApp?, putApp, Dict.get?_insert]
  split
  · rw [Option.filter_some]
  · rfl

/-! ## What a write does to the names -/

namespace Indexed
variable {s s' : Store} {row : AppRow}

private theorem live (hs : Indexed s) (h : ∃ k, s.liveApp? k = some row) :
    s.liveApp? row.app.id = some row ∧ AppName.isValid row.app.name = true := by
  obtain ⟨k, hk⟩ := h
  have hget := (liveApp?_eq_some.1 hk).1
  exact ⟨by rwa [hs.app_id k row hget], hs.valid k row hget⟩

/-- A row is put in its place, and the names change for it and for no other row. -/
private theorem putApp (hs : Indexed s) {names : Dict String}
    (hvalid : AppName.isValid row.app.name = true)
    (hnames : ∀ n k, names.get? n = some k ↔
      if row.app.id = k then row.isLive = true ∧ row.app.name = n else s.appNames.get? n = some k) :
    Indexed { s.putApp row with appNames := names } where
  app_id k r hk := by
    simp only [Store.putApp, Dict.get?_insert] at hk
    split at hk
    · next he => cases hk; exact he
    · exact hs.app_id k r hk
  valid k r hk := by
    simp only [Store.putApp, Dict.get?_insert] at hk
    split at hk
    · cases hk; exact hvalid
    · exact hs.valid k r hk
  index n k := by
    rw [hnames, liveApp?_putApp]
    split
    · by_cases hl : row.isLive = true <;> simp [hl]
    · exact hs.index n k

private theorem of_eq (hs : Indexed s) (happs : s'.apps = s.apps)
    (hnames : s'.appNames = s.appNames) : Indexed s' := by
  obtain ⟨hid, hvalid, hindex⟩ := hs
  refine ⟨by rwa [happs], by rwa [happs], ?_⟩
  simpa [liveApp?, happs, hnames] using hindex

end Indexed

theorem Effect.indexed {s s' : Store} {m : Moment} {r? : Option FormationRecord} (hs : Indexed s)
    (h : Effect s m s' r?) : Indexed s' := by
  cases h with
  | idle => exact hs
  | appCreated app hname hid hnew hfree =>
    have hnone : s.liveApp? app.id = none := by rw [liveApp?, hnew]; rfl
    refine hs.putApp hname fun n k => ?_
    rw [Dict.get?_insert]
    by_cases hk : app.id = k
    · subst hk
      have hother : s.appNames.get? n ≠ some app.id := by
        rw [Ne, hs.index, hnone]
        simp
      by_cases hn : app.name = n <;> simp [hn, hother, AppRow.isLive]
    · by_cases hn : app.name = n
      · subst hn
        simp [hk, hfree]
      · simp [hk, hn]
  | appChanged row row' hrow hid hname hlive =>
    obtain ⟨hget, hvalid⟩ := hs.live hrow
    have hlive' : row'.isLive = true := by
      rw [AppRow.isLive, hlive]
      exact (liveApp?_eq_some.1 hget).2
    refine hs.putApp (hname ▸ hvalid) fun n k => ?_
    split
    · next hk => simp [hs.index, ← hk, hid, hget, hname, hlive']
    · rfl
  | appDeleted row hrow =>
    obtain ⟨hget, hvalid⟩ := hs.live hrow
    have hname : s.appNames.get? row.app.name = some row.app.id := (hs.index _ _).2 ⟨row, hget, rfl⟩
    refine hs.putApp hvalid fun n k => ?_
    rw [Dict.get?_erase]
    by_cases hn : row.app.name = n
    · subst hn
      by_cases hk : row.app.id = k <;> simp [hk, hname, AppRow.isLive]
    · by_cases hk : row.app.id = k
      · subst hk
        have hother : s.appNames.get? n ≠ some row.app.id := by
          rw [Ne, hs.index, hget]
          simpa using hn
        simp [hn, hother]
      · simp [hn, hk]
  | _ => exact hs.of_eq rfl rfl

theorem indexed_performAll (ws : List (Moment × Write)) : Indexed (performAll {} ws) :=
  performAll_keeps (Q := fun _ => True) (fun hs _ h => h.indexed hs) indexed_empty fun _ _ =>
    trivial

/-- The first app is created as it is asked for, if its name is one. -/
theorem exists_first_app (m : Moment) {app : App} (hvalid : AppName.isValid app.name = true) :
    ∃ row, (performAll {} [(m, .createApp app)]).apps.get? row.app.id = some row ∧
      row.isLive = true ∧
      row.app.id = newId m app.id ∧ row.app.name = app.name := by
  let made : App :=
    { app with id := newId m app.id, createdAt := some m.now, updatedAt := some m.now }
  have hcreate : ({} : Store).createApp m app =
      .ok (made,
        { ({} : Store).putApp { app := made }
          with appNames := ({} : Dict String).insert made.name made.id }) := by
    rw [createApp, checkAppName_of_isValid hvalid]
    rfl
  refine ⟨{ app := made }, ?_, rfl, rfl, rfl⟩
  simp only [performAll, List.foldl_cons, List.foldl_nil, perform, hcreate, Except.toOption,
    Option.elim_some, putApp, Dict.get?_insert, if_true]

/-! ## Look-ups as scans -/

namespace Indexed
variable {s : Store} {row row' : AppRow} {text : String}

theorem mem_values (hs : Indexed s) : row ∈ s.apps.values ↔ s.apps.get? row.app.id = some row := by
  rw [Dict.mem_values_iff]
  constructor
  · rintro ⟨k, hk⟩
    rwa [hs.app_id k row hk]
  · exact fun h => ⟨_, h⟩

theorem eq_of_id (hs : Indexed s) (hrow : row ∈ s.apps.values) (hrow' : row' ∈ s.apps.values)
    (h : row.app.id = row'.app.id) : row = row' := by
  have hget := hs.mem_values.1 hrow
  rw [h, hs.mem_values.1 hrow'] at hget
  exact (Option.some.inj hget).symm

theorem liveApp?_eq_some_iff (hs : Indexed s) {k : String} :
    s.liveApp? k = some row ↔ row ∈ s.apps.values ∧ row.isLive = true ∧ row.app.id = k := by
  rw [liveApp?_eq_some, hs.mem_values]
  constructor
  · rintro ⟨hk, hl⟩
    have he := hs.app_id k row hk
    exact ⟨he ▸ hk, hl, he⟩
  · rintro ⟨hk, hl, rfl⟩
    exact ⟨hk, hl⟩

theorem appNames_eq_some_iff (hs : Indexed s) {n k : String} :
    s.appNames.get? n = some k ↔
      ∃ row ∈ s.apps.values, row.isLive = true ∧ row.app.id = k ∧ row.app.name = n := by
  simp only [hs.index, hs.liveApp?_eq_some_iff, and_assoc]

theorem name_inj (hs : Indexed s) (hrow : row ∈ s.apps.values) (hrow' : row' ∈ s.apps.values)
    (hl : row.isLive = true) (hl' : row'.isLive = true) (h : row.app.name = row'.app.name) :
    row = row' := by
  have hname := hs.appNames_eq_some_iff.2 ⟨row, hrow, hl, rfl, rfl⟩
  have hname' := hs.appNames_eq_some_iff.2 ⟨row', hrow', hl', rfl, h.symm⟩
  exact hs.eq_of_id hrow hrow' (Option.some.inj (hname.symm.trans hname'))

theorem name_valid (hs : Indexed s) {n k : String} (h : s.appNames.get? n = some k) :
    AppName.isValid n = true := by
  obtain ⟨row, hrow, -, -, rfl⟩ := hs.appNames_eq_some_iff.1 h
  exact hs.valid _ row (hs.mem_values.1 hrow)

/-- A text that is an identifier is nobody's name, so that only one of the two
tables can answer it. -/
theorem findApp?_eq_some_iff (hs : Indexed s) :
    s.findApp? text = some row ↔ row ∈ s.apps.values ∧ row.answers text = true := by
  by_cases hid : Identifier.isId text = true
  · have hother : ∀ r ∈ s.apps.values, r.app.name ≠ text := by
      rintro r hr rfl
      rw [AppName.not_isId (hs.valid _ r (hs.mem_values.1 hr))] at hid
      cases hid
    rw [findApp?_of_isId (fun _ _ => hs.name_valid) hid, hs.liveApp?_eq_some_iff]
    refine and_congr_right fun hr => ?_
    simp [AppRow.answers, hid, hother row hr]
  · have hfind : s.findApp? text = (s.appNames.get? text).bind s.liveApp? := by
      rw [findApp?, if_neg hid]
      rfl
    rw [hfind, Option.bind_eq_some_iff]
    constructor
    · rintro ⟨k, hk, hl⟩
      obtain ⟨r, hr, hrl, rfl, rfl⟩ := hs.appNames_eq_some_iff.1 hk
      rw [hs.liveApp?_eq_some_iff.2 ⟨hr, hrl, rfl⟩] at hl
      cases hl
      exact ⟨hr, by simp [AppRow.answers, hrl]⟩
    · rintro ⟨hr, ha⟩
      obtain ⟨hrl, hn⟩ : row.isLive = true ∧ row.app.name = text := by
        simpa [AppRow.answers, hid] using ha
      exact ⟨row.app.id, hs.appNames_eq_some_iff.2 ⟨row, hr, hrl, rfl, hn⟩,
        hs.liveApp?_eq_some_iff.2 ⟨hr, hrl, rfl⟩⟩

/-- No text that finds an app is blank. -/
theorem ne_blank (hs : Indexed s) {text : String} (h : s.findApp? text = some row) : text ≠ "" := by
  rintro rfl
  obtain ⟨hrow, ha⟩ := hs.findApp?_eq_some_iff.1 h
  have hname : row.app.name = "" := by
    have hblank : Identifier.isId "" = false := by decide
    simpa [AppRow.answers, hblank] using (Bool.and_eq_true_iff.1 ha).2
  have hvalid := hs.valid _ row (hs.mem_values.1 hrow)
  rw [hname] at hvalid
  cases hvalid

theorem pairwise_ids (hs : Indexed s) : s.apps.values.Pairwise (fun r r' => r.app.id ≠ r'.app.id) :=
  Dict.pairwise_values_ne hs.app_id

/-- A look-up finds what a scan of all rows finds, and no scan finds more than one row. -/
theorem filter_answers (hs : Indexed s) (text : String) :
    s.apps.values.filter (·.answers text) = (s.findApp? text).toList := by
  cases h : s.findApp? text with
  | none =>
    rw [Option.toList_none, List.filter_eq_nil_iff]
    intro row hr ha
    rw [hs.findApp?_eq_some_iff.2 ⟨hr, ha⟩] at h
    cases h
  | some row =>
    have hsame : ∀ r ∈ s.apps.values, r.answers text = (r == row) := by
      intro r hr
      have hfound : s.findApp? text = some r ↔ r.answers text = true := by
        rw [hs.findApp?_eq_some_iff, and_iff_right hr]
      rw [Bool.eq_iff_iff, ← hfound, h, beq_iff_eq, Option.some_inj, eq_comm]
    have hnodup : s.apps.values.Nodup := hs.pairwise_ids.imp fun hne he =>
      hne (congrArg (·.app.id) he)
    have hone : s.apps.values.count row = 1 :=
      List.count_eq_one_of_mem hnodup (hs.findApp?_eq_some_iff.1 h).1
    rw [List.filter_congr hsame, List.filter_beq, hone]
    rfl

theorem count_listApps (hs : Indexed s) (app : App) :
    s.listApps.count app = if ∃ row ∈ s.apps.values, row.isLive = true ∧
      row.app = app then 1 else 0 := by
  have happs : (s.apps.values.filter (·.isLive)).Pairwise (fun r r' => r.app ≠ r'.app) :=
    (hs.pairwise_ids.imp fun hne he => hne (congrArg (·.id) he)).filter _
  have hnodup : ((s.apps.values.filter (·.isLive)).map (·.app)).Nodup := List.pairwise_map.2 happs
  rw [listApps, (List.mergeSort_perm _ _).count_eq, hnodup.count]
  simp [and_assoc]

/-- The two conflicts of a new app differ in their last words. -/
private theorem exists_ne_taken (id name : String) :
    "app " ++ id ++ " already exists" ≠ "app name " ++ name ++ " is taken" := by
  intro h
  have hlast := congrArg (fun s => s.toList.reverse.head?) h
  simp at hlast

theorem createApp_taken_iff (hs : Indexed s) (m : Moment) {app : App}
    (hvalid : AppName.isValid app.name = true) :
    s.createApp m app = .error (.conflict ("app name " ++ app.name ++ " is taken")) ↔
      ∃ row ∈ s.apps.values, row.isLive = true ∧ row.app.name = app.name := by
  have hcheck := checkAppName_of_isValid hvalid
  have htaken : s.appNames.contains app.name = true ↔
      ∃ row ∈ s.apps.values, row.isLive = true ∧ row.app.name = app.name := by
    rw [Dict.contains_iff]
    constructor
    · rintro ⟨k, hk⟩
      obtain ⟨row, hr, hl, -, hn⟩ := hs.appNames_eq_some_iff.1 hk
      exact ⟨row, hr, hl, hn⟩
    · rintro ⟨row, hr, hl, hn⟩
      exact ⟨row.app.id, hs.appNames_eq_some_iff.2 ⟨row, hr, hl, rfl, hn⟩⟩
  rw [← htaken, createApp, hcheck]
  change (if s.appNames.contains app.name = true then _ else _) = _ ↔ _
  split
  · next h => simp [h]
  · next h =>
    rw [iff_false_right h]
    split
    · simpa using exists_ne_taken _ _
    · simp

end Indexed

/-- After any run of writes the names are those of the live apps, each leading to its app; so
no two live apps share a name, a new app finds its name taken if and only if a live app has
it, the list of apps has each live app once, and a look-up finds the one row, if any, that a
scan for the text finds. -/
theorem names_exact (ws : List (Moment × Write)) :
    let s := performAll {} ws
    (∀ n k, s.appNames.get? n = some k ↔
      ∃ row, s.apps.get? k = some row ∧ row.isLive = true ∧ row.app.id = k ∧ row.app.name = n) ∧
    (∀ row ∈ s.apps.values, ∀ row' ∈ s.apps.values, row.isLive = true → row'.isLive = true →
      row.app.name = row'.app.name → row = row') ∧
    (∀ m app, AppName.isValid app.name = true →
      (s.createApp m app = .error (.conflict ("app name " ++ app.name ++ " is taken")) ↔
        ∃ row ∈ s.apps.values, row.isLive = true ∧ row.app.name = app.name)) ∧
    (∀ app, s.listApps.count app = if ∃ row ∈ s.apps.values, row.isLive = true ∧
      row.app = app then 1 else 0) ∧
    ∀ text, s.apps.values.filter (·.answers text) = (s.findApp? text).toList := by
  intro s
  have hs : Indexed s := indexed_performAll ws
  refine ⟨fun n k => ?_, fun row hr row' hr' hl hl' h => hs.name_inj hr hr' hl hl' h,
    fun m app hvalid => hs.createApp_taken_iff m hvalid, hs.count_listApps, hs.filter_answers⟩
  rw [hs.index]
  constructor
  · rintro ⟨row, hk, hn⟩
    obtain ⟨hget, hl⟩ := liveApp?_eq_some.1 hk
    exact ⟨row, hget, hl, hs.app_id k row hget, hn⟩
  · rintro ⟨row, hget, hl, -, hn⟩
    exact ⟨row, liveApp?_eq_some.2 ⟨hget, hl⟩, hn⟩

/-- A name that was given up goes to the next app that asks for it, and to no third one. -/
theorem names_exact_of_reuse :
    let m : Moment := ⟨.epoch, ""⟩
    let s := performAll {} [(m, .createApp { id := "first", name := "shop" }),
      (m, .deleteApp "shop"), (m, .createApp { id := "second", name := "shop" })]
    AppName.isValid "shop" = true ∧ s.appNames.get? "shop" = some "second" ∧
      s.createApp m { id := "third", name := "shop" } =
        .error (.conflict ("app name " ++ "shop" ++ " is taken")) ∧
      (s.apps.values.filter (·.answers "shop")).map (·.app.id) = ["second"] := by
  intro m s
  obtain ⟨hindex, -, htaken, -, hscan⟩ := names_exact
    [(m, .createApp { id := "first", name := "shop" }),
    (m, .deleteApp "shop"), (m, .createApp { id := "second", name := "shop" })]
  have hvalid : AppName.isValid "shop" = true := by decide +kernel
  have hfind : (s.findApp? "shop").toList.map (·.app.id) = ["second"] := by decide +kernel
  have hrow : ∃ row ∈ s.apps.values, row.isLive = true ∧ row.app.name = "shop" := by decide +kernel
  refine ⟨hvalid, (hindex _ _).2 ?_, (htaken m _ hvalid).2 hrow, ?_⟩
  · exact ⟨{ app :=
      { id := "second", name := "shop", createdAt := some .epoch, updatedAt := some .epoch } },
      by decide +kernel⟩
  · rw [hscan]
    exact hfind

end Store
end ControlPlane
