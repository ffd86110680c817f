import ControlPlane.Proofs.Store.Names

/-! # All spellings of an identifier are one identifier

An identifier of an app is looked up in its clean form, and since no name is an identifier it never
leads to an app by a name, not even once its own app is gone. Releases and artifacts are written and
looked up under their clean forms. So an operation of the store that is given other spellings has
the same result and leaves the same store.
-/
namespace ControlPlane.Store
open Json

/-- The texts by which an operation names an app, a release and an artifact. -/
structure Spellings where
  app : String
  release : String
  artifact : String

/-- Two texts that are not empty and have one clean form. -/
structure Respelled (text text' : String) : Prop where
  nonempty : text ≠ ""
  nonempty' : text' ≠ ""
  clean : Identifier.clean text = Identifier.clean text'

instance (text text' : String) : Decidable (Respelled text text') :=
  decidable_of_iff (text ≠ "" ∧ text' ≠ "" ∧ Identifier.clean text = Identifier.clean text')
    ⟨fun h => ⟨h.1, h.2.1, h.2.2⟩, fun h => ⟨h.nonempty, h.nonempty', h.clean⟩⟩

/-- Spellings of the same identifiers, that of the app with the form of an identifier. -/
structure Spellings.Alike (x y : Spellings) : Prop where
  isId : Identifier.isId x.app = true
  isId' : Identifier.isId y.app = true
  app : Identifier.clean x.app = Identifier.clean y.app
  release : Respelled x.release y.release
  artifact : Respelled x.artifact y.artifact

/-- What a store can be asked to do. The identifiers of a record that is written are
given beside the record. -/
inductive Operation
  | createApp (app : App)
  | getApp
  | listApps
  | updateApp (patch : Dict Value)
  | deleteApp
  | setAppRelease
  | getAppRelease
  | createArtifact (artifact : Artifact)
  | getArtifact
  | createRelease (release : Release)
  | getRelease
  | putFormation (formation : Formation)
  | getFormation
  | listFormations
  | deleteFormation
  | changesSince (since : Instant)

abbrev Operation.Result : Operation → Type
  | createApp _ | updateApp _ => App
  | getApp => Option App
  | listApps => List App
  | deleteApp => Bool
  | setAppRelease => Unit
  | getAppRelease | getRelease => Option Release
  | createArtifact _ => Artifact
  | getArtifact => Option Artifact
  | createRelease _ => Release
  | putFormation _ => FormationRecord
  | getFormation => Option Formation
  | listFormations => List Formation
  | deleteFormation => Option FormationRecord
  | changesSince _ => List FormationRecord

/-- The result of a write, and the store after it: the store as it was, if the write fails. -/
def settle {α : Type} (s : Store) : Except StoreError (α × Store) → Except StoreError α × Store
  | .ok (a, s') => (.ok a, s')
  | .error e => (.error e, s)

/-- What an operation results in, and the store after it. -/
def operate (s : Store) (m : Moment) (x : Spellings) :
    (operation : Operation) → Except StoreError operation.Result × Store
  | .createApp app => s.settle (s.createApp m { app with id := x.app })
  | .getApp => (.ok (s.getApp? x.app), s)
  | .listApps => (.ok s.listApps, s)
  | .updateApp patch => s.settle (s.updateApp m x.app patch)
  | .deleteApp => s.settle (.ok (s.deleteApp m x.app))
  | .setAppRelease => s.settle ((s.setAppRelease m x.app x.release).map ((), ·))
  | .getAppRelease => (s.getAppRelease x.app, s)
  | .createArtifact artifact => s.settle (s.createArtifact m { artifact with id := x.artifact })
  | .getArtifact => (.ok (s.getArtifact? x.artifact), s)
  | .createRelease release =>
    s.settle (s.createRelease m { release with id := x.release, artifact := x.artifact })
  | .getRelease => (.ok (s.getRelease? x.release), s)
  | .putFormation formation =>
    s.settle (s.putFormation m { formation with app := x.app, release := x.release })
  | .getFormation => (.ok (s.getFormation? x.app x.release), s)
  | .listFormations => (s.listFormations x.app, s)
  | .deleteFormation => s.settle (s.deleteFormation m x.app x.release)
  | .changesSince since => (.ok (s.formationChangesSince since), s)

/-- Two results are the same, or both say that there is no app, each by the
text it was asked for. -/
inductive Agree {α : Type} (text text' : String) : Except StoreError α → Except StoreError α → Prop
  | same (result : Except StoreError α) : Agree text text' result result
  | notFound :
      Agree text text' (.error (.notFound ("app " ++ text))) (.error (.notFound ("app " ++ text')))

/-! ## One operation in two spellings -/

section Spelled
variable {s : Store} {m : Moment} {text text' : String} {x y : Spellings} {α β : Type}

theorem Agree.map {result result' : Except StoreError α} (f : α → β)
    (h : Agree text text' result result') :
    Agree text text' (result.map f) (result'.map f) := by
  cases h with
  | same => exact .same _
  | notFound => exact .notFound

/-- What is done with the app that either text finds is the same; and if neither finds
one, each result says so. -/
theorem agree_bind (h : s.findApp? text = s.findApp? text') (f : AppRow → Except StoreError α) :
    Agree text text' (s.findApp text >>= f) (s.findApp text' >>= f) := by
  unfold findApp
  rw [h]
  cases s.findApp? text' with
  | none => exact .notFound
  | some row => exact .same _

/-- Results of writes that agree leave the same store. -/
theorem Agree.settle {result result' : Except StoreError (α × Store)}
    (h : Agree text text' result result') :
    Agree text text' (s.settle result).1 (s.settle result').1 ∧
    (s.settle result).2 = (s.settle result').2 := by
  cases h with
  | same => exact ⟨.same _, rfl⟩
  | notFound => exact ⟨.notFound, rfl⟩

namespace Respelled

theorem newId (h : Respelled text text') : Store.newId m text = Store.newId m text' := by
  rw [Store.newId, Store.newId, if_neg (by simpa using h.nonempty),
    if_neg (by simpa using h.nonempty'), h.clean]

theorem createApp (h : Respelled text text') (app : App) :
    s.createApp m { app with id := text } = s.createApp m { app with id := text' } := by
  simp only [Store.createApp, h.newId]

theorem createArtifact (h : Respelled text text') (artifact : Artifact) :
    s.createArtifact m { artifact with id := text } =
      s.createArtifact m { artifact with id := text' } := by
  simp only [Store.createArtifact, h.newId]

/-- The artifact of a release may be spelled in another way, too. -/
theorem createRelease {of of' : String} (h : Respelled text text') (hof : Respelled of of')
    (release : Release) :
    s.createRelease m { release with id := text, artifact := of } =
      s.createRelease m { release with id := text', artifact := of' } := by
  have hblank : of.isEmpty = false := by simpa using hof.nonempty
  have hblank' : of'.isEmpty = false := by simpa using hof.nonempty'
  simp only [Store.createRelease, h.newId, hof.clean, hblank, hblank']

end Respelled

namespace Spellings.Alike

theorem findApp? (hs : Indexed s) (h : x.Alike y) : s.findApp? x.app = s.findApp? y.app := by
  rw [findApp?_of_isId (fun _ _ => hs.name_valid) h.isId,
    findApp?_of_isId (fun _ _ => hs.name_valid) h.isId', h.app]

/-- The identifier of an app is not empty, so a new app gets the same one. -/
theorem respelled (h : x.Alike y) : Respelled x.app y.app := by
  have hblank : Identifier.isId "" = false := by decide
  refine ⟨fun he => ?_, fun he => ?_, h.app⟩
  · exact absurd h.isId (by simp [he, hblank])
  · exact absurd h.isId' (by simp [he, hblank])

theorem putFormation (hs : Indexed s) (h : x.Alike y) (formation : Formation) :
    Agree x.app y.app (s.putFormation m { formation with app := x.app, release := x.release })
      (s.putFormation m { formation with app := y.app, release := y.release }) := by
  have happ : (x.app.isEmpty || x.release.isEmpty) = false := by
    simp [h.respelled.nonempty, h.release.nonempty]
  have happ' : (y.app.isEmpty || y.release.isEmpty) = false := by
    simp [h.respelled.nonempty', h.release.nonempty']
  simp only [Store.putFormation, happ, happ', h.release.clean]
  exact agree_bind (h.findApp? hs) _

/-- An operation in two spellings has one result and leaves one store. -/
theorem operate (hs : Indexed s) (h : x.Alike y) (operation : Operation) :
    Agree x.app y.app (s.operate m x operation).1 (s.operate m y operation).1 ∧
      (s.operate m x operation).2 = (s.operate m y operation).2 := by
  have hfind := h.findApp? hs
  cases operation with
  | createApp app =>
    rw [Store.operate, Store.operate, h.respelled.createApp]
    exact ⟨.same _, rfl⟩
  | getApp =>
    rw [Store.operate, Store.operate, getApp?, getApp?, hfind]
    exact ⟨.same _, rfl⟩
  | listApps | changesSince since => exact ⟨.same _, rfl⟩
  | updateApp patch => exact (agree_bind hfind _).settle
  | deleteApp =>
    rw [Store.operate, Store.operate, deleteApp, deleteApp, hfind]
    exact ⟨.same _, rfl⟩
  | setAppRelease =>
    rw [Store.operate, Store.operate, setAppRelease, setAppRelease, h.release.clean]
    exact ((agree_bind hfind _).map _).settle
  | getAppRelease => exact ⟨agree_bind hfind _, rfl⟩
  | createArtifact artifact =>
    rw [Store.operate, Store.operate, h.artifact.createArtifact]
    exact ⟨.same _, rfl⟩
  | getArtifact =>
    rw [Store.operate, Store.operate, getArtifact?, getArtifact?, h.artifact.clean]
    exact ⟨.same _, rfl⟩
  | createRelease release =>
    rw [Store.operate, Store.operate, h.release.createRelease h.artifact]
    exact ⟨.same _, rfl⟩
  | getRelease =>
    rw [Store.operate, Store.operate, getRelease?, getRelease?, h.release.clean]
    exact ⟨.same _, rfl⟩
  | putFormation formation => exact (h.putFormation hs formation).settle
  | getFormation =>
    rw [Store.operate, Store.operate, getFormation?, getFormation?, hfind, h.release.clean]
    exact ⟨.same _, rfl⟩
  | listFormations => exact ⟨agree_bind hfind _, rfl⟩
  | deleteFormation =>
    rw [Store.operate, Store.operate, deleteFormation, deleteFormation, h.release.clean]
    exact (agree_bind hfind _).settle

end Spellings.Alike
end Spelled

/-- After any run of writes, every operation that is given the identifier of an app, and a release
and an artifact, in other spellings has the same result, up to the text in a message that there is
no such app, and leaves the same store. The clean form of an identifier is thirty-two hexadecimal
digits, an identifier itself, and its own clean form. -/
theorem spellings_agree (ws : List (Moment × Write)) {x y : Spellings} (h : x.Alike y) :
    (∀ m operation, Agree x.app y.app ((performAll {} ws).operate m x operation).1
        ((performAll {} ws).operate m y operation).1 ∧
      ((performAll {} ws).operate m x operation).2 = ((performAll {} ws).operate m y operation).2) ∧
    ∀ text, Identifier.isId text = true →
      (Identifier.clean text).toList.length = 32 ∧
      (∀ c ∈ (Identifier.clean text).toList, Identifier.isHexDigit c = true) ∧
      Identifier.isId (Identifier.clean text) = true ∧
      Identifier.clean (Identifier.clean text) = Identifier.clean text := by
  refine ⟨fun m operation => h.operate (indexed_performAll ws) operation, fun text hid => ?_⟩
  have hclean := Identifier.isId_clean hid
  exact ⟨Identifier.length_of_isId_clean hclean (Identifier.clean_clean text),
    fun c hc => Identifier.isHexDigit_of_mem_clean hid hc, hclean, Identifier.clean_clean text⟩

/-- An app with a formation, and another app that is gone. -/
def sampleWrites : List (Moment × Write) :=
  let m : Moment := ⟨.epoch, ""⟩
  [(m, .createArtifact { id := "a-1", kind := "docker", uri := "registry/web" }),
    (m, .createRelease { id := "r-1", artifact := "a1" }),
    (m, .createApp { id := "0fb6a6f4-3b5e-4c4b-9a4e-0d2b1f6c7e8a", name := "web" }),
    (m, .createApp { id := "00000000000000000000000000000000", name := "gone" }),
    (m, .putFormation { app := "web", release := "r-1" }),
    (m, .deleteApp "gone")]

/-- A formation is deleted whichever way its app and its release are spelled; and an app that is
gone is found in no spelling, each of which shows in its message. -/
theorem spellings_agree_of_dashes :
    let s := performAll {} sampleWrites
    let m : Moment := ⟨.epoch, ""⟩
    let x : Spellings := ⟨"0fb6a6f4-3b5e-4c4b-9a4e-0d2b1f6c7e8a", "r-1", "a-1"⟩
    let y : Spellings := ⟨"0fb6a6f43b5e4c4b9a4e0d2b1f6c7e8a", "r1-", "a1"⟩
    let gone : Spellings := ⟨"00000000-000000000000000000000000", "r1", "a1"⟩
    let gone' : Spellings := ⟨"00000000000000000000-000000000000", "r1", "a1"⟩
    (x.Alike y ∧ (s.operate m x .deleteFormation).1.toOption.map (·.isSome) = some true ∧
      Agree x.app y.app (s.operate m x .deleteFormation).1 (s.operate m y .deleteFormation).1 ∧
      (s.operate m x .deleteFormation).2 = (s.operate m y .deleteFormation).2) ∧
    gone.Alike gone' ∧ (s.operate m gone .getAppRelease).1 =
      .error (.notFound ("app " ++ "00000000-000000000000000000000000")) ∧
      Agree gone.app gone'.app (s.operate m gone .getAppRelease).1
        (s.operate m gone' .getAppRelease).1 := by
  intro s m x y gone gone'
  have hxy : x.Alike y := by constructor <;> decide +kernel
  have hgone : gone.Alike gone' := by constructor <;> decide +kernel
  have hdeletes := (spellings_agree sampleWrites hxy).1 m .deleteFormation
  exact ⟨⟨hxy, by decide +kernel, hdeletes⟩, hgone, by decide +kernel,
    ((spellings_agree sampleWrites hgone).1 m .getAppRelease).1⟩

end ControlPlane.Store
