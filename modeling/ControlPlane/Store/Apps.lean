import ControlPlane.Store.Basic

/-! # Apps in the store -/
namespace ControlPlane.Store
open Json

def checkAppName (name : String) : Except StoreError Unit :=
  if name.isEmpty then .error (.invalid "app name must not be blank")
  else if AppName.isValid name then .ok ()
  else .error (.invalid "invalid app name")

/-- A live app's name is taken, and so is the identifier of any app, deleted or not. -/
def createApp (s : Store) (m : Moment) (app : App) : Except StoreError (App × Store) := do
  checkAppName app.name
  let app := { app with id := newId m app.id, createdAt := some m.now, updatedAt := some m.now }
  if s.appNames.contains app.name then .error (.conflict ("app name " ++ app.name ++ " is taken"))
  else if s.apps.contains app.id then .error (.conflict ("app " ++ app.id ++ " already exists"))
  else .ok (app, { s.putApp { app } with appNames := s.appNames.insert app.name app.id })

def getApp? (s : Store) (idOrName : String) : Option App := (s.findApp? idOrName).map (·.app)

/-- Whether `a` was created no earlier than `b`. -/
def isNoOlder (a b : App) : Bool :=
  match a.createdAt, b.createdAt with
  | some x, some y => y ≤ x
  | none, some _ => false
  | _, none => true

/-- The live apps, the newest first. -/
def listApps (s : Store) : List App :=
  ((s.apps.values.filter (·.isLive)).map (·.app)).mergeSort isNoOlder

/-- The fields of an app that may be changed: `protected`. All others are passed over. -/
def updateApp (s : Store) (m : Moment) (idOrName : String) (patch : Dict Value) :
    Except StoreError (App × Store) := do
  let row ← s.findApp idOrName
  match patch.get? "protected" with
  | none => .ok (row.app, s)
  | some (.bool isProtected) =>
    if row.app.isProtected = isProtected then .ok (row.app, s)
    else
      let app := { row.app with isProtected, updatedAt := some m.now }
      .ok (app, s.putApp { row with app })
  | some other => .error (.typeMismatch "protected" "bool" other.kind)

/-- Whether there was a live app to delete. Its name is free from then on. -/
def deleteApp (s : Store) (m : Moment) (idOrName : String) : Bool × Store :=
  match s.findApp? idOrName with
  | none => (false, s)
  | some row =>
    (true,
      { s.putApp { row with deletedAt := some m.now }
        with appNames := s.appNames.erase row.app.name })

def setAppRelease (s : Store) (m : Moment) (idOrName release : String) :
    Except StoreError Store := do
  let row ← s.findApp idOrName
  let release := Identifier.clean release
  if s.releases.contains release then
    .ok (s.putApp { row with
      release := some release
      app := { row.app with updatedAt := some m.now } })
  else .error (.notFound ("release " ++ release))

/-- The release an app is set to, if any. -/
def getAppRelease (s : Store) (idOrName : String) : Except StoreError (Option Release) := do
  let row ← s.findApp idOrName
  return row.release.bind s.releases.get?

end ControlPlane.Store
