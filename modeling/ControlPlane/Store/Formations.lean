import ControlPlane.Store.Basic

/-! # Formations in the store

Every commit of a formation, a deletion as much as a write, takes the next version. A formation that
is written again keeps the time of its creation, unless it was deleted in between.
-/
namespace ControlPlane.Store

def formation? (s : Store) (key : String) : Option FormationRecord :=
  (s.formations.get? key).filter (!·.isDeleted)

/-- Commits what `build` makes of the next version. -/
def commit (s : Store) (key : String) (build : UInt64 → FormationRecord) :
    FormationRecord × Store :=
  let record := build (s.formationVersion + 1)
  (record, { s with
    formations := s.formations.insert key record, formationVersion := s.formationVersion + 1 })

/-- The app may be given by its name; the record names it by its identifier. -/
def putFormation (s : Store) (m : Moment) (formation : Formation) :
    Except StoreError (FormationRecord × Store) := do
  if formation.app.isEmpty || formation.release.isEmpty then
    throw (.invalid "missing app id and/or release id")
  let app := (← s.findApp formation.app).app.id
  let release := Identifier.clean formation.release
  if !s.releases.contains release then throw (.notFound ("release " ++ release))
  let key := Formation.keyOf app release
  let createdAt := ((s.formation? key).bind (·.formation.createdAt)).getD m.now
  return s.commit key fun version =>
    { formation := { formation with
        app, release, createdAt := some createdAt, updatedAt := some m.now }
      version }

def getFormation? (s : Store) (app release : String) : Option Formation := do
  let row ← s.findApp? app
  let record ← s.formation? (Formation.keyOf row.app.id (Identifier.clean release))
  return record.formation

/-- The live formations of an app, in order of their keys. -/
def listFormations (s : Store) (app : String) : Except StoreError (List Formation) := do
  let row ← s.findApp app
  let front := (Formation.keyOf row.app.id "").toList
  let ofApp := s.formations.filter fun key record =>
    front.isPrefixOf key.toList && !record.isDeleted
  return ofApp.values.map (·.formation)

/-- The record of the deletion, or nothing where no live formation is. -/
def deleteFormation (s : Store) (m : Moment) (app release : String) :
    Except StoreError (Option FormationRecord × Store) := do
  let row ← s.findApp app
  let key := Formation.keyOf row.app.id (Identifier.clean release)
  match s.formation? key with
  | none => return (none, s)
  | some record =>
    let (record, s) := s.commit key fun version => { record with version, deletedAt := some m.now }
    return (some record, s)

/-- The records, live or deleted, that changed at or after `since`, in the
order of their commits. -/
def formationChangesSince (s : Store) (since : Instant) : List FormationRecord :=
  (s.formations.values.filter fun record => record.changedAt.any (since ≤ ·)).mergeSort
    fun a b => a.version ≤ b.version

end ControlPlane.Store
