import ControlPlane.App
import ControlPlane.Release

/-! # Formations: how many processes of each type a release of an app should run -/
namespace ControlPlane
open Json

structure Formation where
  app : String := ""
  release : String := ""
  processes : Dict Int32 := {}
  createdAt : Option Instant := none
  updatedAt : Option Instant := none
  deriving DecidableEq, Inhabited

namespace Formation

/-- The key of the formation of a release of an app. -/
def keyOf (app release : String) : String := app ++ "/" ++ release

def key (f : Formation) : String := keyOf f.app f.release

def record : Record Formation where
  fields := [
    .defaulting "app" Formation.app .string "",
    .defaulting "release" Formation.release .string "",
    .defaulting "processes" Formation.processes Codec.int32.dict {},
    .optional "created_at" Formation.createdAt .instant,
    .optional "updated_at" Formation.updatedAt .instant]
  build := fun (app, release, processes, createdAt, updatedAt, ()) =>
    ⟨app, release, processes, createdAt, updatedAt⟩

def codec : Codec Formation := record.codec

end Formation

/-- A formation as committed, live or deleted. Versions count the commits of all formations. -/
structure FormationRecord where
  formation : Formation
  version : UInt64
  deletedAt : Option Instant := none
  deriving DecidableEq, Inhabited

namespace FormationRecord

def isDeleted (r : FormationRecord) : Bool := r.deletedAt.isSome

def key (r : FormationRecord) : String := r.formation.key

/-- When the record last changed: the time of its deletion, if it was deleted. -/
def changedAt (r : FormationRecord) : Option Instant := r.deletedAt <|> r.formation.updatedAt

def record : Record FormationRecord where
  fields := [
    .required "formation" FormationRecord.formation Formation.codec,
    .required "version" FormationRecord.version .uint64,
    .defaulting "deleted_at" FormationRecord.deletedAt Codec.instant.option none]
  build := fun (formation, version, deletedAt, ()) => ⟨formation, version, deletedAt⟩

def codec : Codec FormationRecord := record.codec

end FormationRecord

/-- A formation joined with its app, release and artifact; without processes it is a deletion. -/
structure ExpandedFormation where
  app : App
  release : Release
  artifact : Artifact
  processes : Option (Dict Int32)
  updatedAt : Instant
  deriving DecidableEq, Inhabited

namespace ExpandedFormation

def isDeletion (f : ExpandedFormation) : Bool := f.processes.isNone

def key (f : ExpandedFormation) : String := Formation.keyOf f.app.id f.release.id

def record : Record ExpandedFormation where
  fields := [
    .required "app" ExpandedFormation.app App.codec,
    .required "release" ExpandedFormation.release Release.codec,
    .required "artifact" ExpandedFormation.artifact Artifact.codec,
    .optional "processes" ExpandedFormation.processes Codec.int32.dict,
    .required "updated_at" ExpandedFormation.updatedAt .instant]
  build := fun (app, release, artifact, processes, updatedAt, ()) =>
    ⟨app, release, artifact, processes, updatedAt⟩

def codec : Codec ExpandedFormation := record.codec

end ExpandedFormation
end ControlPlane
