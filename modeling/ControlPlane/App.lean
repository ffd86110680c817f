import ControlPlane.Json.Record

/-! # Apps -/
namespace ControlPlane
open Json

structure App where
  id : String := ""
  name : String
  isProtected : Bool := false
  createdAt : Option Instant := none
  updatedAt : Option Instant := none
  deriving DecidableEq, Inhabited

def App.record : Record App where
  fields := [
    .defaulting "id" App.id .string "",
    .required "name" App.name .string,
    .defaulting "protected" App.isProtected .bool false,
    .optional "created_at" App.createdAt .instant,
    .optional "updated_at" App.updatedAt .instant]
  build := fun (id, name, isProtected, createdAt, updatedAt, ()) =>
    ⟨id, name, isProtected, createdAt, updatedAt⟩

def App.codec : Codec App := App.record.codec

/-- An app with its current release and, once deleted, the time of its deletion. -/
structure AppRow where
  app : App
  release : Option String := none
  deletedAt : Option Instant := none
  deriving DecidableEq, Inhabited

namespace AppRow

def isLive (row : AppRow) : Bool := row.deletedAt.isNone

def record : Record AppRow where
  fields := [
    .required "app" AppRow.app App.codec,
    .defaulting "release_id" AppRow.release Codec.string.option none,
    .defaulting "deleted_at" AppRow.deletedAt Codec.instant.option none]
  build := fun (app, release, deletedAt, ()) => ⟨app, release, deletedAt⟩

def codec : Codec AppRow := record.codec

end AppRow
end ControlPlane
