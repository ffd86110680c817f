import ControlPlane.Formation
import ControlPlane.Identifier

/-! # The store: tables of records, and how an app is found

Every record stands under its own identifier, a formation under the key of its app and release. A
deleted app keeps its row and gives up its name; a deleted formation keeps its record. An operation
either fails and leaves the tables as they are, or answers with the tables it leaves.
-/
namespace ControlPlane

inductive StoreError
  | opening (reason : String)
  | transaction (reason : String)
  | table (reason : String)
  | reading (reason : String)
  | writing (reason : String)
  | encoding (reason : String)
  | decoding (reason : String)
  | notFound (record : String)
  | invalid (reason : String)
  | conflict (reason : String)
  | typeMismatch (field expected found : String)
  deriving DecidableEq, Repr

namespace StoreError

def message : StoreError → String
  | opening reason => "failed to open database: " ++ reason
  | transaction reason => "transaction error: " ++ reason
  | table reason => "table error: " ++ reason
  | reading reason => "read error: " ++ reason
  | writing reason => "write error: " ++ reason
  | encoding reason => "serialization error: " ++ reason
  | decoding reason => "deserialization error: " ++ reason
  | notFound record => "not found: " ++ record
  | invalid reason => reason
  | conflict reason => "conflict: " ++ reason
  | typeMismatch field expected found =>
    "expected " ++ expected ++ " for " ++ field ++ ", got " ++ found

end StoreError

/-- The time of an operation, and the identifier of a record that it creates without one. -/
structure Moment where
  now : Instant
  id : String
  deriving DecidableEq, Inhabited

structure Store where
  apps : Dict AppRow := {}
  /-- The identifiers of the live apps by name. -/
  appNames : Dict String := {}
  releases : Dict Release := {}
  artifacts : Dict Artifact := {}
  formations : Dict FormationRecord := {}
  /-- The version of the last commit of a formation. -/
  formationVersion : UInt64 := 0
  deriving DecidableEq, Inhabited

namespace Store

def liveApp? (s : Store) (id : String) : Option AppRow := (s.apps.get? id).filter (·.isLive)

/-- The live app of an identifier, in any spelling, or else of a name. -/
def findApp? (s : Store) (idOrName : String) : Option AppRow :=
  (if Identifier.isId idOrName then s.liveApp? (Identifier.clean idOrName) else none) <|>
    (s.appNames.get? idOrName).bind s.liveApp?

def findApp (s : Store) (idOrName : String) : Except StoreError AppRow :=
  match s.findApp? idOrName with
  | some row => .ok row
  | none => .error (.notFound ("app " ++ idOrName))

def putApp (s : Store) (row : AppRow) : Store := { s with apps := s.apps.insert row.app.id row }

/-- The identifier of a new record: the one it brings, cleaned, or a fresh one. -/
def newId (m : Moment) (id : String) : String := if id.isEmpty then m.id else Identifier.clean id

end Store
end ControlPlane
