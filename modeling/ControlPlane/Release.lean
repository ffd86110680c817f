import ControlPlane.Json.Record

/-! # Artifacts, and releases that pair one with how to run it -/
namespace ControlPlane
open Json

structure Artifact where
  id : String := ""
  kind : String
  uri : String
  createdAt : Option Instant := none
  deriving DecidableEq, Inhabited

def Artifact.record : Record Artifact where
  fields := [
    .defaulting "id" Artifact.id .string "",
    .required "type" Artifact.kind .string,
    .required "uri" Artifact.uri .string,
    .optional "created_at" Artifact.createdAt .instant]
  build := fun (id, kind, uri, createdAt, ()) => ⟨id, kind, uri, createdAt⟩

def Artifact.codec : Codec Artifact := Artifact.record.codec

/-- The command and the environment of one named process type. -/
structure ProcessType where
  cmd : List String := []
  env : Dict String := {}
  deriving DecidableEq, Inhabited

def ProcessType.record : Record ProcessType where
  fields := [
    .defaulting "cmd" ProcessType.cmd Codec.string.list [],
    .sparse "env" ProcessType.env Codec.string.dict {} (!·.isEmpty)]
  build := fun (cmd, env, ()) => ⟨cmd, env⟩

def ProcessType.codec : Codec ProcessType := ProcessType.record.codec

structure Release where
  id : String := ""
  artifact : String := ""
  env : Dict String := {}
  processes : Dict ProcessType := {}
  createdAt : Option Instant := none
  deriving DecidableEq, Inhabited

def Release.record : Record Release where
  fields := [
    .defaulting "id" Release.id .string "",
    .defaulting "artifact" Release.artifact .string "",
    .defaulting "env" Release.env Codec.string.dict {},
    .sparse "processes" Release.processes ProcessType.codec.dict {} (!·.isEmpty),
    .optional "created_at" Release.createdAt .instant]
  build := fun (id, artifact, env, processes, createdAt, ()) =>
    ⟨id, artifact, env, processes, createdAt⟩

def Release.codec : Codec Release := Release.record.codec

end ControlPlane
