import ControlPlane.Identifier
import ControlPlane.Host

/-! # Jobs as clients see them -/
namespace ControlPlane
open Json

/-- A request to run a command of a release, of a named process type or ad hoc. -/
structure NewJob where
  release : String
  processType : Option String := none
  cmd : List String := []
  env : Dict String := {}
  tty : Bool := false
  columns : UInt16 := 0
  lines : UInt16 := 0
  deriving DecidableEq, Inhabited

def NewJob.record : Record NewJob where
  fields := [
    .required "release" NewJob.release .string,
    .optional "type" NewJob.processType .string,
    .defaulting "cmd" NewJob.cmd Codec.string.list [],
    .defaulting "env" NewJob.env Codec.string.dict {},
    .defaulting "tty" NewJob.tty .bool false,
    .defaulting "columns" NewJob.columns .uint16 0,
    .defaulting "lines" NewJob.lines .uint16 0]
  build := fun (release, processType, cmd, env, tty, columns, lines, ()) =>
    ⟨release, processType, cmd, env, tty, columns, lines⟩

def NewJob.codec : Codec NewJob := NewJob.record.codec

/-- A job somewhere in the cluster; its ID names the host too. -/
structure Job where
  id : String
  processType : String := ""
  release : String := ""
  cmd : List String := []
  deriving DecidableEq, Inhabited

def Job.record : Record Job where
  fields := [
    .required "id" Job.id .string,
    .sparse "type" Job.processType .string "" (· != ""),
    .sparse "release" Job.release .string "" (· != ""),
    .sparse "cmd" Job.cmd Codec.string.list [] (!·.isEmpty)]
  build := fun (id, processType, release, cmd, ()) => ⟨id, processType, release, cmd⟩

def Job.codec : Codec Job := Job.record.codec

/-- A host's job in its public form. -/
def Job.ofHostJob (host : String) (job : HostJob) : Job where
  id := JobId.render ⟨host, job.id⟩
  processType := (job.attributes.get? HostJob.typeAttribute).getD ""
  release := (job.attributes.get? HostJob.releaseAttribute).getD ""
  cmd := job.config.cmd

end ControlPlane
