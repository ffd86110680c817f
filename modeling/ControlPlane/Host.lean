import ControlPlane.Json.Record

/-! # Hosts, the jobs they run and the events they report -/
namespace ControlPlane
open Json

/-- How a host runs a job. `env` holds `KEY=value` pairs in order of the keys. -/
structure ContainerConfig where
  image : String := ""
  cmd : List String := []
  env : List String := []
  tty : Bool := false
  attachStdin : Bool := false
  attachStdout : Bool := false
  attachStderr : Bool := false
  openStdin : Bool := false
  stdinOnce : Bool := false
  deriving DecidableEq, Inhabited

def ContainerConfig.record : Record ContainerConfig where
  fields := [
    .defaulting "image" ContainerConfig.image .string "",
    .defaulting "cmd" ContainerConfig.cmd Codec.string.list [],
    .defaulting "env" ContainerConfig.env Codec.string.list [],
    .defaulting "tty" ContainerConfig.tty .bool false,
    .defaulting "attach_stdin" ContainerConfig.attachStdin .bool false,
    .defaulting "attach_stdout" ContainerConfig.attachStdout .bool false,
    .defaulting "attach_stderr" ContainerConfig.attachStderr .bool false,
    .defaulting "open_stdin" ContainerConfig.openStdin .bool false,
    .defaulting "stdin_once" ContainerConfig.stdinOnce .bool false]
  build :=
    fun (image, cmd, env, tty, attachStdin, attachStdout, attachStderr, openStdin, stdinOnce, ()) =>
    ⟨image, cmd, env, tty, attachStdin, attachStdout, attachStderr, openStdin, stdinOnce⟩

def ContainerConfig.codec : Codec ContainerConfig := ContainerConfig.record.codec

/-- A job as a host knows it. A job that is submitted without an ID gets one from the host. -/
structure HostJob where
  id : String := ""
  attributes : Dict String := {}
  config : ContainerConfig := {}
  deriving DecidableEq, Inhabited

namespace HostJob

/-- Attributes that tag a job with its app, its release and its process type. -/
def appAttribute : String := "flotilla.app"
def releaseAttribute : String := "flotilla.release"
def typeAttribute : String := "flotilla.type"

def record : Record HostJob where
  fields := [
    .defaulting "id" HostJob.id .string "",
    .defaulting "attributes" HostJob.attributes Codec.string.dict {},
    .defaulting "config" HostJob.config ContainerConfig.codec {}]
  build := fun (id, attributes, config, ()) => ⟨id, attributes, config⟩

def codec : Codec HostJob := record.codec

end HostJob

structure Host where
  id : String
  jobs : List HostJob := []
  deriving DecidableEq, Inhabited

def Host.record : Record Host where
  fields := [
    .required "id" Host.id .string,
    .defaulting "jobs" Host.jobs HostJob.codec.list []]
  build := fun (id, jobs, ()) => ⟨id, jobs⟩

def Host.codec : Codec Host := Host.record.codec

inductive JobStatus
  | starting | running | done | crashed | failed
  deriving DecidableEq, Repr, Inhabited

namespace JobStatus

def name : JobStatus → String
  | starting => "starting" | running => "running" | done => "done" | crashed =>
    "crashed" | failed => "failed"

def all : List JobStatus := [starting, running, done, crashed, failed]

def codec : Codec JobStatus := .named (all.map fun s => (s.name, s)) name

end JobStatus

/-- A job with its status on its host. -/
structure ActiveJob where
  job : HostJob
  status : JobStatus
  startedAt : Option Instant := none
  deriving DecidableEq, Inhabited

def ActiveJob.record : Record ActiveJob where
  fields := [
    .required "job" ActiveJob.job HostJob.codec,
    .required "status" ActiveJob.status JobStatus.codec,
    .optional "started_at" ActiveJob.startedAt .instant]
  build := fun (job, status, startedAt, ()) => ⟨job, status, startedAt⟩

def ActiveJob.codec : Codec ActiveJob := ActiveJob.record.codec

inductive HostEventKind
  | create | start | stop | error
  deriving DecidableEq, Repr, Inhabited

namespace HostEventKind

def name : HostEventKind → String
  | create => "create" | start => "start" | stop => "stop" | error => "error"

def all : List HostEventKind := [create, start, stop, error]

def codec : Codec HostEventKind := .named (all.map fun k => (k.name, k)) name

end HostEventKind

structure HostEvent where
  job : String
  kind : HostEventKind
  deriving DecidableEq, Repr, Inhabited

def HostEvent.record : Record HostEvent where
  fields := [
    .required "job_id" HostEvent.job .string,
    .required "kind" HostEvent.kind HostEventKind.codec]
  build := fun (job, kind, ()) => ⟨job, kind⟩

def HostEvent.codec : Codec HostEvent := HostEvent.record.codec

end ControlPlane
