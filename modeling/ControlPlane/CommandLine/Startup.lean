import ControlPlane.CommandLine.LogFilter
import ControlPlane.CommandLine.Options
import ControlPlane.Config.File

/-! # Starting the controller

The options say which configuration to load and override it. A start fails at the first thing that
is wrong: the arguments, the configuration, the log filter, or the directory for the data.
-/
namespace ControlPlane.CommandLine

inductive Outcome
  | usage | help | config | logFilter | failed | serving
  deriving DecidableEq, Repr, Inhabited

namespace Outcome

/-- What a start came to; where it failed, the thing that was wrong. -/
def name : Outcome → String
  | usage => "usage" | help => "help" | config => "config" | logFilter =>
    "log filter" | failed => "failed"
  | serving => "serving"

def ofStop : Stop → Outcome
  | .usage => usage
  | .help => help

/-- The status that the process ends with. -/
def exitCode : Outcome → UInt32
  | help | serving => 0
  | usage => 2
  | _ => 1

end Outcome

/-- The configuration that the options ask for; `file` holds the contents of the files there are. -/
def Options.resolve? (o : Options) (file : String → Option Bytes) : Option ControllerConfig := do
  let config ← match o.config with
    | none => some {}
    | some path => ControllerConfig.ofBytes? (← file path)
  return { config with server := { config.server with
    port := o.port.getD config.server.port, dataDir := o.dataDir.getD config.server.dataDir } }

/-- A start that has nothing left to do but to open the store and to serve. -/
structure Launch where
  config : ControllerConfig
  inMemory : Bool
  /-- Whether the start is logged, and as JSON. -/
  isLogged : Bool
  logJson : Bool
  deriving DecidableEq, Repr

def daemon : String := "flotillad"

def startMessage : String := "Flotilla controller starting"

/-- The names of what is logged about a start. -/
def startFields : List String := ["message", "port", "hosts", "in_memory"]

def prepare (file : String → Option Bytes) (arguments : List String) : Except Outcome Launch :=
  match Options.parse arguments with
  | .error stop => .error (.ofStop stop)
  | .ok options =>
    match options.resolve? file with
    | none => .error .config
    | some config =>
      match LogFilter.parse? config.server.logFilter with
      | none => .error .logFilter
      | some filter => .ok {
          config
          inMemory := options.inMemory
          isLogged := filter.enables daemon startFields .info
          logJson := options.logJson }

namespace Launch

/-- What is logged about a start. -/
def report (l : Launch) : Json.Value :=
  .object [("message", .string startMessage), ("port", .integer l.config.server.port.toNat),
    ("hosts", .integer l.config.hosts.length), ("in_memory", .bool l.inMemory)]

/-- Data that are kept need a directory, which is made where there is none. -/
def outcome (l : Launch) (holdsData : String → Bool) : Outcome :=
  if l.inMemory || holdsData l.config.server.dataDir then .serving else .failed

end Launch

end ControlPlane.CommandLine
