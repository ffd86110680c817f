import ControlPlane.CommandLine.Startup

/-! # The command line of the controller -/
namespace ControlPlane.CommandLine

def usage : String :=
  "Usage: flotillad [--config <CONFIG>] [--port <PORT>] [--data-dir <DATA_DIR>] [--log-json]" ++
    " [--in-memory]"

def helpText : String := String.intercalate "\n" [
  "Flotilla controller daemon",
  "",
  usage,
  "",
  "Options:",
  "      --config <CONFIG>      TOML config file. Flags below override its values",
  "      --port <PORT>          Port to listen on",
  "      --data-dir <DATA_DIR>  Data directory for persistent state",
  "      --log-json             Emit logs as JSON lines",
  "      --in-memory            Keep state in memory only; nothing survives a restart",
  "  -h, --help                 Print help"]

/-- What the configuration file holds, where the arguments name one that can be read. -/
def readConfig (arguments : List String) : IO (Option Bytes) := do
  match Options.parse arguments with
  | .ok { config := some path, .. } =>
    try return some (← IO.FS.readBinFile path).toList
    catch _ => return none
  | _ => return none

def makeDirectory (path : String) : IO Bool := do
  try
    IO.FS.createDirAll path
    return true
  catch _ => return false

def log (l : Launch) : IO Unit := do
  if l.isLogged then
    let line :=
      Json.render
        (.object [("level", .string "INFO"), ("fields", l.report), ("target", .string daemon)])
    if l.logJson then IO.println ((Utf8.decode? line).getD "")
    else IO.println ("INFO " ++ daemon ++ ": " ++ startMessage)

/-- Says what a start came to. -/
def finish (outcome : Outcome) : IO UInt32 := do
  match outcome with
  | .help => IO.println helpText
  | .usage => IO.eprintln usage
  | .serving => return 0
  | _ => IO.eprintln ("Error: " ++ outcome.name)
  return outcome.exitCode

/-- Starts, and stays up until the input ends. -/
def launch (l : Launch) : IO Outcome := do
  log l
  let holdsData ← if l.inMemory then pure true else makeDirectory l.config.server.dataDir
  let outcome := l.outcome fun _ => holdsData
  if outcome = .serving then
    let _ ← (← IO.getStdin).readToEnd
  return outcome

def run (arguments : List String) : IO UInt32 := do
  let content ← readConfig arguments
  match prepare (fun _ => content) arguments with
  | .ok l => finish (← launch l)
  | .error outcome => finish outcome

end ControlPlane.CommandLine

def main (arguments : List String) : IO UInt32 := ControlPlane.CommandLine.run arguments
