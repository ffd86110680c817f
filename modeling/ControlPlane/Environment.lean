import ControlPlane.Host

/-! # The environment and the container settings of a run -/
namespace ControlPlane

namespace Environment

/-- Later layers win over earlier ones. -/
def merge (layers : List (Dict String)) : Dict String := layers.foldl Dict.overlay {}

/-- The `KEY=value` pairs in order of the keys. -/
def pairs (env : Dict String) : List String := env.entries.map fun e => e.1 ++ "=" ++ e.2

end Environment

/-- Output is always captured. An attached run has its standard input open until the client first
leaves, and a terminal if it asks for one. -/
def ContainerConfig.forRun (image : String) (cmd env : List String) (attach tty : Bool) :
    ContainerConfig where
  image := image
  cmd := cmd
  env := env
  tty := attach && tty
  attachStdin := attach
  attachStdout := true
  attachStderr := true
  openStdin := attach
  stdinOnce := attach

end ControlPlane
