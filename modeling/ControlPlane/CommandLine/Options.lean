import ControlPlane.Text.Decimal
import ControlPlane.Text.Split

/-! # Options of the command line

Arguments are read from left to right, and the first that asks for help or cannot be read ends the
reading. Every option may be given once.
-/
namespace ControlPlane.CommandLine

structure Options where
  config : Option String := none
  port : Option UInt16 := none
  dataDir : Option String := none
  logJson : Bool := false
  inMemory : Bool := false
  deriving DecidableEq, Repr, Inhabited

/-- Why there are no options to go on with. -/
inductive Stop
  | usage
  | help
  deriving DecidableEq, Repr

/-- The options that take a value. -/
inductive Setting
  | config | port | dataDir
  deriving DecidableEq, Repr

namespace Setting

def ofName? (name : String) : Option Setting :=
  if name = "config" then some config
  else if name = "port" then some port
  else if name = "data-dir" then some dataDir
  else none

end Setting

/-- A whole number of decimal digits, with or without a sign, that is a port. -/
def port? (value : String) : Option UInt16 :=
  let (sign, digits) := match value.toList with
    | '-' :: rest => (-1, rest)
    | '+' :: rest => (1, rest)
    | cs => ((1 : Int), cs)
  if digits.isEmpty || !digits.all Decimal.isDigit then none
  else
    let n := sign * Decimal.value digits
    if 0 ≤ n ∧ n < 0x10000 then some (.ofNat n.toNat) else none

/-- An empty text is no path. -/
def path? (value : String) : Option String := if value.isEmpty then none else some value

namespace Options

def isGiven (o : Options) : Setting → Bool
  | .config => o.config.isSome
  | .port => o.port.isSome
  | .dataDir => o.dataDir.isSome

def set? (o : Options) (setting : Setting) (value : String) : Option Options :=
  if o.isGiven setting then none
  else match setting with
    | .config => do return { o with config := some (← path? value) }
    | .port => do return { o with port := some (← port? value) }
    | .dataDir => do return { o with dataDir := some (← path? value) }

def raise? (o : Options) (flag : String) : Option Options :=
  if flag = "log-json" then if o.logJson then none else some { o with logJson := true }
  else if flag = "in-memory" then if o.inMemory then none else some { o with inMemory := true }
  else none

end Options

/-- What has been read: the options, the one whose value comes next, and
whether options are over. -/
structure Reading where
  options : Options := {}
  pending : Option Setting := none
  isOver : Bool := false
  deriving DecidableEq, Repr

namespace Reading

def stopUnless (options : Option Options) : Except Stop Reading :=
  match options with
  | some options => .ok { options }
  | none => .error .usage

/-- An argument that begins with two hyphens, without them. -/
def long (r : Reading) (cs : List Char) : Except Stop Reading :=
  match Text.cut '=' cs with
  | ([], none) => .ok { r with isOver := true }
  | (name, value) =>
    let name := String.ofList name
    match Setting.ofName? name, value with
    | some setting, some value => stopUnless (r.options.set? setting (String.ofList value))
    | some setting, none => .ok { r with pending := some setting }
    | none, some _ => .error .usage
    | none, none => if name = "help" then .error .help else stopUnless (r.options.raise? name)

/-- An argument that begins with a hyphen, save the hyphen alone, is no value. -/
def take (r : Reading) (argument : String) : Except Stop Reading :=
  match r.isOver, r.pending, argument.toList with
  | true, _, _ => .error .usage
  | false, some _, '-' :: _ :: _ => .error .usage
  | false, some setting, _ => stopUnless (r.options.set? setting argument)
  | false, none, '-' :: '-' :: name => r.long name
  | false, none, '-' :: 'h' :: _ => .error .help
  | false, none, _ => .error .usage

end Reading

def Options.parse (arguments : List String) : Except Stop Options := do
  let r ← arguments.foldlM Reading.take {}
  if r.pending.isSome then .error .usage else .ok r.options

end ControlPlane.CommandLine
