import ControlPlane.Text.Blank
import ControlPlane.Text.Decimal
import ControlPlane.Text.Split

/-! # Log filters

A filter is a list of directives with commas between them: `target[span{field=value}]=level`, each
part of which may be missing, or a level alone. Of the directives that match an event, the most
specific one says up to which level it is logged.
-/
namespace ControlPlane.CommandLine

inductive LogLevel
  | off | error | warn | info | debug | trace
  deriving DecidableEq, Repr, Inhabited

namespace LogLevel

def rank : LogLevel → Nat
  | off => 0 | error => 1 | warn => 2 | info => 3 | debug => 4 | trace => 5

def name : LogLevel → String
  | off => "off" | error => "error" | warn => "warn" | info => "info" | debug =>
    "debug" | trace => "trace"

def all : List LogLevel := [off, error, warn, info, debug, trace]

/-- A level is named in any case, or numbered by its rank. -/
def ofChars? (cs : List Char) : Option LogLevel :=
  let digits := match cs with
    | '+' :: rest => rest
    | _ => cs
  if !digits.isEmpty && digits.all Decimal.isDigit then all.find? (·.rank == Decimal.value digits)
  else all.find? (·.name == String.ofList (cs.map Char.toLower))

end LogLevel

structure LogDirective where
  target : Option String := none
  span : Option String := none
  /-- Names of fields, some with a value that they have to have. -/
  fields : List (String × Option String) := []
  level : LogLevel := .trace
  deriving DecidableEq, Repr, Inhabited

namespace LogDirective

/-- What is being read, and where it began. -/
inductive Part
  | start
  | nameFrom (start : Nat)
  | spanFrom (start : Nat)
  | fieldFrom (start : Nat)
  | afterFields
  | afterTarget
  | levelFrom (start : Nat)
  deriving DecidableEq, Repr

def slice (text : List Char) (start stop : Nat) : List Char := (text.drop start).take (stop - start)

/-- Letters and digits, all characters beyond ASCII among them, and the marks of paths. -/
def beginsName (c : Char) : Bool :=
  Decimal.isDigit c || ('a' ≤ c && c ≤ 'z') || ('A' ≤ c && c ≤ 'Z') ||
    "-:_".toList.contains c || '\x7f' < c

/-- A field with its value after an equals sign; the field is not empty. -/
def field? (cs : List Char) : Option (String × Option String) :=
  match Text.splitOn '=' cs with
  | [] | [[]] => none
  | name :: values => some (String.ofList name, values.head?.map String.ofList)

/-- Reads the character at place `i`. -/
def step (text : List Char) : LogDirective × Part → Char × Nat → Option (LogDirective × Part)
  | (d, .start), (c, i) =>
    if c = '[' then some (d, .spanFrom (i + 1)) else if beginsName c
      then some (d, .nameFrom i) else none
  | (d, .nameFrom start), (c, i) =>
    let named := { d with target := some (String.ofList (slice text start i)) }
    if c = '=' then some (named, .levelFrom (i + 1))
    else if c = '[' then some (named, .spanFrom (i + 1))
    else some (d, .nameFrom start)
  | (d, .spanFrom start), (c, i) =>
    let span := String.ofList (slice text start i)
    if c = ']' then some ({ d with span := some span }, .afterTarget)
    else if c = '\x7b'
      then some ({ d with span := if span.isEmpty then none else some span }, .fieldFrom (i + 1))
    else some (d, .spanFrom start)
  | (d, .fieldFrom start), (c, i) =>
    if c = '\x7d' then do
      return ({ d with fields := d.fields ++ [← field? (slice text start i)] }, .afterFields)
    else some (d, .fieldFrom start)
  | (d, .afterFields), (c, _) => if c = ']' then some (d, .afterTarget) else none
  | (d, .afterTarget), (c, i) => if c = '=' then some (d, .levelFrom (i + 1)) else none
  | (d, .levelFrom start), _ => some (d, .levelFrom start)

/-- What the end completes. A name alone is a level if it is one, and a target otherwise. -/
def finish? (text : List Char) : LogDirective × Part → Option LogDirective
  | (d, .nameFrom start) =>
    let name := text.drop start
    match LogLevel.ofChars? name with
    | some level => some { d with level }
    | none => some { d with target := some (String.ofList name) }
  | (d, .levelFrom start) =>
    let level := text.drop start
    if level.isEmpty then some d else (LogLevel.ofChars? level).map fun level => { d with level }
  | (d, .afterTarget) => some d
  | _ => none

/-- The characters between the blanks decide; the parts are cut at their places in
the text as it is given. -/
def parse? (text : List Char) : Option LogDirective := do
  finish? text (← (Text.trim text).zipIdx.foldlM (step text) ({}, .start))

/-- Whether the directive speaks of events anywhere, and not only of those in some span. -/
def isStatic (d : LogDirective) : Bool := d.span.isNone && d.fields.all (·.2.isNone)

def covers (d : LogDirective) (target : String) (fields : List String) : Bool :=
  d.isStatic && d.target.all (fun t => t.toList.isPrefixOf target.toList) &&
    d.fields.all (fields.contains ·.1)

/-- A longer target is more specific, then more fields, then names that come later. -/
def isLessSpecific (a b : LogDirective) : Bool :=
  let size (d : LogDirective) : Nat := (d.target.map fun t => t.utf8ByteSize + 1).getD 0
  let names (d : LogDirective) : List String := d.fields.map (·.1)
  size a < size b || (size a == size b && (a.fields.length < b.fields.length ||
    (a.fields.length == b.fields.length && decide (names a < names b))))

end LogDirective

abbrev LogFilter := List LogDirective

namespace LogFilter

/-- Nothing between two commas is no directive, and no fault. -/
def parse? (text : String) : Option LogFilter :=
  ((Text.splitOn ',' text.toList).filter (!·.isEmpty)).mapM LogDirective.parse?

/-- The directive that decides over an event; of equally specific ones it is the last. -/
def decisive? (filter : LogFilter) (target : String) (fields : List String) : Option LogDirective :=
  (filter.filter (·.covers target fields)).foldl (fun best d =>
    match best with
    | some b => if d.isLessSpecific b then some b else some d
    | none => some d) none

def enables (filter : LogFilter) (target : String) (fields : List String) (level : LogLevel) :
    Bool :=
  (filter.decisive? target fields).any (level.rank ≤ ·.level.rank)

end LogFilter
end ControlPlane.CommandLine
