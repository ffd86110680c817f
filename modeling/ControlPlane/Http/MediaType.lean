import ControlPlane.Text.Split

/-! # Media types with parameters

A type, a slash and a subtype, whose suffix follows its last plus sign, and then parameters after
semicolons, with values bare or quoted.
-/
namespace ControlPlane

structure MediaType where
  type : String
  subtype : String
  suffix : Option String := none
  deriving DecidableEq, Repr, Inhabited

namespace MediaType

def isToken (c : Char) : Bool :=
  ('0' ≤ c && c ≤ '9') || ('a' ≤ c && c ≤ 'z') || ('A' ≤ c && c ≤ 'Z') ||
    "!#$%&'*+-.^_`|~".toList.contains c

def isQuotable (c : Char) : Bool := '\x1f' < c && c != '\x7f'

/-- Where a reader of parameters stands. -/
inductive State
  | blank
  | name
  | valueStart
  | value
  | quotedStart
  | quoted
  | afterQuoted
  deriving DecidableEq, Repr

def step? : State → Char → Option State
  | .blank, c => if c = ' ' then some .blank else if isToken c then some .name else none
  | .name, c => if c = '=' then some .valueStart else if isToken c then some .name else none
  | .valueStart, c => if c = '"' then some .quotedStart else if isToken c then some .value else none
  | .value, c => if c = ';' then some .blank else if isToken c then some .value else none
  | .quotedStart, c => if isQuotable c then some .quoted else none
  | .quoted, c => if c = '"' then some .afterQuoted else if isQuotable c then some .quoted else none
  | .afterQuoted, c => if c = ';' then some .blank else if c = ' ' then some .afterQuoted else none

def mayEnd : State → Bool
  | .blank | .valueStart | .value | .afterQuoted => true
  | _ => false

/-- Whether what follows a type, its first character gone, is a list of parameters. -/
def areParameters (cs : List Char) : Bool := (cs.foldlM step? .blank).any mayEnd

/-- Splits a subtype at its last plus sign, unless the sign comes first. -/
def splitSuffix (subtype : List Char) : List Char × Option (List Char) :=
  let suffix := (subtype.reverse.takeWhile (· != '+')).reverse
  let front := subtype.take (subtype.length - suffix.length - 1)
  if subtype.length ≤ suffix.length + 1 then (subtype, none) else (front, some suffix)

def parse? (value : String) : Option MediaType := do
  let (type, rest) := Text.cut '/' value.toList
  let rest ← rest
  let subtype := rest.takeWhile isToken
  if type.isEmpty || !type.all isToken || subtype.isEmpty then none
  let hasGoodEnd := match rest.drop subtype.length with
    | [] => true
    | c :: parameters => (c == ';' || c == ' ') && areParameters parameters
  if !hasGoodEnd then none
  let (subtype, suffix) := splitSuffix subtype
  return ⟨String.ofList type, String.ofList subtype, suffix.map String.ofList⟩

def sameName (a b : String) : Bool := a.map Char.toLower == b

/-- JSON itself, or a format built on it. -/
def isJson (m : MediaType) : Bool :=
  sameName m.type "application" && (sameName m.subtype "json" || m.suffix.any (sameName · "json"))

end MediaType
end ControlPlane
