import ControlPlane.Dict
import ControlPlane.Json.Skip

/-! # Typed readers

Readers for the plain types, lists and dictionaries, and for values of any shape nested at
most 127 deep. What does not fit is still read as far as its own form goes, so that a
malformed token counts as one.
-/
namespace ControlPlane.Json.Reader
variable {α : Type}

/-- Fails on a value of the wrong kind. -/
def unexpected : Reader α := do
  match ← peek with
  | none => fail .malformed
  | some b =>
    if b = 0x5B || b = 0x7B then fail .mismatch
    else if b = 0x22 then do drop; let _ ← stringBody; fail .mismatch
    else if b = 0x2D || isDigit b then do let _ ← number; fail .mismatch
    else do skipLiteral b; fail .mismatch

def bool : Reader Bool := do
  match ← peek with
  | some 0x74 => exactly (ascii ['t', 'r', 'u', 'e']); return true
  | some 0x66 => exactly (ascii ['f', 'a', 'l', 's', 'e']); return false
  | _ => unexpected

def string : Reader String := do
  match ← peek with
  | some 0x22 => drop; stringBody
  | _ => unexpected

/-- An integer between the bounds, written without fraction or exponent. -/
def integer (least greatest : Int) : Reader Int := do
  match ← peek with
  | some b =>
    if b = 0x2D || isDigit b then
      match ← number with
      | some n => if least ≤ n ∧ n ≤ greatest then return n else fail .mismatch
      | none => fail .mismatch
    else unexpected
  | none => unexpected

def optional (read : Reader α) : Reader (Option α) := do
  match ← peek with
  | some 0x6E => exactly (ascii ['n', 'u', 'l', 'l']); return none
  | _ => return some (← read)

/-! ## Lists and members -/

/-- Whether another item follows, its comma taken; `isFirst` at the beginning. -/
def hasItem (isFirst : Bool) : Reader Bool := do
  match ← peek with
  | none => fail .malformed
  | some 0x5D => return false
  | some b =>
    if isFirst then return true
    else if b = 0x2C then
      drop
      match ← peek with
      | none | some 0x5D => fail .malformed
      | _ => return true
    else fail .malformed

/-- The name of the next member, if there is one, its comma taken. -/
def nextName (isFirst : Bool) : Reader (Option String) := do
  match ← peek with
  | some 0x7D => return none
  | some b =>
    if isFirst then
      if b = 0x22 then do drop; return some (← stringBody) else fail .malformed
    else if b = 0x2C then do drop; mark 0x22; return some (← stringBody)
    else fail .malformed
  | none => fail .malformed

def items (read : Reader α) : Nat → Bool → List α → Reader (List α)
  | 0, _, _ => fail .malformed
  | fuel + 1, isFirst, seen => do
    if ← hasItem isFirst then items read fuel false ((← read) :: seen) else return seen.reverse

/-- Goes through the members of an object with `step`, which reads the colon and the value. -/
def members {σ : Type} (step : σ → String → Reader σ) : Nat → Bool → σ → Reader σ
  | 0, _, _ => fail .malformed
  | fuel + 1, isFirst, state => do
    match ← nextName isFirst with
    | none => return state
    | some name => members step fuel false (← step state name)

/-- Every item takes a byte at least, so the bytes left bound the number of items. -/
def bounded (loop : Nat → Reader α) : Reader α := fun bytes => loop (bytes.length + 1) bytes

def list (read : Reader α) : Reader (List α) := do
  match ← peek with
  | some 0x5B =>
    drop
    let found ← bounded fun fuel => items read fuel true []
    mark 0x5D
    return found
  | _ => unexpected

/-- An object as a dictionary; of a repeated name the last value stands. -/
def dict (read : Reader α) : Reader (Dict α) := do
  match ← peek with
  | some 0x7B =>
    drop
    let found ← bounded fun fuel =>
      members (fun (d : Dict α) name => do mark 0x3A; return d.insert name (← read)) fuel true {}
    mark 0x7D
    return found
  | _ => unexpected

/-! ## Values of any shape -/

def literal (b : UInt8) : Reader Value := do
  if b = 0x6E then exactly (ascii ['n', 'u', 'l', 'l']); return .null
  else if b = 0x74 then exactly (ascii ['t', 'r', 'u', 'e']); return .bool true
  else if b = 0x66 then exactly (ascii ['f', 'a', 'l', 's', 'e']); return .bool false
  else if b = 0x22 then drop; return .string (← stringBody)
  else if b = 0x2D || isDigit b then
    let before ← get
    match ← number with
    | some n => return .integer n
    | none => return .decimal (before.take (before.length - (← get).length))
  else fail .malformed

/-- A value with brackets at most `depth` deep. -/
def value : Nat → Reader Value
  | 0 => do
    match ← peek with
    | none | some 0x5B | some 0x7B => fail .malformed
    | some b => literal b
  | depth + 1 => do
    match ← peek with
    | none => fail .malformed
    | some 0x5B =>
      drop
      let found ← bounded fun fuel => items (value depth) fuel true []
      mark 0x5D
      return .array found
    | some 0x7B =>
      drop
      let found ← bounded fun fuel => members
        (fun seen name => do mark 0x3A; return (name, ← value depth) :: seen) fuel true []
      mark 0x7D
      return .object found.reverse
    | some b => literal b

def maxDepth : Nat := 127

/-- The one document that the bytes hold, with nothing but blanks after it. -/
def document (read : Reader α) (bytes : Bytes) : Except Fault α :=
  match read bytes with
  | .error fault => .error fault
  | .ok (a, rest) => if (skipSpace rest).isEmpty then .ok a else .error .malformed

end ControlPlane.Json.Reader
