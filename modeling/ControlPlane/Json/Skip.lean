import ControlPlane.Json.Range

/-! # Passing over a value

A value that nobody wants is checked for its form alone: to any depth, with escapes that spell no
character, bytes that are no text, and numbers of any size.
-/
namespace ControlPlane.Json.Reader

inductive SkipState
  | plain
  | escape
  | hex (owed : Nat)

/-- Passes over a string whose opening quote has been taken. -/
def skipStringFrom : SkipState → Bytes → Except Fault Bytes
  | _, [] => .error .malformed
  | .plain, b :: rest =>
    if b = 0x22 then .ok rest
    else if b = 0x5C then skipStringFrom .escape rest
    else if b < 0x20 then .error .malformed
    else skipStringFrom .plain rest
  | .escape, b :: rest =>
    if b = 0x75 then skipStringFrom (.hex 4) rest
    else if (escaped? b).isSome then skipStringFrom .plain rest
    else .error .malformed
  | .hex owed, b :: rest =>
    if (hexValue? b).isNone then .error .malformed
    else skipStringFrom (if 1 < owed then .hex (owed - 1) else .plain) rest

def skipString : Reader Unit := fun bytes =>
  match skipStringFrom .plain bytes with
  | .ok rest => .ok ((), rest)
  | .error fault => .error fault

inductive Bracket
  | list
  | record
  deriving DecidableEq

/-- What may come next: a value, the first item of the innermost bracket, or
what follows an item. -/
inductive Expect
  | value
  | first
  | next

def skipKey : Reader Unit := do
  mark 0x22
  skipString
  mark 0x3A

def skipLiteral (b : UInt8) : Reader Unit :=
  if b = 0x6E then exactly (ascii ['n', 'u', 'l', 'l'])
  else if b = 0x74 then exactly (ascii ['t', 'r', 'u', 'e'])
  else if b = 0x66 then exactly (ascii ['f', 'a', 'l', 's', 'e'])
  else if b = 0x2D || isDigit b then do let _ ← numeral
  else if b = 0x22 then do drop; skipString
  else fail .malformed

def Bracket.closing : Bracket → UInt8
  | .list => 0x5D
  | .record => 0x7D

/-- One token at a time, with the open brackets on a stack, the innermost first. -/
def skipFrom : Nat → Expect → List Bracket → Reader Unit
  | 0, _, _ => fail .malformed
  | fuel + 1, .value, stack => do
    match ← peek with
    | none => fail .malformed
    | some b =>
      if b = 0x5B then drop; skipFrom fuel .first (.list :: stack)
      else if b = 0x7B then drop; skipFrom fuel .first (.record :: stack)
      else skipLiteral b; skipFrom fuel .next stack
  | _, .first, [] => fail .malformed
  | fuel + 1, .first, bracket :: stack => do
    if (← peek) = some bracket.closing then drop; skipFrom fuel .next stack
    else
      if bracket = .record then skipKey
      skipFrom fuel .value (bracket :: stack)
  | _, .next, [] => return
  | fuel + 1, .next, bracket :: stack => do
    match ← peek with
    | none => fail .malformed
    | some b =>
      if b = bracket.closing then drop; skipFrom fuel .next stack
      else if b = 0x2C then
        drop
        if bracket = .record then skipKey
        skipFrom fuel .value (bracket :: stack)
      else fail .malformed

/-- Every token but the last takes a byte, and no value takes more than two steps a byte. -/
def skip : Reader Unit := fun bytes => skipFrom (2 * bytes.length + 2) .value [] bytes

end ControlPlane.Json.Reader
