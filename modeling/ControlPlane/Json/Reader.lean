import ControlPlane.Json.Value

/-! # Reading JSON text

A reader takes a value from the front of the bytes. The first fault it meets decides how it fails:
the text is malformed, or it is well formed so far and does not fit what is wanted.
-/
namespace ControlPlane.Json

inductive Fault
  | malformed
  | mismatch
  deriving DecidableEq, Repr

abbrev Reader (α : Type) := StateT Bytes (Except Fault) α

def isSpace (b : UInt8) : Bool := b == 0x20 || b == 0x0A || b == 0x09 || b == 0x0D

def skipSpace (bytes : Bytes) : Bytes := bytes.dropWhile isSpace

namespace Reader

def fail {α : Type} (fault : Fault) : Reader α := fun _ => .error fault

/-- The next byte after blanks, left in place; `none` at the end. -/
def peek : Reader (Option UInt8) := fun bytes =>
  let rest := skipSpace bytes
  .ok (rest.head?, rest)

/-- Drops the byte just peeked at. -/
def drop : Reader Unit := fun bytes => .ok ((), bytes.tail)

/-- Takes the given bytes, with no blanks before them. -/
def exactly (word : Bytes) : Reader Unit := fun bytes =>
  if word.isPrefixOf bytes then .ok ((), bytes.drop word.length) else .error .malformed

/-- Takes one byte after blanks. -/
def mark (b : UInt8) : Reader Unit := do
  if (← peek) = some b then drop else fail .malformed

/-! ## Strings -/

/-- Where a reader stands inside a string. -/
inductive StringState
  | plain
  | escape
  | hex (high : Option Nat) (owed value : Nat)
  | pairBackslash (high : Nat)
  | pairLetter (high : Nat)

def hexValue? (b : UInt8) : Option Nat :=
  if 0x30 ≤ b && b ≤ 0x39 then some (b.toNat - 0x30)
  else if 0x41 ≤ b && b ≤ 0x46 then some (b.toNat - 0x37)
  else if 0x61 ≤ b && b ≤ 0x66 then some (b.toNat - 0x57)
  else none

def escaped? (b : UInt8) : Option UInt8 :=
  if b = 0x22 ∨ b = 0x5C ∨ b = 0x2F then some b
  else if b = 0x62 then some 0x08
  else if b = 0x66 then some 0x0C
  else if b = 0x6E then some 0x0A
  else if b = 0x72 then some 0x0D
  else if b = 0x74 then some 0x09
  else none

def isHighSurrogate (n : Nat) : Bool := 0xD800 ≤ n && n ≤ 0xDBFF
def isLowSurrogate (n : Nat) : Bool := 0xDC00 ≤ n && n ≤ 0xDFFF

/-- What four hexadecimal digits complete: a character, or the wait for the
second half of a pair. -/
def unescape (high : Option Nat) (value : Nat) : Except Fault (Bytes ⊕ StringState) :=
  match high with
  | none =>
    if isLowSurrogate value then .error .malformed
    else if isHighSurrogate value then .ok (.inr (.pairBackslash value))
    else .ok (.inl (String.utf8EncodeChar (Char.ofNat value)))
  | some h =>
    if isLowSurrogate value then
      .ok (.inl (String.utf8EncodeChar
        (Char.ofNat (0x10000 + (h - 0xD800) * 0x400 + (value - 0xDC00)))))
    else .error .malformed

/-- The bytes up to the closing quote, escapes resolved; `seen` holds those so far, the last
first. -/
def stringFrom : StringState → Bytes → Bytes → Except Fault (Bytes × Bytes)
  | _, _, [] => .error .malformed
  | .plain, seen, b :: rest =>
    if b = 0x22 then .ok (seen.reverse, rest)
    else if b = 0x5C then stringFrom .escape seen rest
    else if b < 0x20 then .error .malformed
    else stringFrom .plain (b :: seen) rest
  | .escape, seen, b :: rest =>
    if b = 0x75 then stringFrom (.hex none 4 0) seen rest
    else match escaped? b with
      | some c => stringFrom .plain (c :: seen) rest
      | none => .error .malformed
  | .hex high owed value, seen, b :: rest =>
    match hexValue? b with
    | none => .error .malformed
    | some d =>
      if 1 < owed then stringFrom (.hex high (owed - 1) (value * 16 + d)) seen rest
      else match unescape high (value * 16 + d) with
        | .error fault => .error fault
        | .ok (.inl text) => stringFrom .plain (text.reverse ++ seen) rest
        | .ok (.inr state) => stringFrom state seen rest
  | .pairBackslash high, seen, b :: rest =>
    if b = 0x5C then stringFrom (.pairLetter high) seen rest else .error .malformed
  | .pairLetter high, seen, b :: rest =>
    if b = 0x75 then stringFrom (.hex (some high) 4 0) seen rest else .error .malformed

/-- The text of a string whose opening quote has been taken. -/
def stringBody : Reader String := fun bytes =>
  match stringFrom .plain [] bytes with
  | .error fault => .error fault
  | .ok (text, rest) =>
    match Utf8.decode? text with
    | some s => .ok (s, rest)
    | none => .error .malformed

/-! ## Numbers -/

def isDigit (b : UInt8) : Bool := 0x30 ≤ b && b ≤ 0x39

def digitValue (b : UInt8) : Nat := b.toNat - 0x30

/-- The parts of a number's text. -/
structure Numeral where
  negative : Bool
  whole : Bytes
  fraction : Option Bytes
  exponent : Option (Bool × Bytes)
  deriving DecidableEq, Repr

/-- Splits a run of digits off; there must be one. -/
def digits1 : Reader Bytes := fun bytes =>
  let ds := bytes.takeWhile isDigit
  if ds.isEmpty then .error .malformed else .ok (ds, bytes.dropWhile isDigit)

def peekHere : Reader (Option UInt8) := fun bytes => .ok (bytes.head?, bytes)

/-- A number by the grammar: no leading zero, digits on both sides of a point and
after an exponent mark. -/
def numeral : Reader Numeral := do
  let negative := (← peekHere) = some 0x2D
  if negative then drop
  let whole ← digits1
  if whole.head? = some 0x30 ∧ 1 < whole.length then fail .malformed
  let fraction ← (do
    if (← peekHere) = some 0x2E then drop; return some (← digits1)
    else return none : Reader (Option Bytes))
  let exponent ← (do
    let mark ← peekHere
    if mark = some 0x65 ∨ mark = some 0x45 then
      drop
      let sign ← peekHere
      if sign = some 0x2B ∨ sign = some 0x2D then drop
      return some (sign = some 0x2D, ← digits1)
    else return none : Reader (Option (Bool × Bytes)))
  return ⟨negative, whole, fraction, exponent⟩

def natOf (ds : Bytes) : Nat := Decimal.ofDigits (ds.map digitValue)

end Reader
end ControlPlane.Json
