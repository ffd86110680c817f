import ControlPlane.Text.Decimal
import ControlPlane.Text.Split
import ControlPlane.Time.Rfc3339

/-! # Numbers and times of TOML

A number, a time or a word is one token; it is what its whole text says.
-/
namespace ControlPlane.Toml

inductive Value
  | string (s : String)
  | integer (n : Int)
  | float (text : String)
  | boolean (b : Bool)
  | dateTime (text : String)
  | array (items : List Value)
  | table (members : List (String × Value))
  deriving Inhabited, Repr

namespace Scalar
open Decimal (isDigit)

def isTokenChar (c : Char) : Bool :=
  isDigit c || ('a' ≤ c && c ≤ 'z') || ('A' ≤ c && c ≤ 'Z') || "_+-.:".toList.contains c

/-- The digits of a run that underscores may divide, each between two digits. -/
def grouped? (p : Char → Bool) (cs : List Char) : Option (List Char) :=
  if (Text.splitOn '_' cs).all fun part =>
    !part.isEmpty && part.all p then some (cs.filter (· != '_')) else none

def digitValue (c : Char) : Nat :=
  if c ≤ '9' then c.toNat - 0x30 else if c ≤ 'F' then c.toNat - 0x37 else c.toNat - 0x57

def isHexDigit (c : Char) : Bool := isDigit c || ('a' ≤ c && c ≤ 'f') || ('A' ≤ c && c ≤ 'F')

def ofRadix (radix : Nat) (ds : List Char) : Nat := ds.foldl (fun n c => n * radix + digitValue c) 0

def inRange (n : Int) : Option Int :=
  if Int64.minValue.toInt ≤ n ∧ n ≤ Int64.maxValue.toInt then some n else none

/-- A decimal number without a sign; it begins with zero only if it is zero. -/
def whole? (cs : List Char) : Option (List Char) :=
  if cs.head? = some '0' ∧ cs.length ≠ 1 then none else grouped? isDigit cs

def integer? : List Char → Option Int
  | '0' :: 'x' :: cs => do inRange (ofRadix 16 (← grouped? isHexDigit cs))
  | '0' :: 'o' :: cs => do inRange (ofRadix 8 (← grouped? (fun c => '0' ≤ c && c ≤ '7') cs))
  | '0' :: 'b' :: cs => do inRange (ofRadix 2 (← grouped? (fun c => c == '0' || c == '1') cs))
  | '-' :: cs => do inRange (-(ofRadix 10 (← whole? cs) : Int))
  | '+' :: cs => do inRange (ofRadix 10 (← whole? cs))
  | cs => do inRange (ofRadix 10 (← whole? cs))

/-- Whether `n * 10 ^ e` rounds to a number beyond all doubles. -/
def isInfinite (n : Nat) (e : Int) : Bool :=
  let size := (Decimal.digits n).length + e
  if n = 0 ∨ size < 300 then false
  else if 320 < size then true
  else (Nat.pow 2 1024 - Nat.pow 2 970) * Nat.pow 10 (-e).toNat ≤ n * Nat.pow 10 e.toNat

/-- The exponent after its mark. -/
def exponent? : List Char → Option Int
  | '-' :: cs => do return -((ofRadix 10 (← grouped? isDigit cs) : Nat) : Int)
  | '+' :: cs => do return (ofRadix 10 (← grouped? isDigit cs) : Nat)
  | cs => do return (ofRadix 10 (← grouped? isDigit cs) : Nat)

/-- Whether a number without a sign has a fraction or an exponent, and is not too large. -/
def isMagnitude (bounded : Bool) (cs : List Char) : Bool :=
  let (front, power) :=
    (cs.takeWhile fun c => c != 'e' && c != 'E', cs.dropWhile fun c => c != 'e' && c != 'E')
  let (whole, fraction) := Text.cut '.' front
  let parts : Option (List Char × Int) := do
    let digits ← whole? whole
    let places ← match fraction with
      | none => some []
      | some fraction => grouped? isDigit fraction
    let e ← match power with
      | [] => some 0
      | _ :: power => exponent? power
    if fraction.isNone && power.isEmpty then none
    return (digits ++ places, e - places.length)
  parts.any fun (digits, e) => !bounded || !isInfinite (Decimal.value digits) e

def isFloat : List Char → Bool
  | '-' :: cs => cs == ['i', 'n', 'f'] || cs == ['n', 'a', 'n'] || isMagnitude false cs
  | '+' :: cs => cs == ['i', 'n', 'f'] || cs == ['n', 'a', 'n'] || isMagnitude true cs
  | cs => cs == ['i', 'n', 'f'] || cs == ['n', 'a', 'n'] || isMagnitude true cs

/-! ## Dates and times -/

def mark? (c : Char) : List Char → Option (List Char)
  | d :: rest => if d = c then some rest else none
  | [] => none

def date? (cs : List Char) : Option (List Char) := do
  let (century, cs) ← Rfc3339.twoDigits? cs
  let (year, cs) ← Rfc3339.twoDigits? cs
  let (month, cs) ← Rfc3339.twoDigits? (← mark? '-' cs)
  let (day, cs) ← Rfc3339.twoDigits? (← mark? '-' cs)
  if 1 ≤ month && month ≤ 12 && 1 ≤ day && day ≤ Calendar.daysIn (century * 100 + year : Nat) month
    then return cs
  else none

def hourAndMinute? (cs : List Char) : Option (List Char) := do
  let (hour, cs) ← Rfc3339.twoDigits? cs
  let (minute, cs) ← Rfc3339.twoDigits? (← mark? ':' cs)
  if hour < 24 && minute < 60 then return cs else none

def time? (cs : List Char) : Option (List Char) := do
  let cs ← hourAndMinute? cs
  let (second, cs) ← Rfc3339.twoDigits? (← mark? ':' cs)
  if 60 < second then none
  match cs with
  | '.' :: rest => if (rest.takeWhile isDigit).isEmpty then none else return rest.dropWhile isDigit
  | _ => return cs

def offset? : List Char → Option (List Char)
  | 'Z' :: rest | 'z' :: rest => some rest
  | '+' :: rest | '-' :: rest => hourAndMinute? rest
  | cs => some cs

def isTimeMark (c : Char) : Bool := c == 'T' || c == 't' || c == ' '

def isDateTime (cs : List Char) : Bool :=
  match date? cs with
  | some [] => true
  | some (c :: rest) => isTimeMark c && (time? rest).bind offset? == some []
  | none => time? cs == some []

/-- What a token says. -/
def ofToken? (cs : List Char) : Option Value :=
  if cs = ['t', 'r', 'u', 'e'] then some (.boolean true)
  else if cs = ['f', 'a', 'l', 's', 'e'] then some (.boolean false)
  else match integer? cs with
    | some n => some (.integer n)
    | none =>
      if isFloat cs then some (.float (String.ofList cs))
      else if isDateTime cs then some (.dateTime (String.ofList cs))
      else none

/-- The next token, and what follows it; a blank between a date and a time belongs to it. -/
def token (cs : List Char) : List Char × List Char :=
  let front := cs.takeWhile isTokenChar
  match cs.dropWhile isTokenChar with
  | ' ' :: d :: rest =>
    if isDigit d && date? front == some [] then
      (front ++ ' ' :: (d :: rest).takeWhile isTokenChar, (d :: rest).dropWhile isTokenChar)
    else (front, ' ' :: d :: rest)
  | rest => (front, rest)

end Scalar
end ControlPlane.Toml
