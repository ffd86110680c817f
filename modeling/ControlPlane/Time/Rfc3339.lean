import ControlPlane.Text.Blank
import ControlPlane.Text.Decimal
import ControlPlane.Time.Instant

/-! # Timestamps in the form of RFC 3339

Instants are written in UTC with the fewest of 0, 3, 6 or 9 fraction digits that lose
nothing. The reader is lenient: blanks may stand before every number and before a separator,
numbers may lack leading zeros, the separator of date and time may be a space, and any offset
below a day is accepted.
-/
namespace ControlPlane.Rfc3339
open Text

/-- Years of four digits are bare; others carry their sign. -/
def renderYear (year : Int) : List Char :=
  if 0 ≤ year ∧ year ≤ 9999 then Decimal.renderPadded 4 year.toNat
  else (if year < 0 then '-' else '+') :: Decimal.renderPadded 4 year.natAbs

def renderFraction (nanos : Nat) : List Char :=
  if nanos = 0 then []
  else if nanos % 1000000 = 0 then '.' :: Decimal.renderPadded 3 (nanos / 1000000)
  else if nanos % 1000 = 0 then '.' :: Decimal.renderPadded 6 (nanos / 1000)
  else '.' :: Decimal.renderPadded 9 nanos

/-- The timestamp with its fraction written by `fraction`. -/
def renderWith (fraction : Nat → List Char) (t : Instant) : List Char :=
  renderYear t.year ++ '-' :: Decimal.renderPadded 2 t.month ++ '-' ::
    Decimal.renderPadded 2 t.day ++
    'T' :: Decimal.renderPadded 2 t.hour ++ ':' :: Decimal.renderPadded 2 t.minute ++
    ':' :: Decimal.renderPadded 2 t.second ++ fraction t.nanos ++ ['Z']

def render (t : Instant) : String := String.ofList (renderWith renderFraction t)

/-- The timestamp cut to microseconds, always with six fraction digits. -/
def renderMicros (t : Instant) : String :=
  String.ofList (renderWith (fun n => '.' :: Decimal.renderPadded 6 (n / 1000)) t)

/-- Reads one to `width` digits after blanks. -/
def number? (width : Nat) (cs : List Char) : Option (Nat × List Char) :=
  let cs := trimStart cs
  let ds := (cs.take width).takeWhile Decimal.isDigit
  if ds.isEmpty then none else some (Decimal.value ds, cs.drop ds.length)

/-- A signed year may have any number of digits, an unsigned one at most four. -/
def year? (cs : List Char) : Option (Int × List Char) :=
  match trimStart cs with
  | '-' :: rest => signed (-1) rest
  | '+' :: rest => signed 1 rest
  | cs => (number? 4 cs).map fun (n, rest) => (Int.ofNat n, rest)
where
  signed (sign : Int) (cs : List Char) : Option (Int × List Char) :=
    let ds := cs.takeWhile Decimal.isDigit
    if ds.isEmpty then none else some (sign * Decimal.value ds, cs.drop ds.length)

/-- Reads `c` after blanks. -/
def mark? (c : Char) (cs : List Char) : Option (List Char) :=
  match trimStart cs with
  | d :: rest => if d = c then some rest else none
  | [] => none

/-- An optional fraction; digits after the ninth are dropped. -/
def fraction? : List Char → Option (Nat × List Char)
  | '.' :: rest =>
    let ds := rest.takeWhile Decimal.isDigit
    if ds.isEmpty then none
    else
      let kept := ds.take 9
      some (Decimal.value kept * Nat.pow 10 (9 - kept.length), rest.drop ds.length)
  | cs => some (0, cs)

def twoDigits? : List Char → Option (Nat × List Char)
  | a :: b :: rest =>
    if Decimal.isDigit a && Decimal.isDigit b then some (Decimal.value [a, b], rest) else none
  | _ => none

/-- An offset in minutes: `Z`, `UTC`, or a sign (of either form of minus) with hours and minutes. -/
def offset? (cs : List Char) : Option (Int × List Char) :=
  match cs with
  | 'Z' :: rest | 'z' :: rest => some (0, rest)
  | u :: t :: c :: rest =>
    if u.toLower = 'u' ∧ t.toLower = 't' ∧ c.toLower = 'c' then some (0, rest) else numeric cs
  | _ => numeric cs
where
  numeric : List Char → Option (Int × List Char)
    | '+' :: rest => hours 1 rest
    | '-' :: rest | '\u2212' :: rest => hours (-1) rest
    | _ => none
  hours (sign : Int) (cs : List Char) : Option (Int × List Char) := do
    let (h, cs) ← twoDigits? cs
    let (m, cs) ← twoDigits? (cs.dropWhile fun c => c = ':' || isBlank c)
    if m < 60 && h < 24 then some (sign * (h * 60 + m), cs) else none

def parseChars? (cs : List Char) : Option Instant := do
  let (year, cs) ← year? cs
  let cs ← mark? '-' cs
  let (month, cs) ← number? 2 cs
  let cs ← mark? '-' cs
  let (day, cs) ← number? 2 cs
  let cs ← match cs with
    | 'T' :: cs | 't' :: cs | ' ' :: cs => some cs
    | _ => none
  let (hour, cs) ← number? 2 cs
  let cs ← mark? ':' cs
  let (minute, cs) ← number? 2 cs
  let cs ← mark? ':' cs
  let (second, cs) ← number? 2 cs
  let (nanos, cs) ← fraction? cs
  let (minutes, cs) ← offset? (trimStart cs)
  if !(trimStart cs).isEmpty then none
  let there ← Instant.ofFields? year month day hour minute second nanos
  there.minusMinutes? minutes

def parse? (s : String) : Option Instant := parseChars? s.toList

end ControlPlane.Rfc3339
