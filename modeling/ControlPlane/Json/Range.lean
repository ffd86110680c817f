import ControlPlane.Json.Reader

/-! # Which numbers a reader takes

Integers of 64 bits stay exact. Any other number is held as a significand of 64 bits and a power
of ten, and a number whose product of the two, each rounded to 53 bits, is beyond the greatest
finite double is malformed.
-/
namespace ControlPlane.Json

/-- `n` rounded to 53 significant bits, a half to even. -/
def roundTo53 (n : Nat) : Nat :=
  let shift := n.log2 + 1 - 53
  let kept := n >>> shift
  let lost := n % (1 <<< shift)
  let half := (1 <<< shift) / 2
  let up := shift ≠ 0 ∧ (half < lost ∨ (lost = half ∧ kept % 2 = 1))
  (if up then kept + 1 else kept) <<< shift

/-- Whether the rounded product of significand and power of ten leaves the doubles. -/
def overflows (significand : Nat) (exponent : Int) : Bool :=
  significand ≠ 0 && (308 < exponent ||
    (0 ≤ exponent && Nat.pow 2 1024 - Nat.pow 2 970 ≤
      roundTo53 significand * roundTo53 (Nat.pow 10 exponent.toNat)))

/-- Takes digits into a significand of 64 bits until one does not fit; counts those it took. -/
def fold64 (significand taken : Nat) : Bytes → Nat × Nat
  | [] => (significand, taken)
  | d :: rest =>
    let next := significand * 10 + Reader.digitValue d
    if next < UInt64.size then fold64 next (taken + 1) rest else (significand, taken)

namespace Reader.Numeral

def isInteger (n : Numeral) : Bool := n.fraction.isNone && n.exponent.isNone

/-- The integer of a numeral that has no fraction and no exponent and fits 64 bits; `-0` is none. -/
def integer? (n : Numeral) : Option Int :=
  let magnitude := natOf n.whole
  if !n.isInteger then none
  else if n.negative
    then (if 0 < magnitude ∧ magnitude ≤ 0x8000000000000000 then some (-magnitude) else none)
  else if magnitude < UInt64.size then some magnitude else none

def isFinite (n : Numeral) : Bool :=
  let (whole, taken) := fold64 0 0 n.whole
  let (significand, places) := fold64 whole 0 (n.fraction.getD [])
  let power : Int := match n.exponent with
    | none => 0
    | some (true, ds) => -(natOf ds)
    | some (false, ds) => natOf ds
  !overflows significand ((n.whole.length - taken : Nat) - places + power)

end Reader.Numeral

namespace Reader

/-- A number: its integer where it has one. -/
def number : Reader (Option Int) := do
  let n ← numeral
  if n.isFinite then return n.integer? else fail .malformed

end Reader
end ControlPlane.Json
