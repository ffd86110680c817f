/-! # Decimal digits of natural numbers -/
namespace ControlPlane.Decimal

/-- Puts the digits of `n` before `seen`, as long as the fuel lasts. -/
def digitsFrom : Nat → Nat → List Nat → List Nat
  | 0, _, seen => seen
  | fuel + 1, n, seen => if n < 10 then n :: seen else digitsFrom fuel (n / 10) (n % 10 :: seen)

/-- The digits of `n`, the most significant first; `n + 1` steps are more than there are digits. -/
def digits (n : Nat) : List Nat := digitsFrom (n + 1) n []

def ofDigits (ds : List Nat) : Nat := ds.foldl (fun n d => n * 10 + d) 0

/-- At least `width` digits, zeros in front. -/
def padded (width n : Nat) : List Nat := List.replicate (width - (digits n).length) 0 ++ digits n

def digitChar (d : Nat) : Char := Char.ofNat (0x30 + d)

def render (n : Nat) : List Char := (digits n).map digitChar

def renderPadded (width n : Nat) : List Char := (padded width n).map digitChar

def isDigit (c : Char) : Bool := '0' ≤ c && c ≤ '9'

/-- The number that a run of digits spells. -/
def value (cs : List Char) : Nat := ofDigits (cs.map fun c => c.toNat - 0x30)

def renderInt : Int → List Char
  | .ofNat n => render n
  | .negSucc n => '-' :: render (n + 1)

end ControlPlane.Decimal
