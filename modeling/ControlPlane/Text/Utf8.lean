/-! # Texts as bytes: UTF-8 written, read strictly, and read with replacement

A reader goes through the bytes once and yields one unit per character, or an empty unit for
a longest run of bytes that begins a character without completing it (a single byte where
none can begin). Strict reading wants every unit to be a character; lossy reading puts
U+FFFD for the empty ones.
-/
namespace ControlPlane

abbrev Bytes := List UInt8

namespace Utf8

def encode (s : String) : Bytes := s.toList.flatMap String.utf8EncodeChar

/-- Between characters, or owing `count` more bytes, the next one between `low` and `high`. -/
inductive State
  | ready
  | owing (count value low high : Nat)
  deriving DecidableEq, Repr

/-- The state after a byte that stands where a character begins, and the unit it completes. -/
def begin (b : Nat) : State × List (Option Char) :=
  if b < 0x80 then (.ready, [some (Char.ofNat b)])
  else if b < 0xC2 then (.ready, [none])
  else if b < 0xE0 then (.owing 1 (b - 0xC0) 0x80 0xBF, [])
  else if b = 0xE0 then (.owing 2 0 0xA0 0xBF, [])
  else if b = 0xED then (.owing 2 0x0D 0x80 0x9F, [])
  else if b < 0xF0 then (.owing 2 (b - 0xE0) 0x80 0xBF, [])
  else if b = 0xF0 then (.owing 3 0 0x90 0xBF, [])
  else if b < 0xF4 then (.owing 3 (b - 0xF0) 0x80 0xBF, [])
  else if b = 0xF4 then (.owing 3 4 0x80 0x8F, [])
  else (.ready, [none])

/-- A byte that cannot continue the character ends its run and is read again as a beginning. -/
def step : State → Nat → State × List (Option Char)
  | .ready, b => begin b
  | .owing count value low high, b =>
    if low ≤ b ∧ b ≤ high then
      let value := value * 64 + (b - 0x80)
      if count ≤ 1 then (.ready, [some (Char.ofNat value)])
        else (.owing (count - 1) value 0x80 0xBF, [])
    else ((begin b).1, none :: (begin b).2)

/-- What the end of the bytes leaves: an unfinished character is one empty unit. -/
def finish : State → List (Option Char)
  | .ready => []
  | .owing .. => [none]

/-- Reads on from `state`; `seen` holds the units so far, the last first. -/
def unitsFrom (state : State) (seen : List (Option Char)) : Bytes → List (Option Char)
  | [] => seen.reverse ++ finish state
  | b :: rest => unitsFrom (step state b.toNat).1 ((step state b.toNat).2.reverse ++ seen) rest

def units (bytes : Bytes) : List (Option Char) := unitsFrom .ready [] bytes

/-- The text the bytes spell, if they are UTF-8. -/
def decode? (bytes : Bytes) : Option String :=
  let found := units bytes
  if found.all Option.isSome then some (String.ofList (found.filterMap id)) else none

/-- The text of the bytes, with U+FFFD for every run that spells no character. -/
def decodeLossy (bytes : Bytes) : String :=
  String.ofList ((units bytes).map (·.getD '\uFFFD'))

end Utf8
end ControlPlane
