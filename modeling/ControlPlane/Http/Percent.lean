import ControlPlane.Text.Split
import ControlPlane.Text.Utf8

/-! # Percent-encoded texts and queries -/
namespace ControlPlane.Percent

def hexValue? (b : UInt8) : Option Nat :=
  if 0x30 ≤ b && b ≤ 0x39 then some (b.toNat - 0x30)
  else if 0x41 ≤ b && b ≤ 0x46 then some (b.toNat - 0x37)
  else if 0x61 ≤ b && b ≤ 0x66 then some (b.toNat - 0x57)
  else none

def escaped? (a b : UInt8) : Option UInt8 := do
  return UInt8.ofNat ((← hexValue? a) * 16 + (← hexValue? b))

/-- Resolves a percent sign and two digits; a percent sign that stands otherwise stays. -/
def decodeBytes : Bytes → Bytes
  | [] => []
  | [a] => [a]
  | [a, b] => [a, b]
  | a :: b :: c :: rest =>
    match if a = 0x25 then escaped? b c else none with
    | some d => d :: decodeBytes rest
    | none => a :: decodeBytes (b :: c :: rest)

/-- The text of a segment of a path, if its bytes spell one. -/
def decode? (s : String) : Option String := Utf8.decode? (decodeBytes (Utf8.encode s))

/-- A name or a value of a query, in which a plus sign stands for a space. -/
def formValue (cs : List Char) : String :=
  Utf8.decodeLossy
    (decodeBytes (Utf8.encode (String.ofList (cs.map fun c => if c = '+' then ' ' else c))))

/-- The pairs of a query; one without an equals sign has an empty value. -/
def queryPairs (query : String) : List (String × String) :=
  ((Text.splitOn '&' query.toList).filter (!·.isEmpty)).map fun pair =>
    let (name, value) := Text.cut '=' pair
    (formValue name, formValue (value.getD []))

/-- What a query may say of one field: nothing, one value, or too much. -/
inductive Occurrence
  | absent
  | once (value : String)
  | repeated
  deriving DecidableEq, Repr

def occurrence (query name : String) : Occurrence :=
  match (queryPairs query).filter (·.1 == name) with
  | [] => .absent
  | [(_, value)] => .once value
  | _ => .repeated

end ControlPlane.Percent
