import ControlPlane.Text.Utf8
import ControlPlane.Text.Decimal

/-! # JSON values and their compact text

A number is an integer of 64 bits, signed or not, or else the text it was read from.
Texts are written byte by byte: quotes, backslashes and control characters are escaped
and all else stands as it is.
-/
namespace ControlPlane.Json

inductive Value
  | null
  | bool (b : Bool)
  | integer (n : Int)
  | decimal (text : Bytes)
  | string (s : String)
  | array (items : List Value)
  | object (members : List (String × Value))
  deriving Inhabited, Repr

def ascii (cs : List Char) : Bytes := cs.map fun c => UInt8.ofNat c.toNat

def hexDigit (n : Nat) : UInt8 := UInt8.ofNat (if n < 10 then 0x30 + n else 0x57 + n)

def escapeByte (b : UInt8) : Bytes :=
  if b = 0x22 then [0x5C, 0x22]
  else if b = 0x5C then [0x5C, 0x5C]
  else if b = 0x08 then [0x5C, 0x62]
  else if b = 0x09 then [0x5C, 0x74]
  else if b = 0x0A then [0x5C, 0x6E]
  else if b = 0x0C then [0x5C, 0x66]
  else if b = 0x0D then [0x5C, 0x72]
  else if b < 0x20 then [0x5C, 0x75, 0x30, 0x30, hexDigit (b.toNat / 16), hexDigit (b.toNat % 16)]
  else [b]

def renderString (s : String) : Bytes := 0x22 :: (Utf8.encode s).flatMap escapeByte ++ [0x22]

mutual
def render : Value → Bytes
  | .null => ascii ['n', 'u', 'l', 'l']
  | .bool true => ascii ['t', 'r', 'u', 'e']
  | .bool false => ascii ['f', 'a', 'l', 's', 'e']
  | .integer n => ascii (Decimal.renderInt n)
  | .decimal text => text
  | .string s => renderString s
  | .array items => 0x5B :: renderItems items ++ [0x5D]
  | .object members => 0x7B :: renderMembers members ++ [0x7D]
def renderItems : List Value → Bytes
  | [] => []
  | [v] => render v
  | v :: w :: rest => render v ++ 0x2C :: renderItems (w :: rest)
def renderMembers : List (String × Value) → Bytes
  | [] => []
  | [(k, v)] => renderString k ++ 0x3A :: render v
  | (k, v) :: m :: rest => renderString k ++ 0x3A :: render v ++ 0x2C :: renderMembers (m :: rest)
end

namespace Value

/-- The word for a value's kind. -/
def kind : Value → String
  | .null => "null"
  | .bool _ => "bool"
  | .integer _ | .decimal _ => "number"
  | .string _ => "string"
  | .array _ => "array"
  | .object _ => "object"

/-- The value of a member; of a repeated name the last one counts. -/
def member? (name : String) : Value → Option Value
  | .object members => (members.reverse.find? (·.1 == name)).map (·.2)
  | _ => none

end Value
end ControlPlane.Json
