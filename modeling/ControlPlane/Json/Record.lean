import ControlPlane.Time.Rfc3339
import ControlPlane.Json.Decode

/-! # Codecs for records

A codec writes a type as JSON and reads it back. A record is described once, by its fields in order,
and may be read from an object, whose unknown members are passed over, or from an array of its
fields. A field that is left out takes its absent value, and one that is required has none.
-/
namespace ControlPlane.Json

structure Codec (α : Type) where
  write : α → Value
  read : Reader α

namespace Codec
variable {α β : Type}

def encode (c : Codec α) (a : α) : Bytes := render (c.write a)

def decode (c : Codec α) (bytes : Bytes) : Except Fault α := Reader.document c.read bytes

def bool : Codec Bool := ⟨.bool, Reader.bool⟩

def string : Codec String := ⟨.string, Reader.string⟩

def list (c : Codec α) : Codec (List α) := ⟨fun as => .array (as.map c.write), Reader.list c.read⟩

def dict (c : Codec α) : Codec (Dict α) :=
  ⟨fun d => .object (d.map c.write).entries, Reader.dict c.read⟩

def option (c : Codec α) : Codec (Option α) :=
  ⟨fun a => (a.map c.write).getD .null, Reader.optional c.read⟩

/-- A type whose values are integers between the bounds. -/
def integer (least greatest : Int) (toInt : α → Int) (ofInt : Int → α) : Codec α :=
  ⟨fun a => .integer (toInt a), do return ofInt (← Reader.integer least greatest)⟩

def uint8 : Codec UInt8 := integer 0 0xFF (fun n => n.toNat) fun n => UInt8.ofNat n.toNat
def uint16 : Codec UInt16 := integer 0 0xFFFF (fun n => n.toNat) fun n => UInt16.ofNat n.toNat
def uint64 : Codec UInt64 :=
  integer 0 0xFFFFFFFFFFFFFFFF (fun n => n.toNat) fun n => UInt64.ofNat n.toNat
def int32 : Codec Int32 := integer Int32.minValue.toInt Int32.maxValue.toInt Int32.toInt Int32.ofInt

def map (c : Codec α) (toBase : β → α) (ofBase : α → β) : Codec β :=
  ⟨fun b => c.write (toBase b), do return ofBase (← c.read)⟩

def instant : Codec Instant where
  write t := .string (Rfc3339.render t)
  read := do
    match Rfc3339.parse? (← Reader.string) with
    | some t => return t
    | none => Reader.fail .mismatch

/-- One of finitely many values, each by its name; the name may also be the one key
of an object with null. -/
def named (names : List (String × α)) (name : α → String) : Codec α where
  write a := .string (name a)
  read := do
    let choose (s : String) : Reader α :=
      match names.find? (·.1 == s) with
      | some (_, a) => return a
      | none => Reader.fail .mismatch
    match ← Reader.peek with
    | some 0x22 => choose (← Reader.string)
    | some 0x7B =>
      Reader.drop
      let a ← choose (← Reader.string)
      Reader.mark 0x3A
      match ← Reader.peek with
      | some 0x6E => Reader.exactly (ascii ['n', 'u', 'l', 'l'])
      | _ => Reader.unexpected
      Reader.mark 0x7D
      return a
    | _ => Reader.fail .malformed

end Codec

/-- A field of the record type `α`. `write` answers nothing where the field is left out. -/
structure Field (α : Type) where
  name : String
  Content : Type
  get : α → Content
  read : Reader Content
  write : Content → Option Value
  absent : Option Content

namespace Field
variable {α β : Type}

def required (name : String) (get : α → β) (c : Codec β) : Field α :=
  ⟨name, β, get, c.read, fun b => some (c.write b), none⟩

def defaulting (name : String) (get : α → β) (c : Codec β) (absent : β) : Field α :=
  ⟨name, β, get, c.read, fun b => some (c.write b), some absent⟩

/-- A field that is written only if `keep` says so. -/
def sparse (name : String) (get : α → β) (c : Codec β) (absent : β) (keep : β → Bool) : Field α :=
  ⟨name, β, get, c.read, fun b => if keep b then some (c.write b) else none, some absent⟩

/-- A field that may be missing, and is left out then. -/
def optional (name : String) (get : α → Option β) (c : Codec β) : Field α :=
  sparse name get c.option none Option.isSome

/-- The contents of the fields, one after the other. -/
def Values : List (Field α) → Type
  | [] => Unit
  | f :: fs => f.Content × Values fs

/-- The contents found so far. -/
def Slots : List (Field α) → Type
  | [] => Unit
  | f :: fs => Option f.Content × Slots fs

def Slots.empty : (fs : List (Field α)) → Slots fs
  | [] => ()
  | _ :: fs => (none, Slots.empty fs)

/-- Reads the colon and the value of a member into the slot of its name; a name
met twice is refused. -/
def Slots.accept : (fs : List (Field α)) → Slots fs → String → Reader (Slots fs)
  | [], _, _ => do Reader.mark 0x3A; Reader.skip
  | f :: fs, (slot, slots), name => do
    if f.name = name then
      if slot.isSome then Reader.fail .mismatch
      else
        Reader.mark 0x3A
        return (some (← f.read), slots)
    else return (slot, ← Slots.accept fs slots name)

/-- All contents, the absent ones filled in. -/
def Slots.complete? : (fs : List (Field α)) → Slots fs → Option (Values fs)
  | [], _ => some ()
  | f :: fs, (slot, slots) => do
    let content ← slot <|> f.absent
    let contents ← Slots.complete? fs slots
    return (content, contents)

/-- The contents from an array, in order, absent ones at its end. -/
def Values.readItems : (fs : List (Field α)) → Bool → Reader (Values fs)
  | [], _ => return ()
  | f :: fs, isFirst => do
    if ← Reader.hasItem isFirst then
      let content ← f.read
      return (content, ← Values.readItems fs false)
    else
      match f.absent with
      | some content => return (content, ← Values.readItems fs isFirst)
      | none => Reader.fail .mismatch

end Field

structure Record (α : Type) where
  fields : List (Field α)
  build : Field.Values fields → α

namespace Record
variable {α : Type}

def write (r : Record α) (a : α) : Value :=
  .object (r.fields.filterMap fun f => (f.write (f.get a)).map (f.name, ·))

def read (r : Record α) : Reader α := do
  match ← Reader.peek with
  | some 0x5B =>
    Reader.drop
    let values ← Field.Values.readItems r.fields true
    Reader.mark 0x5D
    return r.build values
  | some 0x7B =>
    Reader.drop
    let slots ← Reader.bounded fun fuel =>
      Reader.members (Field.Slots.accept r.fields) fuel true (Field.Slots.empty r.fields)
    match Field.Slots.complete? r.fields slots with
    | some values =>
      Reader.mark 0x7D
      return r.build values
    | none => Reader.fail .mismatch
  | _ => Reader.unexpected

def codec (r : Record α) : Codec α := ⟨r.write, r.read⟩

end Record
end ControlPlane.Json
