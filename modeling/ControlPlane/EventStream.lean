import ControlPlane.Incremental
import ControlPlane.Text.Lines

/-! # Server-sent events

A stream of lines: a field and its value on each, and a blank line at the end of an event.
Lines that begin with a colon are comments. An event without a name is called `message`, and
one without data is none.
-/
namespace ControlPlane

structure Event where
  name : String := "message"
  data : String
  deriving DecidableEq, Repr, Inhabited

namespace EventStream

/-- An event as it is written: its name where it has one, a line of data, and a blank line. -/
def block (name : Option String) (data : Bytes) : Bytes :=
  (match name with
    | some name => Utf8.encode "event: " ++ Utf8.encode name ++ [0x0A]
    | none => []) ++ Utf8.encode "data: " ++ data ++ [0x0A, 0x0A]

/-- The fields of the event whose blank line has not come yet. -/
structure Pending where
  name : Option String := none
  data : Option String := none
  deriving DecidableEq, Repr, Inhabited

/-- A line's field and value, the value without one leading space; without a
colon it is all field. -/
def field (line : List Char) : List Char × List Char :=
  match line.dropWhile (· != ':') with
  | [] => (line, [])
  | _ :: ' ' :: value => (line.takeWhile (· != ':'), value)
  | _ :: value => (line.takeWhile (· != ':'), value)

def Pending.set (p : Pending) (name value : List Char) : Pending :=
  if name = "event".toList then { p with name := some (String.ofList value) }
  else if name = "data".toList then
    { p with data := some (match p.data with
      | some data => data ++ "\n" ++ String.ofList value
      | none => String.ofList value) }
  else p

/-- Takes one line; a blank one ends the event. -/
def Pending.line (p : Pending) (line : List Char) : Option Event × Pending :=
  match line with
  | [] => (p.data.map fun data => ⟨p.name.getD "message", data⟩, {})
  | ':' :: _ => (none, p)
  | _ => (none, p.set (field line).1 (field line).2)

/-- The only way to fail: a line that is no text. -/
inductive LineError
  | notText
  deriving DecidableEq, Repr

def dropReturns (line : List Char) : List Char := (line.reverse.dropWhile (· == '\r')).reverse

/-- Takes a whole line, without its line feed. -/
def takeLine (p : Pending) (line rest : Bytes) : Step Pending Event LineError :=
  match Utf8.decode? line with
  | none => .fail .notText p rest
  | some text =>
    match p.line (dropReturns text.toList) with
    | (some event, p) => .item event p rest
    | (none, p) => .pass p rest

def step (atEnd : Bool) (p : Pending) (buffer : Bytes) : Step Pending Event LineError :=
  match Lines.take? atEnd buffer with
  | some (line, rest) => takeLine p line rest
  | none => .wait

def decoder : Decoder Pending Event LineError := ⟨{}, step⟩

end EventStream
end ControlPlane
