import ControlPlane.Text.Utf8

/-! # Lines of bytes that are still coming in -/
namespace ControlPlane.Lines

/-- The line at the front, without its line feed, and what follows it. At the end the rest is a
line, unless it is empty or a lone carriage return. -/
def take? (atEnd : Bool) (buffer : Bytes) : Option (Bytes × Bytes) :=
  match buffer.dropWhile (· != 0x0A) with
  | _ :: rest => some (buffer.takeWhile (· != 0x0A), rest)
  | [] => if !atEnd || buffer == [] || buffer == [0x0D] then none else some (buffer, [])

end ControlPlane.Lines
