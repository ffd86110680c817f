import ControlPlane.Incremental

/-! # Log frames

A host carries the two output streams of a job in frames on one byte stream: a tag, three bytes that
nobody reads, the length of the payload in four bytes, the most significant first, and the payload.
-/
namespace ControlPlane

inductive StreamKind
  | stdout | stderr
  deriving DecidableEq, Repr, Inhabited

namespace StreamKind

def ofTag? (tag : UInt8) : Option StreamKind :=
  if tag = 1 then some stdout else if tag = 2 then some stderr else none

def tag : StreamKind → UInt8
  | stdout => 1
  | stderr => 2

def name : StreamKind → String
  | stdout => "stdout"
  | stderr => "stderr"

end StreamKind

structure LogFrame where
  stream : StreamKind
  payload : Bytes
  deriving DecidableEq, Repr, Inhabited

/-- Why a byte stream is no sequence of frames, or cannot be carried on. -/
inductive FrameError
  | invalidStream (tag : UInt8)
  | tooLarge (size limit : Nat)
  | truncated (expected available : Nat)
  | encoding (reason : String)
  | io (reason : String)
  deriving DecidableEq, Repr

namespace FrameError

def message : FrameError → String
  | invalidStream tag => "invalid stream tag " ++ toString tag.toNat
  | tooLarge size limit =>
    "frame payload of " ++ toString size ++ " bytes exceeds limit of " ++ toString limit
  | truncated expected available =>
    "truncated frame: expected " ++ toString expected ++ " bytes, " ++
      toString available ++ " available"
  | encoding reason => "encode event: " ++ reason
  | io reason => "io error: " ++ reason

end FrameError

namespace LogFrame

def headerSize : Nat := 8

/-- The largest payload a reader takes. -/
def maxPayload : Nat := 16 * 1024 * 1024

def bigEndian (a b c d : UInt8) : Nat := ((a.toNat * 256 + b.toNat) * 256 + c.toNat) * 256 + d.toNat

def sizeBytes (n : Nat) : Bytes :=
  [UInt8.ofNat (n / 16777216), UInt8.ofNat (n / 65536), UInt8.ofNat (n / 256), UInt8.ofNat n]

/-- A frame's bytes; a payload whose length takes more than four bytes has none. -/
def encode (frame : LogFrame) : Except FrameError Bytes :=
  if frame.payload.length < UInt32.size then
    .ok (frame.stream.tag :: 0 :: 0 :: 0 :: sizeBytes frame.payload.length ++ frame.payload)
  else .error (.io "frame payload exceeds u32::MAX")

/-- Takes the frame at the front. A bad tag comes before a bad size, and at the end a frame that is
cut short is an error. -/
def step (atEnd : Bool) (_ : Unit) (buffer : Bytes) : Step Unit LogFrame FrameError :=
  match buffer with
  | [] => .wait
  | tag :: _ :: _ :: _ :: a :: b :: c :: d :: rest =>
    match StreamKind.ofTag? tag with
    | none => .fail (.invalidStream tag) () buffer
    | some stream =>
      let size := bigEndian a b c d
      if maxPayload < size then .fail (.tooLarge size maxPayload) () buffer
      else
        let payload := rest.take size
        if payload.length = size then .item ⟨stream, payload⟩ () (rest.drop size)
        else if atEnd then .fail (.truncated (headerSize + size) buffer.length) () buffer
        else .wait
  | _ => if atEnd then .fail (.truncated headerSize buffer.length) () buffer else .wait

def decoder : Decoder Unit LogFrame FrameError := ⟨(), step⟩

end LogFrame
end ControlPlane
