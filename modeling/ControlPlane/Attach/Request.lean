import ControlPlane.Json.Record

/-! # Attach requests: which streams of a job to carry, and the size of the terminal -/
namespace ControlPlane
open Json

structure AttachFlags where
  bits : UInt8 := 0
  deriving DecidableEq, Repr, Inhabited

namespace AttachFlags

def stdout : AttachFlags := ⟨1⟩
def stderr : AttachFlags := ⟨2⟩
def stdin : AttachFlags := ⟨4⟩
/-- Output from before the attach is carried too. -/
def logs : AttachFlags := ⟨8⟩
/-- The attach stays open for what comes. -/
def stream : AttachFlags := ⟨16⟩

instance : OrOp AttachFlags := ⟨fun a b => ⟨a.bits ||| b.bits⟩⟩

def contains (a b : AttachFlags) : Bool := a.bits &&& b.bits == b.bits

def isEmpty (a : AttachFlags) : Bool := a.bits == 0

def names : List (AttachFlags × String) :=
  [(stdout, "STDOUT"), (stderr, "STDERR"), (stdin, "STDIN"), (logs, "LOGS"), (stream, "STREAM")]

def describe (a : AttachFlags) : String :=
  "AttachFlags(" ++
    String.intercalate " | " ((names.filter fun n => a.contains n.1).map (·.2)) ++ ")"

def codec : Codec AttachFlags := Codec.uint8.map bits mk

end AttachFlags

structure AttachRequest where
  job : String
  flags : AttachFlags
  width : UInt16 := 0
  height : UInt16 := 0
  deriving DecidableEq, Repr, Inhabited

def AttachRequest.record : Record AttachRequest where
  fields := [
    .required "job_id" AttachRequest.job .string,
    .required "flags" AttachRequest.flags AttachFlags.codec,
    .defaulting "width" AttachRequest.width .uint16 0,
    .defaulting "height" AttachRequest.height .uint16 0]
  build := fun (job, flags, width, height, ()) => ⟨job, flags, width, height⟩

def AttachRequest.codec : Codec AttachRequest := AttachRequest.record.codec

end ControlPlane
