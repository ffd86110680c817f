import ControlPlane.Attach.Frame
import ControlPlane.EventStream
import ControlPlane.Http.Accept
import ControlPlane.Json.Value

/-! # Transcripts: a job's output as it is shown to a client

The bytes of the host pass through unchanged, or each frame becomes one event and a clean end one
more. A malformed frame ends the events and there is no last one.
-/
namespace ControlPlane

inductive LogFormat
  | raw
  | eventStream
  deriving DecidableEq, Repr

namespace LogFormat

def name : LogFormat → String
  | raw => "raw" | eventStream => "event-stream"

def eventStreamType : String := "text/event-stream"

/-- Events for those who accept them by name. -/
def negotiate (accept : Option String) : LogFormat :=
  if accept.any (Accept.names · eventStreamType) then eventStream else raw

def contentType : LogFormat → String
  | raw => "application/octet-stream"
  | eventStream => eventStreamType

end LogFormat

namespace Transcript

/-- The event of a frame: its stream and the text of its payload. -/
def frameData (frame : LogFrame) : Json.Value :=
  .object [("stream", .string frame.stream.name),
    ("data", .string (Utf8.decodeLossy frame.payload))]

def frameBlock (frame : LogFrame) : Bytes := EventStream.block none (Json.render (frameData frame))

def endBlock : Bytes := EventStream.block (some "eof") (Utf8.encode "{}")

/-- The event blocks of what the host wrote; `ended` tells that it wrote no more. -/
def blocks (output : Bytes) (ended : Bool) : List Bytes × Option FrameError :=
  let (frames, p) := LogFrame.decoder.feed LogFrame.decoder.initial output
  let blocks := frames.map frameBlock
  if p.failure.isSome || !ended then (blocks, p.failure)
  else match (LogFrame.decoder.finish p).2.failure with
    | some e => (blocks, some e)
    | none => (blocks ++ [endBlock], none)

/-- The body that a client gets, and the failure that cut it short. -/
def render (format : LogFormat) (output : Bytes) (ended : Bool) : Bytes × Option FrameError :=
  match format with
  | .raw => (output, none)
  | .eventStream => ((blocks output ended).1.flatten, (blocks output ended).2)

end Transcript
end ControlPlane
