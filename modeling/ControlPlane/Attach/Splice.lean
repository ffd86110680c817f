import ControlPlane.Cluster.Basic

/-! # Splices: a client's connection joined with a job's pipe

Two forwarders move bytes on their own: one from the client to the host, where the attach
carries input, and one from the host to the client. Each takes bytes from the pipe that its
writer fills, holds them, and passes them on to the pipe that its reader empties. The end of the
output settles the splice.
-/
namespace ControlPlane

/-- Why a forwarder broke off: an end of its pipes failed, or it was itself lost. -/
inductive Forward.Failure
  | io (reason : String)
  | lost (reason : String)
  deriving DecidableEq, Repr

/-- One direction of a splice. -/
structure Forward where
  /-- All that the writer has written. -/
  written : Bytes := []
  isClosed : Bool := false
  source : Bytes := []
  held : Bytes := []
  passed : Nat := 0
  sink : Bytes := []
  /-- All that the reader has read. -/
  received : Bytes := []
  readerGone : Bool := false
  /-- The count that it ended with, or why it broke off. -/
  outcome : Option (Except Forward.Failure Nat) := none
  deriving Repr, Inhabited

namespace Forward

def pipeSize : Nat := 64 * 1024

def write (bytes : Bytes) (f : Forward) : Forward :=
  if f.isClosed then f else { f with written := f.written ++ bytes, source := f.source ++ bytes }

def close (f : Forward) : Forward := { f with isClosed := true }

def isRunning (f : Forward) : Bool := f.outcome.isNone

def take (n : Nat) (f : Forward) : Forward :=
  if f.isRunning then { f with held := f.held ++ f.source.take n, source := f.source.drop n } else f

def breakOff (failure : Failure) (f : Forward) : Forward :=
  if f.isRunning then { f with outcome := some (.error failure) } else f

/-- Passes on as much as the pipe has room for; with the reader gone the forwarder breaks off. -/
def pass (n : Nat) (f : Forward) : Forward :=
  if !f.isRunning || f.held.isEmpty then f
  else if f.readerGone then f.breakOff (.io "broken pipe")
  else
    let part := f.held.take (min n (pipeSize - f.sink.length))
    { f with
      held := f.held.drop part.length
      sink := f.sink ++ part
      passed := f.passed + part.length }

def read (n : Nat) (f : Forward) : Forward :=
  if f.readerGone then f
    else { f with received := f.received ++ f.sink.take n, sink := f.sink.drop n }

def leave (f : Forward) : Forward := { f with readerGone := true }

/-- Passes the end on, once all before it has been. -/
def finish (f : Forward) : Forward :=
  if f.isRunning && f.isClosed && f.source.isEmpty && f.held.isEmpty
    then { f with outcome := some (.ok f.passed) }
  else f

/-- Whether the reader is at the end. -/
def isAtEnd (f : Forward) : Bool := f.outcome.isSome && f.sink.isEmpty

end Forward

structure AttachStats where
  bytesIn : Nat := 0
  bytesOut : Nat := 0
  deriving DecidableEq, Repr, Inhabited

structure Splice where
  carriesInput : Bool
  input : Forward := {}
  output : Forward := {}
  /-- The counts of a splice that ended well, or why it failed. -/
  result : Option (Except Forward.Failure AttachStats) := none
  deriving Repr, Inhabited

namespace Splice

/-- What a client, a host or a forwarder does next; amounts are upper bounds. -/
inductive Move
  | clientWrites (bytes : Bytes)
  | clientCloses
  | clientReads (n : Nat)
  | clientLeaves
  | hostWrites (bytes : Bytes)
  | hostCloses
  | hostReads (n : Nat)
  | hostLeaves
  | takeInput (n : Nat)
  | passInput (n : Nat)
  | endInput
  | breakInput (failure : Forward.Failure)
  | takeOutput (n : Nat)
  | passOutput (n : Nat)
  | endOutput
  | breakOutput (failure : Forward.Failure)
  | settle
  deriving Repr

/-- The result once the output has ended; the input counts only if it has ended well by then. -/
def settled (s : Splice) : Option (Except Forward.Failure AttachStats) :=
  s.output.outcome.map fun count => count.map fun bytesOut =>
    { bytesIn := if s.carriesInput then (s.input.outcome.bind Except.toOption).getD 0 else 0
      bytesOut }

/-- Any order of moves is possible. A splice is settled once; after that its input is broken off,
sooner or later, and what has been passed on can still be read. -/
def step (s : Splice) : Move → Splice
  | .clientWrites bytes => { s with input := s.input.write bytes }
  | .clientCloses => { s with input := s.input.close }
  | .clientReads n => { s with output := s.output.read n }
  | .clientLeaves => { s with output := s.output.leave }
  | .hostWrites bytes => { s with output := s.output.write bytes }
  | .hostCloses => { s with output := s.output.close }
  | .hostReads n => { s with input := s.input.read n }
  | .hostLeaves => { s with input := s.input.leave }
  | .takeInput n => if s.carriesInput then { s with input := s.input.take n } else s
  | .passInput n => if s.carriesInput then { s with input := s.input.pass n } else s
  | .endInput => if s.carriesInput then { s with input := s.input.finish } else s
  | .breakInput failure =>
    if s.carriesInput then { s with input := s.input.breakOff failure } else s
  | .takeOutput n => { s with output := s.output.take n }
  | .passOutput n => { s with output := s.output.pass n }
  | .endOutput => { s with output := s.output.finish }
  | .breakOutput failure => { s with output := s.output.breakOff failure }
  | .settle => if s.result.isSome then s else { s with result := s.settled }

def steps (s : Splice) (moves : List Move) : Splice := moves.foldl step s

/-- The host closes its side and goes, having written `output`. -/
def partWith (output : Bytes) : List Move := [.hostWrites output, .hostCloses, .hostLeaves]

/-- What a far end does next. -/
def movesOf (s : Splice) : Peer → List Move
  | .writes output => partWith output
  | .answers none output =>
    if s.input.isAtEnd then partWith (output ++ s.input.received)
      else [.hostReads s.input.sink.length]
  | .answers (some n) output =>
    if n ≤ s.input.received.length then partWith (output ++ s.input.received)
    else if s.input.isAtEnd then partWith []
    else [.hostReads (n - s.input.received.length)]
  | .holds => if s.input.isAtEnd then partWith [] else [.hostReads s.input.sink.length]

/-- Everyone moves once, the input first, as far as the pipes allow. -/
def round (peer : Peer) (s : Splice) : Splice :=
  let s := s.steps [.takeInput s.input.source.length, .passInput Forward.pipeSize, .endInput]
  let s := if s.output.isClosed then s else s.steps (s.movesOf peer)
  s.steps [.takeOutput s.output.source.length, .passOutput Forward.pipeSize,
    .clientReads Forward.pipeSize, .endOutput, .settle]

/-- Rounds until the splice is settled or the fuel is out. -/
def rounds (peer : Peer) : Nat → Splice → Splice
  | 0, s => s
  | fuel + 1, s => if s.result.isSome then s else rounds peer fuel (round peer s)

/-- A client that has written all it will write, and what it does then. -/
structure Client where
  written : Bytes := []
  halfCloses : Bool := false
  leaves : Bool := false
  deriving DecidableEq, Repr, Inhabited

def Client.moves (client : Client) : List Move :=
  .clientWrites client.written ::
    ((if client.halfCloses || client.leaves then [.clientCloses] else []) ++
      if client.leaves then [.clientLeaves] else [])

/-- As many rounds as a pipe needs to carry all bytes in either direction, and
some to begin and to end. -/
def roundsFor (peer : Peer) (client : Client) : Nat :=
  let output := match peer with
    | .writes output | .answers _ output => output.length
    | .holds => 0
  2 * (client.written.length + output) / Forward.pipeSize + 8

/-- Runs the splice of a client and a far end. It stays unsettled if both wait for each other. -/
def run (s : Splice) (peer : Peer) (client : Client) : Splice :=
  rounds peer (roundsFor peer client) (s.steps client.moves)

end Splice
end ControlPlane
