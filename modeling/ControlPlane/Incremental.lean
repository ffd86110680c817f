import ControlPlane.Text.Utf8

/-! # Incremental decoders

A decoder takes items off the front of a buffer that grows chunk by chunk, and learns when no more
will come. It may hold a state between two items, and once it has failed it takes nothing more.
-/
namespace ControlPlane

/-- What a decoder does with the bytes at hand: it takes an item, or bytes that complete none, or it
waits for more, or it fails. -/
inductive Step (σ α ε : Type)
  | item (a : α) (state : σ) (rest : Bytes)
  | pass (state : σ) (rest : Bytes)
  | wait
  | fail (error : ε) (state : σ) (rest : Bytes)

structure Decoder (σ α ε : Type) where
  start : σ
  step : (atEnd : Bool) → σ → Bytes → Step σ α ε

namespace Decoder
variable {σ α ε : Type}

/-- Where a decoder stands between two chunks. -/
structure Progress (σ ε : Type) where
  state : σ
  buffer : Bytes := []
  failure : Option ε := none

def initial (d : Decoder σ α ε) : Progress σ ε := { state := d.start }

/-- Steps until the decoder waits or fails; `seen` holds the items so far, the last first. -/
def drain (d : Decoder σ α ε) (atEnd : Bool) : Nat → List α → σ → Bytes → List α × Progress σ ε
  | 0, seen, state, buffer => (seen.reverse, ⟨state, buffer, none⟩)
  | fuel + 1, seen, state, buffer =>
    match d.step atEnd state buffer with
    | .item a state rest => drain d atEnd fuel (a :: seen) state rest
    | .pass state rest => drain d atEnd fuel seen state rest
    | .wait => (seen.reverse, ⟨state, buffer, none⟩)
    | .fail e state rest => (seen.reverse, ⟨state, rest, some e⟩)

/-- Every step but the last takes a byte at least. -/
def drainAll (d : Decoder σ α ε) (atEnd : Bool) (state : σ) (buffer : Bytes) :
    List α × Progress σ ε :=
  d.drain atEnd (buffer.length + 1) [] state buffer

def feed (d : Decoder σ α ε) (p : Progress σ ε) (chunk : Bytes) : List α × Progress σ ε :=
  if p.failure.isSome then ([], p) else d.drainAll false p.state (p.buffer ++ chunk)

def finish (d : Decoder σ α ε) (p : Progress σ ε) : List α × Progress σ ε :=
  if p.failure.isSome then ([], p) else d.drainAll true p.state p.buffer

/-- The items of the chunks and of the end after them, and the failure that stopped it, if any. -/
def run (d : Decoder σ α ε) (chunks : List Bytes) : List α × Option ε :=
  let (items, p) := chunks.foldl (fun (items, p) chunk =>
    let (more, p) := d.feed p chunk
    (items ++ more, p)) ([], d.initial)
  let (last, p) := d.finish p
  (items ++ last, p.failure)

end Decoder
end ControlPlane
