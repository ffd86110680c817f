import ControlPlane.Http.Message
import ControlPlane.Http.Uri

/-! # Networks: requests to far ends and their replies

A network carries a request to an authority, or says why nobody answered. What comes back has a head
and as much of the body as came with it; a body that goes on is taken from later.
-/
namespace ControlPlane.Http
variable {σ τ α ε : Type}

/-- Takes the bytes that have come since the last look, and tells whether they were the last. -/
abbrev Tap (σ : Type) := StateM σ (Bytes × Bool)

structure Reply (σ : Type) where
  status : Nat
  body : Bytes := []
  /-- The rest of a body that has not ended. -/
  rest : Option (Tap σ) := none
  /-- The far end of a connection that the two sides go on to use as a pipe. -/
  peer : Option Peer := none

structure Network (σ : Type) where
  exchange : (authority : String) → Request → ExceptT String (StateM σ) (Reply σ)

/-- A network on which nobody answers. -/
def Network.unreachable : Network σ := ⟨fun _ _ => throw "connection refused"⟩

/-- The request for a URL, if the text is one. -/
def Request.ofUrl? (method url : String) (headers : List (String × String)) (body : Bytes) :
    Option Request := do
  let uri ← Uri.parse? url
  return {
    method
    path := if uri.path.isEmpty then "/" else uri.path
    query := uri.query
    headers
    body
    canUpgrade := headers.any (·.1 == "upgrade") }

/-- Sends a request for a target below an authority. -/
def Network.send (network : Network σ) (authority method target : String)
    (headers : List (String × String)) (body : Bytes) : ExceptT String (StateM σ) (Reply σ) :=
  match Request.ofUrl? method ("http://" ++ authority ++ target)
    (("host", authority) :: headers) body with
  | some request => network.exchange authority request
  | none => throw "invalid uri character"

/-- The body of a reply on its way through a decoder. -/
structure Incoming (σ τ α ε : Type) where
  decoder : Decoder τ α ε
  progress : Decoder.Progress τ ε
  /-- What has come and has not been decoded. -/
  body : Bytes
  rest : Option (Tap σ)

namespace Incoming

def ofReply (decoder : Decoder τ α ε) (reply : Reply σ) : Incoming σ τ α ε :=
  { decoder, progress := decoder.initial, body := reply.body, rest := reply.rest }

def arrived (i : Incoming σ τ α ε) : StateM σ (Bytes × Bool) := do
  match i.rest with
  | none => return (i.body, true)
  | some tap =>
    let (more, ended) ← tap
    return (i.body ++ more, ended)

/-- The items that have come, then the failure that ends them if there is one, and
whether this is the end. -/
def take (i : Incoming σ τ α ε) : StateM σ (List (Except ε α) × Bool × Incoming σ τ α ε) := do
  let (bytes, ended) ← i.arrived
  let (items, p) := i.decoder.feed i.progress bytes
  let (last, p) := if ended then i.decoder.finish p else ([], p)
  let failure := if i.progress.failure.isSome then none else p.failure
  let isOver := ended || p.failure.isSome
  return ((items ++ last).map .ok ++ (failure.map .error).toList, isOver,
    { i with progress := p, body := [], rest := if isOver then none else i.rest })

end Incoming
end ControlPlane.Http
