import ControlPlane.App
import ControlPlane.Formation
import ControlPlane.Http.Network
import ControlPlane.Job

/-! # The client of a controller: its address, its requests and its failures -/
namespace ControlPlane
open Json Http

inductive ClientError
  | notFound (url : String)
  | invalid (reason : String)
  | unexpectedStatus (method url : String) (status : Nat)
  | http (reason : String)
  | undecodable (reason : String)
  deriving DecidableEq, Repr

def ClientError.message : ClientError → String
  | notFound url => "not found: " ++ url
  | invalid reason => reason
  | unexpectedStatus method url status =>
    method ++ " " ++ url ++ ": unexpected status " ++ toString status
  | http reason => "http error: " ++ reason
  | undecodable reason => "decode error: " ++ reason

abbrev ClientAct (σ α : Type) := ExceptT ClientError (StateM σ) α

structure Client (σ : Type) where
  network : Network σ
  authority : String

namespace Client
variable {σ α : Type}

/-- The authority of a controller's URL; the path and what follows it do not matter. -/
def authorityOf (url : String) : Except ClientError String :=
  match Uri.parse? url with
  | none => .error (.invalid ("invalid controller url " ++ url))
  | some uri =>
    if uri.scheme.isSome && !uri.hasScheme "http"
      then .error (.invalid ("unsupported scheme in " ++ url))
    else match uri.authority with
      | none => .error (.invalid ("missing host in " ++ url))
      | some authority => .ok authority

def base (c : Client σ) : String := "http://" ++ c.authority

def connect (network : Network σ) (url : String) : Except ClientError (Client σ) :=
  (authorityOf url).map fun authority => { network, authority }

def send (c : Client σ) (method target : String) (headers : List (String × String)) (body : Bytes) :
    ClientAct σ (Reply σ) :=
  (c.network.send c.authority method target (("user-agent", "flotilla-client/0.1") :: headers)
    body).adapt .http

/-- Lets only a reply of the expected status pass. -/
def check (c : Client σ) (method target : String) (expected : Nat) (reply : Reply σ) :
    ClientAct σ (Reply σ) :=
  if reply.status = expected then return reply
  else if reply.status = 404 then throw (.notFound (c.base ++ target))
  else throw (.unexpectedStatus method (c.base ++ target) reply.status)

/-- A request that wants to be answered with 200. -/
def call (c : Client σ) (method target : String) (headers : List (String × String)) (body : Bytes) :
    ClientAct σ (Reply σ) := do
  c.check method target 200 (← c.send method target headers body)

def jsonHeader : String × String := ("content-type", "application/json")

def decoded (codec : Codec α) (bytes : Bytes) : Except ClientError α :=
  match codec.decode bytes with
  | .ok a => .ok a
  | .error _ => .error (.undecodable "unexpected reply")

def get (c : Client σ) (codec : Codec α) (target : String) : ClientAct σ α := do
  decoded codec (← c.call "GET" target [] []).body

def sendJson {β : Type} (c : Client σ) (method target : String) (input : Codec α) (a : α)
    (output : Codec β) :
    ClientAct σ β := do
  decoded output (← c.call method target [jsonHeader] (input.encode a)).body

def delete (c : Client σ) (target : String) : ClientAct σ Unit := do
  let _ ← c.call "DELETE" target [] []

end Client
end ControlPlane
