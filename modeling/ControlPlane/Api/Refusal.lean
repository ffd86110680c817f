import ControlPlane.Dispatch
import ControlPlane.Feed
import ControlPlane.Http.Message

/-! # Refused requests

A request that cannot be read is refused in plain text, and one that fails with a message in JSON.
The status tells whose fault it is.
-/
namespace ControlPlane.Api

inductive Refusal
  | unreadable (status : Nat) (reason : String)
  | failed (status : Nat) (message : String)
  deriving DecidableEq, Repr

def statusOfStore : StoreError → Nat
  | .notFound _ => 404
  | .invalid _ | .typeMismatch .. => 400
  | .conflict _ => 409
  | _ => 500

def statusOfDispatch : DispatchError → Nat
  | .appNotFound _ | .releaseNotFound _ | .artifactNotFound _ | .processTypeNotFound
    .. | .hostNotFound _
  | .jobNotFound _ => 404
  | .invalidJobId _ => 400
  | .noEligibleHost => 503
  | .rejected _ | .hostFailure _ => 502
  | .store error => statusOfStore error
  | .attach _ => 500

namespace Refusal

def notFound (message : String) : Refusal := failed 404 message

def ofStore (error : StoreError) : Refusal := failed (statusOfStore error) error.message

def ofFeed : FeedError → Refusal
  | .store error => ofStore error
  | .closed => failed 503 FeedError.closed.message
  | .lagged => failed 500 FeedError.lagged.message

def ofDispatch (error : DispatchError) : Refusal := failed (statusOfDispatch error) error.message

def status : Refusal → Nat
  | unreadable status _ | failed status _ => status

def message : Refusal → String
  | unreadable _ message | failed _ message => message

def response {σ : Type} : Refusal → Http.Response σ
  | unreadable status reason =>
    { status
      headers := [("content-type", "text/plain; charset=utf-8")]
      body := .bytes (Utf8.encode reason) }
  | failed status message =>
    { status
      headers := [("content-type", "application/json")]
      body := .bytes (Json.render (.object [("error", .string message)])) }

end Refusal
end ControlPlane.Api
