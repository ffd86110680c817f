import ControlPlane.Attach.Session
import ControlPlane.Attach.Transcript
import ControlPlane.Http.MediaType

/-! # Requests and responses -/
namespace ControlPlane.Http

structure Request where
  method : String
  path : String
  query : Option String := none
  /-- Names in lower case, in the order of the header lines. -/
  headers : List (String × String) := []
  body : Bytes := []
  /-- Whether the connection can be taken over after the response. -/
  canUpgrade : Bool := false
  deriving DecidableEq, Inhabited

namespace Request

def isVisible (c : Char) : Bool := c == '\t' || (' ' ≤ c && c ≤ '~')

/-- The lines of a header, those that are not plain text left out. -/
def headerLines (r : Request) (name : String) : List String :=
  (r.headers.filter fun h => h.1 == name && h.2.toList.all isVisible).map (·.2)

/-- The first line of a header, if it is plain text. -/
def firstLine (r : Request) (name : String) : Option String :=
  ((r.headers.find? (·.1 == name)).map (·.2)).filter (·.toList.all isVisible)

def hasJson (r : Request) : Bool :=
  ((r.firstLine "content-type").bind MediaType.parse?).any (·.isJson)

end Request

/-- The body of a response: bytes, the events of a subscription, the output of a job, or the
connection that an attached run takes over. -/
inductive Body (σ : Type)
  | bytes (bytes : Bytes)
  | changes (subscription : Nat)
  | log (format : LogFormat) (peer : Peer)
  | attached (session : AttachSession σ)

structure Response (σ : Type) where
  status : Nat
  headers : List (String × String) := []
  body : Body σ := .bytes []

end ControlPlane.Http
