import ControlPlane.Api.Loopback
import ControlPlane.Client.Basic
import ControlPlane.Proofs.Api.Route
import ControlPlane.Proofs.Api.Untouched
import ControlPlane.Proofs.Json.Record

/-! # One exchange of a client with a controller

A client of a served controller gets no further than its own request if the URL is too long or is
none. Otherwise the controller answers the route that it reads off the target, and the client passes
on an answer of status 200 and makes a failure of every other. A request with a method that goes
with no route read off its target changes nothing.
-/
namespace ControlPlane.Client
open Api Http Json
variable {σ : Type}

theorem connect_eq_ok {network : Network σ} {url : String} {c : Client σ}
    (h : connect network url = .ok c) :
    c.network = network ∧ Uri.IsAuthority c.authority.toList := by
  unfold connect authorityOf at h
  split at h
  · cases h
  next uri hparse =>
  split at h
  · cases h
  split at h
  · cases h
  next authority hauthority =>
  cases h
  exact ⟨rfl, Uri.isAuthority_of_parse? hparse hauthority⟩

/-- The URL of a target is not too long for a request. -/
def Fits (c : Client σ) (target : String) : Prop := (c.base ++ target).utf8ByteSize ≤ Uri.maxSize

instance (c : Client σ) (target : String) : Decidable (c.Fits target) :=
  inferInstanceAs (Decidable (_ ≤ _))

/-- What a reply of another status than 200 is to a client. -/
def refused (c : Client σ) (method target : String) (status : Nat) : ClientError :=
  if status = 404 then .notFound (c.base ++ target)
    else .unexpectedStatus method (c.base ++ target) status

/-- The request for a path and a query. -/
def request (c : Client σ) (method : String) (p : String × Option String)
    (headers : List (String × String)) (body : Bytes) : Request :=
  let headers := ("host", c.authority) :: ("user-agent", "flotilla-client/0.1") :: headers
  { method, path := p.1, query := p.2, headers, body, canUpgrade := headers.any (·.1 == "upgrade") }

section Exchange
variable {cluster : Cluster σ} {m : Moment} {url : String} {c : Client (Controller σ)}
  {k k' : Controller σ}
  {method target : String} {p : String × Option String} {headers : List (String × String)}
  {body bytes : Bytes}
  {rest : List Char} {response : Response σ} {refusal : Refusal}

theorem send_of_none (hc : connect (loopback cluster m) url = .ok c)
    (htarget : target.toList = '/' :: rest)
    (h : c.Fits target → Uri.pathAndQuery? target.toList = none) :
    c.send method target headers body k = (.error (.http "invalid uri character"), k) := by
  obtain ⟨hnetwork, hauthority⟩ := connect_eq_ok hc
  have hnone (headers : List (String × String)) :
      Request.ofUrl? method ("http://" ++ c.authority ++ target) headers body = none := by
    rw [Request.ofUrl?_base hauthority htarget]
    split
    · rfl
    · next hsize => rw [h (Nat.not_lt.1 hsize), Option.map_none]
  rw [send, Network.send, hnone]
  rfl

theorem send_of_some (hc : connect (loopback cluster m) url = .ok c)
    (htarget : target.toList = '/' :: rest) (hfits : c.Fits target)
    (hp : Uri.pathAndQuery? target.toList = some p) :
    c.send method target headers body k =
      let (response, k) := handle cluster m (c.request method p headers body) k
      let (reply, k) := reply response k
      (.ok reply, k) := by
  obtain ⟨hnetwork, hauthority⟩ := connect_eq_ok hc
  have hsize : ¬ Uri.maxSize < ("http://" ++ c.authority ++ target).utf8ByteSize :=
    Nat.not_lt.2 hfits
  rw [send, Network.send, Request.ofUrl?_base hauthority htarget, if_neg hsize, hp, hnetwork]
  rfl

/-- An answer whose body is there at once is the reply. -/
theorem call_of_handle (hc : connect (loopback cluster m) url = .ok c)
    (htarget : target.toList = '/' :: rest) (hfits : c.Fits target)
    (hp : Uri.pathAndQuery? target.toList = some p)
    (h : handle cluster m (c.request method p headers body) k = (response, k'))
    (hbytes : response.body = .bytes bytes) :
    c.call method target headers body k =
      if response.status = 200 then (.ok { status := 200, body := bytes }, k')
      else (.error (c.refused method target response.status), k') := by
  have hsend : c.send method target headers body k =
      (.ok { status := response.status, body := bytes }, k') := by
    rw [send_of_some hc htarget hfits hp, h]
    simp only [reply, hbytes]
    rfl
  rw [call, bind_of_ok hsend, check, refused]
  by_cases hstatus : response.status = 200
  · simp only [hstatus, if_true]
    rfl
  · simp only [if_neg hstatus]
    split <;> rfl

theorem call_of_ok (hc : connect (loopback cluster m) url = .ok c)
    (htarget : target.toList = '/' :: rest) (hmethod : method ≠ "HEAD") (hfits : c.Fits target)
    (hp : Uri.pathAndQuery? target.toList = some p)
    (h : route cluster m (c.request method p headers body) k = (.ok response, k'))
    (hbytes : response.body = .bytes bytes) :
    c.call method target headers body k =
      if response.status = 200 then (.ok { status := 200, body := bytes }, k')
      else (.error (c.refused method target response.status), k') := by
  refine call_of_handle hc htarget hfits hp ?_ hbytes
  have hrun : (route cluster m (c.request method p headers body)).run k = (.ok response, k') := h
  rw [handle, hrun]
  exact if_neg hmethod

theorem call_of_error (hc : connect (loopback cluster m) url = .ok c)
    (htarget : target.toList = '/' :: rest) (hmethod : method ≠ "HEAD") (hfits : c.Fits target)
    (hp : Uri.pathAndQuery? target.toList = some p)
    (h : route cluster m (c.request method p headers body) k = (.error refusal, k'))
    (hstatus : refusal.status ≠ 200) :
    c.call method target headers body k =
      (.error (c.refused method target refusal.status), k') := by
  obtain ⟨bytes, hbytes⟩ := Refusal.response_body (σ := σ) refusal
  have hsame : (refusal.response : Response σ).status = refusal.status := by cases refusal <;> rfl
  have hhandle : handle cluster m (c.request method p headers body) k = (refusal.response, k') := by
    have hrun : (route cluster m (c.request method p headers body)).run k = (.error refusal, k') :=
      h
    rw [handle, hrun]
    exact if_neg hmethod
  rw [call_of_handle hc htarget hfits hp hhandle hbytes, hsame, if_neg hstatus]

/-- A URL that is none is not asked for. -/
theorem call_of_none (hc : connect (loopback cluster m) url = .ok c)
    (htarget : target.toList = '/' :: rest)
    (h : c.Fits target → Uri.pathAndQuery? target.toList = none) :
    c.call method target headers body k = (.error (.http "invalid uri character"), k) := by
  rw [call, bind_of_error (send_of_none hc htarget h)]

/-- A request whose method goes with no route read off its target finds none, or
fails, and changes nothing. -/
theorem route_of_not_allowed (hp : Uri.pathAndQuery? target.toList = some p)
    (h : ∀ route, Route.ofTarget? target = some route → route.allows method = false) :
    (∃ status, status ≠ 200 ∧
      route cluster m (c.request method p headers body) = return { status }) ∨
      ∃ refusal, refusal.status ≠ 200 ∧
        route cluster m (c.request method p headers body) = throw refusal := by
  unfold route
  split
  · exact .inl ⟨404, by decide, rfl⟩
  next found hpath =>
  split
  · exact .inl ⟨405, by decide, rfl⟩
  next hallows =>
  split
  · exact .inr ⟨_, by decide, rfl⟩
  next decoded hdecode =>
  have hread : Route.ofTarget? target = some decoded := by
    simp only [Route.ofTarget?, hp, Option.bind_eq_bind, Option.bind_some,
      show Route.ofPath? p.1 = some found from hpath, hdecode]
  have hnot := h decoded hread
  rw [Route.allows, Route.methods_of_decode? hdecode, ← Route.allows] at hnot
  simp [request, hnot] at hallows

/-- A call whose method goes with no route that is read off its target fails and changes nothing. -/
theorem call_of_not_allowed (hc : connect (loopback cluster m) url = .ok c)
    (htarget : target.toList = '/' :: rest) (hmethod : method ≠ "HEAD")
    (h : ∀ route, Route.ofTarget? target = some route → route.allows method = false) :
    ∃ e, c.call method target headers body k = (.error e, k) := by
  by_cases hfits : c.Fits target
  swap
  · exact ⟨_, call_of_none hc htarget fun hfits' => absurd hfits' hfits⟩
  cases hp : Uri.pathAndQuery? target.toList with
  | none => exact ⟨_, call_of_none hc htarget fun _ => hp⟩
  | some p =>
    obtain ⟨status, hstatus, hroute⟩ | ⟨refusal, hstatus, hroute⟩ := route_of_not_allowed hp h
    · have hcall := call_of_ok hc htarget hmethod hfits hp (congrFun hroute k) rfl
      rw [if_neg hstatus] at hcall
      exact ⟨_, hcall⟩
    · exact ⟨_, call_of_error hc htarget hmethod hfits hp (congrFun hroute k) hstatus⟩

/-- A controller answers the route that it reads off the target, if the method goes with it. -/
theorem exists_answer {found : Route} (hread : Route.ofTarget? target = some found)
    (hallows : found.allows method = true) :
    ∃ p, Uri.pathAndQuery? target.toList = some p ∧
      ∀ (headers : List (String × String)) (body : Bytes),
      route cluster m (c.request method p headers body) =
        answer cluster m (c.request method p headers body) found := by
  simp only [Route.ofTarget?, Option.bind_eq_bind, Option.bind_eq_some_iff] at hread
  obtain ⟨p, hp, written, hpath, hdecode⟩ := hread
  refine ⟨p, hp, fun headers body => ?_⟩
  have hpath : Route.ofPath? (c.request method p headers body).path = some written := hpath
  have hallows : written.allows (c.request method p headers body).method = true := by
    rwa [Route.allows, Route.methods_of_decode? hdecode] at hallows
  simp [route, hpath, hallows, hdecode]

end Exchange

/-! ## What an answer tells -/

/-- An answer tells of a result, a failure by its status, and leaves the
controller as the result does. -/
inductive Tells {α : Type} (read : Bytes → Except ClientError α) :
    Except Nat α × Controller σ → Except Refusal (Response σ) × Controller σ → Prop
  | ok {a : α} {response : Response σ} {bytes : Bytes} {k : Controller σ}
      (hstatus : response.status = 200)
      (hbody : response.body = .bytes bytes) (hread : read bytes = .ok a) :
      Tells read (.ok a, k) (.ok response, k)
  | error {refusal : Refusal} {k : Controller σ} (hstatus : refusal.status ≠ 200) :
      Tells read (.error refusal.status, k) (.error refusal, k)

namespace Tells
variable {α β : Type} {k k' : Controller σ} {read : Bytes → Except ClientError α}
  {result : Except Nat α × Controller σ}

theorem json {codec : Codec α} {a : α} (h : read (codec.encode a) = .ok a) (k : Controller σ) :
    Tells read (.ok a, k) (.ok (Api.json codec a), k) :=
  .ok rfl rfl h

theorem done (k : Controller σ) : Tells (fun _ => .ok ()) (.ok (), k) (.ok Api.done, k) :=
  .ok rfl rfl rfl

theorem of_ok {x : Act σ β} {b : β} {f : β → Act σ (Response σ)} (h : x k = (.ok b, k'))
    (htells : Tells read result (f b k')) : Tells read result ((x >>= f) k) := by
  rwa [bind_of_ok h]

theorem of_error {x : Act σ β} {refusal : Refusal} {f : β → Act σ (Response σ)}
    (h : x k = (.error refusal, k')) (hstatus : refusal.status ≠ 200) :
    Tells read (.error refusal.status, k') ((x >>= f) k) := by
  rw [bind_of_error h]
  exact .error hstatus

end Tells

/-- A client learns the result that the answer to its request tells of. -/
theorem call_of_tells {cluster : Cluster σ} {m : Moment} {url : String} {c : Client (Controller σ)}
    {k : Controller σ} {method target : String} {p : String × Option String}
    {headers : List (String × String)} {body : Bytes} {rest : List Char} {α : Type}
    {read : Bytes → Except ClientError α} {result : Except Nat α × Controller σ}
    (hc : connect (loopback cluster m) url = .ok c) (htarget : target.toList = '/' :: rest)
    (hmethod : method ≠ "HEAD") (hfits : c.Fits target)
    (hp : Uri.pathAndQuery? target.toList = some p)
    (h : Tells read result (route cluster m (c.request method p headers body) k)) :
    (do read (← c.call method target headers body).body : ClientAct (Controller σ) α) k =
      (result.1.mapError (c.refused method target), result.2) := by
  generalize hroute : route cluster m (c.request method p headers body) k = answered at h
  cases h with
  | ok hstatus hbody hread =>
    have hcall := call_of_ok hc htarget hmethod hfits hp hroute hbody
    rw [if_pos hstatus] at hcall
    rw [bind_of_ok hcall]
    dsimp only
    rw [hread]
    rfl
  | error hstatus =>
    rw [bind_of_error (call_of_error hc htarget hmethod hfits hp hroute hstatus)]
    rfl

end ControlPlane.Client
