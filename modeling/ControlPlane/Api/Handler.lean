import ControlPlane.Api.Delivery
import ControlPlane.Api.Refusal
import ControlPlane.Api.Route

/-! # Answers to requests

A request goes to the route of its path and is answered by one response.
-/
namespace ControlPlane.Api
open Http Json
variable {σ α : Type}

abbrev Act (σ α : Type) := ExceptT Refusal (StateM (Controller σ)) α

/-! ## Acting on the controller -/

def look (f : Store → Except StoreError α) : Act σ α := do
  match f (← get).store with
  | .ok a => return a
  | .error e => throw (.ofStore e)

def change (f : Store → Except StoreError (α × Store)) : Act σ α := do
  match f (← get).store with
  | .ok (a, store) => modify ({ · with store }); return a
  | .error e => throw (.ofStore e)

def changeFed (f : Feed → Store → Except FeedError (α × Store × Feed)) : Act σ α := do
  let c ← get
  match f c.feed c.store with
  | .ok (a, store, feed) => set { c with store, feed }; return a
  | .error e => throw (.ofFeed e)

def dispatch (act : Store → DispatchAct σ α) : Act σ α := fun c =>
  match (act c.store).run c.world with
  | (.ok a, world) => (.ok a, { c with world })
  | (.error e, world) => (.error (.ofDispatch e), { c with world })

def found (a : Option α) (message : String) : Act σ α :=
  match a with
  | some a => return a
  | none => throw (.notFound message)

/-! ## Reading requests and writing responses -/

/-- The largest body of a record. -/
def maxRecord : Nat := 2 * 1024 * 1024

/-- The largest body of a request for a job. -/
def maxJob : Nat := 1024 * 1024

def readJson (codec : Codec α) (r : Request) : Act σ α :=
  if !r.hasJson then throw (.unreadable 415 "Expected request with content-type application/json")
  else if maxRecord < r.body.length then throw (.unreadable 413 "Request body too large")
  else match codec.decode r.body with
    | .ok a => return a
    | .error .malformed => throw (.unreadable 400 "Failed to parse the request body as JSON")
    | .error .mismatch =>
      throw (.unreadable 422 "Failed to deserialize the JSON body into the target type")

def patchCodec : Codec (Dict Value) := Codec.dict ⟨id, Reader.value (Reader.maxDepth - 1)⟩

def json (codec : Codec α) (a : α) : Response σ :=
  { status := 200
    headers := [("content-type", "application/json")]
    body := .bytes (codec.encode a) }

def done : Response σ := { status := 200 }

def occurrence (r : Request) (name : String) : Percent.Occurrence :=
  Percent.occurrence (r.query.getD "") name

def badQuery : Refusal := .unreadable 400 "Failed to deserialize query string"

/-- The flag `follow` of a query, false where it is absent. -/
def followFlag (r : Request) : Act σ Bool :=
  match occurrence r "follow" with
  | .absent => return false
  | .once "true" => return true
  | .once "false" => return false
  | _ => throw badQuery

/-- The instant `since` of a query, the epoch where it is absent. -/
def sinceInstant (r : Request) : Act σ Instant :=
  match occurrence r "since" with
  | .absent => return .epoch
  | .once value =>
    match Rfc3339.parse? value with
    | some t => return t
    | none => throw badQuery
  | .repeated => throw badQuery

/-! ## Jobs -/

def attachType : String := "application/vnd.flynn.attach"
def attachProtocol : String := "flotilla-attach"

/-- Whether any line of the Accept header names the attached form. -/
def wantsAttach (r : Request) : Bool := (r.headerLines "accept").any (Accept.names · attachType)

def readJob (r : Request) : Act σ NewJob :=
  if maxJob < r.body.length
    then throw (.failed 400 "failed to read job request: length limit exceeded")
  else match NewJob.codec.decode r.body with
    | .ok job => return job
    | .error _ => throw (.failed 400 "invalid job request: not a job")

/-- A run is attached only over a connection that can be taken over, which is known
before a job is placed. -/
def runJob (cluster : Cluster σ) (r : Request) (app : String) : Act σ (Response σ) := do
  let job ← readJob r
  if wantsAttach r then
    if !r.canUpgrade then throw (.failed 400 "attached run requires a connection upgrade")
    match ← dispatch fun s => Dispatch.run s cluster app job true with
    | (_, some session) =>
      return {
        status := 101
        headers :=
          [("connection", "upgrade"), ("upgrade", attachProtocol), ("content-type", attachType)]
        body := .attached session }
    | (_, none) => throw (.failed 500 "attach session missing")
  else
    let (job, _) ← dispatch fun s => Dispatch.run s cluster app job false
    return json Job.codec job

/-- The form of a log is chosen by the first line of the Accept header. -/
def jobLog (cluster : Cluster σ) (r : Request) (app job : String) : Act σ (Response σ) := do
  let follow ← followFlag r
  let format := LogFormat.negotiate (r.firstLine "accept")
  let session ← dispatch fun s => Dispatch.openLog s cluster app job follow
  match session.intoOutput with
  | .ok (peer, _) =>
    return {
      status := 200
      headers := [("content-type", format.contentType), ("cache-control", "no-cache")]
      body := .log format peer }
  | .error e => throw (.failed 500 e.message)

/-! ## Routes -/

def subscribe (r : Request) : Act σ (Response σ) := do
  let since ← sinceInstant r
  let c ← get
  match c.feed.subscribe c.store since with
  | .error e => throw (.ofFeed e)
  | .ok (id, feed) =>
    set { c with feed }
    return {
      status := 200
      headers := [("content-type", LogFormat.eventStreamType), ("cache-control", "no-cache")]
      body := .changes id }

def setAppRelease (m : Moment) (r : Request) (app : String) : Act σ (Response σ) := do
  let release ← readJson Release.codec r
  if release.id.isEmpty then throw (.failed 400 "missing release id")
  change fun s => (s.setAppRelease m app release.id).map ((), ·)
  return done

/-- The path says which formation is written, and not the body. -/
def putFormation (m : Moment) (r : Request) (app release : String) : Act σ (Response σ) := do
  let formation ← readJson Formation.codec r
  return json Formation.codec (← changeFed fun feed s =>
    feed.putFormation s m { formation with app, release })

def answer (cluster : Cluster σ) (m : Moment) (r : Request) : Route → Act σ (Response σ)
  | .apps => do
    if r.method = "POST" then
      let app ← readJson App.codec r
      return json App.codec (← change (·.createApp m app))
    else return json App.codec.list (← get).store.listApps
  | .app app => do
    if r.method = "PATCH" then
      let patch ← readJson patchCodec r
      return json App.codec (← change (·.updateApp m app patch))
    else if r.method = "DELETE" then
      if ← change fun s => .ok (s.deleteApp m app) then return done
      else throw (.notFound ("app not found: " ++ app))
    else return json App.codec (← found ((← get).store.getApp? app) ("app not found: " ++ app))
  | .appRelease app => do
    if r.method = "PUT" then setAppRelease m r app
    else
      return json Release.codec
        (← found (← look (·.getAppRelease app)) ("app " ++ app ++ " has no release"))
  | .formations app => do return json Formation.codec.list (← look (·.listFormations app))
  | .formation app release => do
    if r.method = "PUT" then putFormation m r app release
    else
      let missing := "formation not found: " ++ app ++ "/" ++ release
      if r.method = "DELETE" then
        if ← changeFed fun feed s => feed.deleteFormation s m app release then return done
        else throw (.notFound missing)
      else return json Formation.codec (← found ((← get).store.getFormation? app release) missing)
  | .jobs app => do
    if r.method = "POST" then runJob cluster r app
    else return json Job.codec.list (← dispatch fun s => Dispatch.listJobs s cluster app)
  | .job app job => do
    dispatch fun s => Dispatch.kill s cluster app job
    return done
  | .jobLog app job => jobLog cluster r app job
  | .releases => do
    let release ← readJson Release.codec r
    return json Release.codec (← change (·.createRelease m release))
  | .release id => do
    return json Release.codec (← found ((← get).store.getRelease? id) ("release not found: " ++ id))
  | .artifacts => do
    let artifact ← readJson Artifact.codec r
    return json Artifact.codec (← change (·.createArtifact m artifact))
  | .artifact id => do
    return json Artifact.codec
      (← found ((← get).store.getArtifact? id) ("artifact not found: " ++ id))
  | .changes => subscribe r

/-- A path that names nothing is not found, and a method that does not go with it is not allowed. -/
def route (cluster : Cluster σ) (m : Moment) (r : Request) : Act σ (Response σ) :=
  match Route.ofPath? r.path with
  | none => return { status := 404 }
  | some route =>
    if !route.allows r.method then return { status := 405 }
    else match route.decode? with
      | none => throw (.unreadable 400 "Invalid UTF-8 in path")
      | some route => answer cluster m r route

/-- The response to a request; one for the head alone has no body. -/
def handle (cluster : Cluster σ) (m : Moment) (r : Request) : StateM (Controller σ) (Response σ) :=
  fun c =>
  let (result, c) := (route cluster m r).run c
  let response := match result with
    | .ok response => response
    | .error refusal => refusal.response
  if r.method = "HEAD" then ({ response with body := .bytes [] }, closeBody response.body c)
    else (response, c)

end ControlPlane.Api
