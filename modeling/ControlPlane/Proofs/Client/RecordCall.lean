import ControlPlane.Client.Calls
import ControlPlane.Proofs.Client.Exchange
import ControlPlane.Proofs.Records

/-! # Calls about one record

Each call about a record or a job has an operation of the store, of the feed or of the dispatcher
that it stands for. The answer of a controller to the route of the call tells of what that
operation gives, and leaves what it leaves; so a call whose route a controller reads off its target
does what its operation does.
-/
namespace ControlPlane
open Api Client Http Json
variable {σ : Type}

/-- What a client asks about one app, release, formation or job. -/
inductive RecordCall
  | getApp (app : String)
  | deleteApp (app : String)
  | setAppRelease (app release : String)
  | getRelease (id : String)
  | getFormation (app release : String)
  | putFormation (formation : Formation)
  | deleteFormation (app release : String)
  | killJob (app job : String)
  | runJob (app : String) (job : NewJob)

namespace RecordCall

abbrev Result : RecordCall → Type
  | getApp _ => App
  | getRelease _ => Release
  | getFormation .. | putFormation _ => Formation
  | runJob .. => Job
  | deleteApp _ | setAppRelease .. | deleteFormation .. | killJob .. => Unit

def perform (c : Client σ) : (call : RecordCall) → ClientAct σ call.Result
  | getApp app => c.getApp app
  | deleteApp app => c.deleteApp app
  | setAppRelease app release => c.setAppRelease app release
  | getRelease id => c.getRelease id
  | getFormation app release => c.getFormation app release
  | putFormation formation => c.putFormation formation
  | deleteFormation app release => c.deleteFormation app release
  | killJob app job => c.killJob app job
  | runJob app job => c.runJob app job

/-! ## What a call stands for -/

def found {α : Type} : Option α → Except Nat α
  | some a => .ok a
  | none => .error 404

def removed (there : Bool) : Except Nat Unit := if there then .ok () else .error 404

/-- The controller with the store that an operation leaves. -/
def stored (k : Controller σ) : Except StoreError Store → Except Nat Unit × Controller σ
  | .ok store => (.ok (), { k with store })
  | .error e => (.error (statusOfStore e), k)

/-- The controller with the store and the feed that an operation leaves. -/
def fed {α : Type} (k : Controller σ) :
    Except FeedError (α × Store × Feed) → Except Nat α × Controller σ
  | .ok (a, store, feed) => (.ok a, { k with store, feed })
  | .error e => (.error (Refusal.ofFeed e).status, k)

/-- What the operation that a call stands for gives and leaves. A failure is told by its status, and
a record that is not there by the status 404. -/
def outcome (cluster : Cluster σ) (m : Moment) (k : Controller σ) :
    (call : RecordCall) → Except Nat call.Result × Controller σ
  | getApp app => (found (k.store.getApp? app), k)
  | deleteApp app =>
    let out := k.store.deleteApp m app
    (removed out.1, { k with store := out.2 })
  | setAppRelease app release => stored k (k.store.setAppRelease m app release)
  | getRelease id => (found (k.store.getRelease? id), k)
  | getFormation app release => (found (k.store.getFormation? app release), k)
  | putFormation formation => fed k (k.feed.putFormation k.store m formation)
  | deleteFormation app release =>
    let out := fed k (k.feed.deleteFormation k.store m app release)
    (out.1.bind removed, out.2)
  | killJob app job =>
    let out := (Dispatch.kill k.store cluster app job).run k.world
    (out.1.mapError statusOfDispatch, { k with world := out.2 })
  | runJob app job =>
    let out := (Dispatch.run k.store cluster app job false).run k.world
    ((out.1.map (·.1)).mapError statusOfDispatch, { k with world := out.2 })

/-! ## The request for a call -/

def method : RecordCall → String
  | getApp _ | getRelease _ | getFormation .. => "GET"
  | deleteApp _ | deleteFormation .. | killJob .. => "DELETE"
  | setAppRelease .. | putFormation _ => "PUT"
  | runJob .. => "POST"

/-- The route that leads to what a call asks about. -/
def route : RecordCall → Route
  | getApp app | deleteApp app => .app app
  | setAppRelease app _ => .appRelease app
  | getRelease id => .release id
  | getFormation app release | deleteFormation app release => .formation app release
  | putFormation formation => .formation formation.app formation.release
  | killJob app job => .job app job
  | runJob app _ => .jobs app

def headers : RecordCall → List (String × String)
  | setAppRelease .. | putFormation _ | runJob .. => [jsonHeader]
  | _ => []

def body : RecordCall → Bytes
  | setAppRelease _ release => render (.object [("id", .string release)])
  | putFormation formation => Formation.codec.encode formation
  | runJob _ job => NewJob.codec.encode job
  | _ => []

/-- The texts that the body of a request may be written in. -/
def Spells : RecordCall → Bytes → Prop
  | putFormation formation, request => Formation.codec.Spells formation request
  | runJob _ job, request => NewJob.codec.Spells job request
  | call, request => request = call.body

theorem spells_body (call : RecordCall) : call.Spells call.body := by
  cases call with
  | putFormation formation => exact Formation.codec.spells_encode formation
  | runJob app job => exact NewJob.codec.spells_encode job
  | _ => rfl

/-- How much a controller reads of the body of a call. -/
def limit : RecordCall → Nat
  | runJob .. => maxJob
  | _ => maxRecord

/-- What is read off the body of a reply. -/
def read : (call : RecordCall) → Bytes → Except ClientError call.Result
  | getApp _ => decoded App.codec
  | getRelease _ => decoded Release.codec
  | getFormation .. | putFormation _ => decoded Formation.codec
  | runJob .. => decoded Job.codec
  | deleteApp _ | setAppRelease .. | deleteFormation .. | killJob .. => fun _ => .ok ()

/-- What makes of the text of each reply one that its record may also be written in. -/
def Respells : RecordCall → (Bytes → Bytes) → Prop
  | getApp _, respell => ∀ a, App.codec.Spells a (respell (App.codec.encode a))
  | getRelease _, respell => ∀ r, Release.codec.Spells r (respell (Release.codec.encode r))
  | getFormation .., respell | putFormation _, respell =>
    ∀ f, Formation.codec.Spells f (respell (Formation.codec.encode f))
  | runJob .., respell => ∀ j, Job.codec.Spells j (respell (Job.codec.encode j))
  | deleteApp _, _ | setAppRelease .., _ | deleteFormation .., _ | killJob .., _ => True

theorem respells_id (call : RecordCall) : call.Respells id := by
  cases call with
  | getApp => exact App.codec.spells_encode
  | getRelease => exact Release.codec.spells_encode
  | getFormation | putFormation => exact Formation.codec.spells_encode
  | runJob => exact Job.codec.spells_encode
  | _ => trivial

/-- Nothing is sent for a formation that lacks one of its identifiers. -/
def IsSent : RecordCall → Prop
  | putFormation formation => formation.app ≠ "" ∧ formation.release ≠ ""
  | _ => True

/-- No app is set to a release with an empty identifier. -/
def IsTaken : RecordCall → Prop
  | setAppRelease _ release => release ≠ ""
  | _ => True

instance : DecidablePred IsSent
  | putFormation _ => inferInstanceAs (Decidable (_ ∧ _))
  | getApp _ | deleteApp _ | setAppRelease .. | getRelease _ | getFormation ..
  | deleteFormation .. | killJob .. | runJob .. => .isTrue trivial

/-- The request for a call is sent, is not too large, and is taken. -/
structure IsCarried (c : Client σ) (call : RecordCall) (request : Bytes) : Prop where
  sent : call.IsSent
  fits : c.Fits call.route.target
  size : request.length ≤ call.limit
  taken : call.IsTaken

/-- A call with the body of its request, and the text of its reply, spelled in another way. -/
def performAs (c : Client σ) (call : RecordCall) (request : Bytes) (respell : Bytes → Bytes) :
    ClientAct σ call.Result :=
  if call.IsSent then do
    call.read (respell (← c.call call.method call.route.target call.headers request).body)
  else throw (.invalid "missing app id and/or release id")

theorem allows_method (call : RecordCall) : call.route.allows call.method = true := by
  cases call <;> rfl

theorem method_ne_head (call : RecordCall) : call.method ≠ "HEAD" := by
  cases call <;> simp [method]

theorem exists_target (call : RecordCall) : ∃ rest, call.route.target.toList = '/' :: rest := by
  rw [Route.toList_target]
  cases call <;> exact ⟨_, rfl⟩

/-! ## Targets -/

private theorem appTarget_eq (app : String) : appTarget app = (Route.app app).target := by
  rw [← String.toList_inj, Route.toList_target]
  simp [appTarget, Route.segments, Segments.joined]

private theorem appReleaseTarget_eq (app : String) :
    appReleaseTarget app = (Route.appRelease app).target := by
  rw [← String.toList_inj, Route.toList_target]
  simp [appReleaseTarget, appTarget, Route.segments, Segments.joined]

private theorem formationTarget_eq (app release : String) :
    formationTarget app release = (Route.formation app release).target := by
  rw [← String.toList_inj, Route.toList_target]
  simp [formationTarget, formationsTarget, appTarget, Route.segments, Segments.joined]

private theorem jobsTarget_eq (app : String) : jobsTarget app = (Route.jobs app).target := by
  rw [← String.toList_inj, Route.toList_target]
  simp [jobsTarget, appTarget, Route.segments, Segments.joined]

private theorem jobTarget_eq (app job : String) :
    jobTarget app job = (Route.job app job).target := by
  rw [← String.toList_inj, Route.toList_target]
  simp [jobTarget, jobsTarget, appTarget, Route.segments, Segments.joined]

private theorem releaseTarget_eq (id : String) :
    "/releases/" ++ id = (Route.release id).target := by
  rw [← String.toList_inj, Route.toList_target]
  simp [Route.segments, Segments.joined]

/-- A call that is sent is the request for its route, whose reply it reads. -/
theorem perform_of_sent (c : Client σ) {call : RecordCall} (h : call.IsSent) :
    call.perform c =
      (do call.read (← c.call call.method call.route.target call.headers call.body).body) := by
  cases call with
  | getApp app => rw [perform, Client.getApp, Client.get, appTarget_eq]; rfl
  | deleteApp app => rw [perform, Client.deleteApp, delete, appTarget_eq]; rfl
  | setAppRelease app release => rw [perform, Client.setAppRelease, appReleaseTarget_eq]; rfl
  | getRelease id => rw [perform, Client.getRelease, Client.get, releaseTarget_eq]; rfl
  | getFormation app release =>
    rw [perform, Client.getFormation, Client.get, formationTarget_eq]; rfl
  | putFormation formation =>
    have hids : (formation.app.isEmpty || formation.release.isEmpty) = false := by
      simpa [IsSent] using h
    rw [perform, Client.putFormation, hids, sendJson, formationTarget_eq]
    rfl
  | deleteFormation app release =>
    rw [perform, Client.deleteFormation, delete, formationTarget_eq]; rfl
  | killJob app job => rw [perform, Client.killJob, delete, jobTarget_eq]; rfl
  | runJob app job => rw [perform, Client.runJob, sendJson, jobsTarget_eq]; rfl

/-- A call spells its request, and takes its reply, as they are written. -/
theorem perform_eq (c : Client σ) (call : RecordCall) :
    call.perform c = call.performAs c call.body id := by
  by_cases hsent : call.IsSent
  · rw [performAs, if_pos hsent, perform_of_sent c hsent]
    rfl
  · rw [performAs, if_neg hsent]
    cases call with
    | putFormation formation =>
      have hids : (formation.app.isEmpty || formation.release.isEmpty) = true := by
        simpa [IsSent, or_iff_not_imp_left] using hsent
      rw [perform, Client.putFormation, hids]
      rfl
    | _ => exact absurd trivial hsent

/-! ## Answers -/

/-- A record is read off every text that it may be written in. -/
theorem decoded_of_spells {α : Type} {codec : Codec α} (h : codec.Faithful) {a : α} {text : Bytes}
    (hs : codec.Spells a text) : decoded codec text = .ok a := by
  rw [decoded, h.decode_of_spells hs]

theorem tells_found {α : Type} {codec : Codec α} {read : Bytes → Except ClientError α}
    (h : ∀ a, read (codec.encode a) = .ok a) (a : Option α) (message : String) (k : Controller σ) :
    Tells read (found a, k) ((do return Api.json codec (← Api.found a message) : Act σ _) k) := by
  have hstatus : (Refusal.notFound message).status ≠ 200 := (by decide : (404 : Nat) ≠ 200)
  cases a with
  | some a => exact .json (h a) k
  | none => exact .error hstatus

theorem tells_removed (there : Bool) (message : String) (k : Controller σ) :
    Tells (fun _ => .ok ()) (removed there, k)
      ((if there then return done else throw (.notFound message) : Act σ _) k) := by
  have hstatus : (Refusal.notFound message).status ≠ 200 := (by decide : (404 : Nat) ≠ 200)
  cases there with
  | true => exact .done k
  | false => exact .error hstatus

theorem statusOfStore_ne (e : StoreError) : statusOfStore e ≠ 200 := by
  cases e <;> simp [statusOfStore]

theorem status_ofFeed_ne (e : FeedError) : (Refusal.ofFeed e).status ≠ 200 := by
  cases e with
  | store e => exact statusOfStore_ne e
  | closed | lagged => decide

theorem statusOfDispatch_ne (e : DispatchError) : statusOfDispatch e ≠ 200 := by
  cases e with
  | store e => exact statusOfStore_ne e
  | _ => simp [statusOfDispatch]

/-- A release that is named by its identifier alone. -/
theorem decode_reference (id : String) :
    Release.codec.decode (render (.object [("id", .string id)])) = .ok { id } := by
  have hfolds := Reader.Folds.cons
    (Field.takes_accept_self (f := .defaulting "id" Release.id .string "")
    (Codec.faithful_string.takes (.refl (.string id)))
    (Field.Slots.empty Release.record.fields.tail)) (.nil _)
  have hall := Reader.bounded_members hfolds
  exact (Record.takes_object (r := Release.record) [("id", .string id)] hall rfl).document

section Answers
variable {cluster : Cluster σ} {m : Moment} {c : Client (Controller σ)} {p : String × Option String}
  {call : RecordCall}
  {request : Bytes} {respell : Bytes → Bytes}

theorem hasJson_request (method : String) (body : Bytes) :
    (c.request method p [jsonHeader] body).hasJson = true := by
  have hline : (c.request method p [jsonHeader] body).firstLine "content-type" =
      some "application/json" := rfl
  rw [Request.hasJson, hline]
  decide +kernel

/-- What is read off the body of a request that is not too large. -/
theorem readJson_request {α : Type} {codec : Codec α} {a : α} {method : String} {body : Bytes}
    (hsize : body.length ≤ maxRecord) (hdecode : codec.decode body = .ok a) (k : Controller σ) :
    readJson codec (c.request method p [jsonHeader] body) k = (.ok a, k) := by
  have hshort : ¬ maxRecord < (c.request method p [jsonHeader] body).body.length :=
    Nat.not_lt.2 hsize
  have hbody : codec.decode (c.request method p [jsonHeader] body).body = .ok a := hdecode
  rw [readJson, hasJson_request, if_neg (by decide), if_neg hshort, hbody]
  rfl

theorem readJob_request {job : NewJob} {method : String} {body : Bytes}
    (hsize : body.length ≤ maxJob) (hdecode : NewJob.codec.decode body = .ok job)
    (k : Controller σ) :
    readJob (c.request method p [jsonHeader] body) k = (.ok job, k) := by
  have hshort : ¬ maxJob < (c.request method p [jsonHeader] body).body.length := Nat.not_lt.2 hsize
  have hbody : NewJob.codec.decode (c.request method p [jsonHeader] body).body = .ok job := hdecode
  rw [readJob, if_neg hshort, hbody]
  rfl

theorem dispatch_of_ok {α : Type} {act : Store → DispatchAct σ α} {a : α} {k : Controller σ}
    {world : σ} (h : (act k.store).run k.world = (.ok a, world)) :
    Api.dispatch act k = (.ok a, { k with world }) := by
  rw [dispatch, h]

theorem dispatch_of_error {α : Type} {act : Store → DispatchAct σ α} {e : DispatchError}
    {k : Controller σ} {world : σ} (h : (act k.store).run k.world = (.error e, world)) :
    Api.dispatch act k = (.error (.ofDispatch e), { k with world }) := by
  rw [dispatch, h]

/-- The answer to the route of a call tells of what its operation gives, and
leaves what that leaves. -/
theorem tells_answer (hspells : call.Spells request) (hreply : call.Respells respell)
    (hsize : request.length ≤ call.limit) (htaken : call.IsTaken) (k : Controller σ) :
    Tells (fun bytes => call.read (respell bytes)) (call.outcome cluster m k)
      (answer cluster m (c.request call.method p call.headers request) call.route k) := by
  cases call with
  | getApp app =>
    refine tells_found ?_ (k.store.getApp? app) _ k
    exact fun a => decoded_of_spells App.faithful (hreply a)
  | getRelease id =>
    refine tells_found ?_ (k.store.getRelease? id) _ k
    exact fun r => decoded_of_spells Release.faithful (hreply r)
  | getFormation app release =>
    refine tells_found ?_ (k.store.getFormation? app release) _ k
    exact fun f => decoded_of_spells Formation.faithful (hreply f)
  | deleteApp app =>
    rcases hdelete : k.store.deleteApp m app with ⟨there, store⟩
    rw [outcome, hdelete]
    exact .of_ok (change_of_ok (congrArg Except.ok hdelete)) (tells_removed there _ _)
  | setAppRelease app release =>
    have hrelease : ¬ release.isEmpty = true := fun hempty => htaken (String.isEmpty_iff.1 hempty)
    have hread : Release.codec.decode request = .ok { id := release } := by
      rw [show request = _ from hspells]
      exact decode_reference release
    refine .of_ok (readJson_request hsize hread k) ?_
    dsimp only
    rw [if_neg hrelease]
    cases hset : k.store.setAppRelease m app release with
    | ok store =>
      rw [outcome, hset]
      exact .of_ok (change_of_ok (congrArg (Except.map ((), ·)) hset)) (.done _)
    | error e =>
      rw [outcome, hset]
      exact .of_error (change_of_error (congrArg (Except.map ((), ·)) hset)) (statusOfStore_ne e)
  | putFormation formation =>
    refine .of_ok (readJson_request hsize (Formation.faithful.decode_of_spells hspells) k) ?_
    cases hput : k.feed.putFormation k.store m formation with
    | ok out =>
      rw [outcome, hput]
      refine .of_ok (changeFed_of_ok hput) (.json ?_ _)
      exact decoded_of_spells Formation.faithful (hreply _)
    | error e =>
      rw [outcome, hput]
      exact .of_error (changeFed_of_error hput) (status_ofFeed_ne e)
  | deleteFormation app release =>
    cases hdelete : k.feed.deleteFormation k.store m app release with
    | ok out =>
      rw [outcome, hdelete]
      exact .of_ok (changeFed_of_ok hdelete) (tells_removed out.1 _ _)
    | error e =>
      rw [outcome, hdelete]
      exact .of_error (changeFed_of_error hdelete) (status_ofFeed_ne e)
  | killJob app job =>
    rcases hkill : (Dispatch.kill k.store cluster app job).run k.world with ⟨e | _, world⟩
    · rw [outcome, hkill]
      exact .of_error (dispatch_of_error hkill) (statusOfDispatch_ne e)
    · rw [outcome, hkill]
      exact .of_ok (dispatch_of_ok hkill) (.done _)
  | runJob app job =>
    refine .of_ok (readJob_request hsize (NewJob.faithful.decode_of_spells hspells) k) ?_
    rcases hrun : (Dispatch.run k.store cluster app job false).run k.world with ⟨e | placed, world⟩
    · rw [outcome, hrun]
      exact .of_error (dispatch_of_error hrun) (statusOfDispatch_ne e)
    · rw [outcome, hrun]
      refine .of_ok (dispatch_of_ok hrun) (.json ?_ _)
      exact decoded_of_spells Job.faithful (hreply placed.1)

/-- A body that is too large is refused, and so is a release with an empty identifier. -/
theorem refuses_answer (hspells : call.Spells request)
    (h : request.length ≤ call.limit → ¬ call.IsTaken) (k : Controller σ) :
    ∃ refusal, refusal.status ≠ 200 ∧
      answer cluster m (c.request call.method p call.headers request) call.route k =
        (.error refusal, k) := by
  have hlarge {α : Type} {codec : Codec α} {method : String} {body : Bytes}
      (h : ¬ body.length ≤ maxRecord) : readJson codec (c.request method p [jsonHeader] body) k =
        (.error (.unreadable 413 "Request body too large"), k) := by
    have hlong : maxRecord < (c.request method p [jsonHeader] body).body.length :=
      Nat.lt_of_not_le h
    rw [readJson, hasJson_request, if_neg (by decide), if_pos hlong]
    rfl
  have hempty : ([] : Bytes).length ≤ maxRecord := Nat.zero_le _
  cases call with
  | getApp | deleteApp | getRelease | getFormation | deleteFormation | killJob =>
    cases hspells
    exact absurd trivial (h hempty)
  | setAppRelease app release =>
    cases hspells
    by_cases hsize : (render (.object [("id", .string release)])).length ≤ maxRecord
    · have hrelease : release.isEmpty = true := by simpa [IsTaken] using h hsize
      refine ⟨.failed 400 "missing release id", by decide, ?_⟩
      refine (bind_of_ok (readJson_request hsize (decode_reference release) k)).trans ?_
      dsimp only
      rw [if_pos hrelease]
      rfl
    · exact ⟨_, by decide, bind_of_error (hlarge hsize)⟩
  | putFormation formation =>
    have hsize : ¬ request.length ≤ maxRecord := fun hsize => h hsize trivial
    exact ⟨_, by decide, bind_of_error (hlarge hsize)⟩
  | runJob app job =>
    have hlong : maxJob < (c.request "POST" p [jsonHeader] request).body.length :=
      Nat.lt_of_not_le fun hsize => h hsize trivial
    have hread : readJob (c.request "POST" p [jsonHeader] request) k =
        (.error (.failed 400 "failed to read job request: length limit exceeded"), k) := by
      rw [readJob, if_pos hlong]
      rfl
    exact ⟨_, by decide, bind_of_error hread⟩

end Answers

/-! ## Calls -/

section Calls
variable {cluster : Cluster σ} {m : Moment} {url : String} {c : Client (Controller σ)}
  {call : RecordCall}
  {request : Bytes} {respell : Bytes → Bytes} {target : String} {rest : List Char}

/-- The request of a call for whatever target off which the controller reads
the route of the call. -/
theorem call_of_read (hc : connect (loopback cluster m) url = .ok c)
    (htarget : target.toList = '/' :: rest) (hfits : c.Fits target)
    (hread : Route.ofTarget? target = some call.route) (hspells : call.Spells request)
    (hreply : call.Respells respell) (hsize : request.length ≤ call.limit) (htaken : call.IsTaken)
    (k : Controller σ) :
    (do call.read (respell (← c.call call.method target call.headers request).body) :
        ClientAct (Controller σ) call.Result) k =
      ((call.outcome cluster m k).1.mapError (c.refused call.method target),
        (call.outcome cluster m k).2) := by
  obtain ⟨p, hp, hroute⟩ := exists_answer hread call.allows_method
  have htells : Tells (fun bytes => call.read (respell bytes)) (call.outcome cluster m k)
      (Api.route cluster m (c.request call.method p call.headers request) k) := by
    rw [hroute]
    exact tells_answer hspells hreply hsize htaken k
  exact call_of_tells hc htarget call.method_ne_head hfits hp htells

/-- A call whose route is read off its target does what the operation does that it stands for. -/
theorem performAs_of_read (hc : connect (loopback cluster m) url = .ok c)
    (hspells : call.Spells request) (hreply : call.Respells respell)
    (hcarried : call.IsCarried c request)
    (hread : Route.ofTarget? call.route.target = some call.route) (k : Controller σ) :
    call.performAs c request respell k =
      ((call.outcome cluster m k).1.mapError (c.refused call.method call.route.target),
        (call.outcome cluster m k).2) := by
  obtain ⟨rest, htarget⟩ := call.exists_target
  rw [performAs, if_pos hcarried.sent]
  exact call_of_read hc htarget hcarried.fits hread hspells hreply hcarried.size hcarried.taken k

/-- A call that is not carried fails and changes nothing. -/
theorem performAs_of_not_carried (hc : connect (loopback cluster m) url = .ok c)
    (hspells : call.Spells request) (h : ¬ call.IsCarried c request)
    (hread : Route.ofTarget? call.route.target = some call.route) (k : Controller σ) :
    ∃ e, call.performAs c request respell k = (.error e, k) := by
  obtain ⟨rest, htarget⟩ := call.exists_target
  rw [performAs]
  split
  swap
  · exact ⟨_, rfl⟩
  next hsent =>
  by_cases hfits : c.Fits call.route.target
  swap
  · exact ⟨_, bind_of_error (call_of_none hc htarget fun hfits' => absurd hfits' hfits)⟩
  obtain ⟨p, hp, hroute⟩ := exists_answer hread call.allows_method
  obtain ⟨refusal, hstatus, hanswer⟩ := refuses_answer hspells
    (fun hsize htaken => h ⟨hsent, hfits, hsize, htaken⟩) k
  exact ⟨_,
    bind_of_error (call_of_error hc htarget call.method_ne_head hfits hp
      ((congrFun (hroute _ _) k).trans hanswer)
    hstatus)⟩

/-- A call whose method goes with no route that is read off its target fails and changes nothing. -/
theorem performAs_of_not_allowed (call : RecordCall) (hc : connect (loopback cluster m) url = .ok c)
    (h : ∀ route, Route.ofTarget? call.route.target = some route → route.allows call.method = false)
    (request : Bytes) (respell : Bytes → Bytes) (k : Controller σ) :
    ∃ e, call.performAs c request respell k = (.error e, k) := by
  obtain ⟨rest, htarget⟩ := call.exists_target
  rw [performAs]
  split
  · obtain ⟨e, he⟩ := call_of_not_allowed hc htarget call.method_ne_head h
    exact ⟨e, bind_of_error he⟩
  · exact ⟨_, rfl⟩

/-- A call that makes the same request as another one, whose route is read off its target, leaves
what the operation leaves that the other stands for. -/
theorem snd_perform_of_read (call call' : RecordCall)
    (hc : connect (loopback cluster m) url = .ok c) (hsent : call.IsSent)
    (hfits : c.Fits call.route.target)
    (hread : Route.ofTarget? call.route.target = some call'.route)
    (hmethod : call'.method = call.method) (hheaders : call'.headers = call.headers)
    (hbody : call'.body = call.body) (hsize : call'.body.length ≤ call'.limit)
    (htaken : call'.IsTaken) (k : Controller σ) :
    (call.perform c k).2 = (call'.outcome cluster m k).2 := by
  obtain ⟨rest, htarget⟩ := call.exists_target
  have hcall := congrArg Prod.snd
    (call_of_read hc htarget hfits hread call'.spells_body call'.respells_id hsize htaken k)
  rw [snd_bind_liftM _ fun reply : Reply (Controller σ) => call'.read (id reply.body), hmethod,
    hheaders, hbody] at hcall
  rw [perform_of_sent c hsent,
    snd_bind_liftM _ fun reply : Reply (Controller σ) => call.read reply.body, hcall]

end Calls

end RecordCall
end ControlPlane
