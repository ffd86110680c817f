import ControlPlane.Cluster.Agent
import ControlPlane.Proofs.Http.Segments

/-! # What an agent reads off a request about a job

An agent tells what it is asked for by the method and by the segments of the path, and decodes the
segment that names the job. It reads a call about a job as that call if and only if the job's
identifier can stand in a path as it is and is not empty; other identifiers are read as those of
other jobs, or not at all.
-/
namespace ControlPlane
open Http

/-- What can be done with a job of an agent's host. -/
inductive JobVerb
  | get
  | stop
  | attach
  | resize
  deriving DecidableEq, Repr

namespace JobVerb

def method : JobVerb → String
  | get => "GET"
  | stop => "DELETE"
  | attach | resize => "POST"

/-- The segments behind the job's. -/
def tail : JobVerb → List String
  | get | stop => []
  | attach => ["attach"]
  | resize => ["resize"]

def find? (method : String) (tail : List String) : Option JobVerb :=
  [get, stop, attach, resize].find? fun verb => verb.method == method && verb.tail == tail

theorem find?_eq_some {verb : JobVerb} {method : String} {tail : List String} :
    find? method tail = some verb ↔ method = verb.method ∧ tail = verb.tail := by
  constructor
  · intro h
    have hfound :=
      List.find?_some (p := fun verb : JobVerb => verb.method == method && verb.tail == tail) h
    obtain ⟨hmethod, htail⟩ := Bool.and_eq_true_iff.1 hfound
    exact ⟨(eq_of_beq hmethod).symm, (eq_of_beq htail).symm⟩
  · rintro ⟨rfl, rfl⟩
    cases verb <;> decide

end JobVerb

/-- What an agent is asked for. -/
inductive AgentCall
  | list
  | submit
  | events
  | job (verb : JobVerb) (id : String)
  deriving DecidableEq, Repr

namespace AgentCall

def ofSegments? (method : String) : List String → Option AgentCall
  | ["", "host", "jobs"] =>
    if method = "GET" then some list else if method = "POST" then some submit else none
  | ["", "host", "events"] => if method = "GET" then some events else none
  | "" :: "host" :: "jobs" :: id :: tail => do
    let verb ← JobVerb.find? method tail
    if id.isEmpty then none else return job verb (← Percent.decode? id)
  | _ => none

/-- What an agent reads off a request, if it knows the endpoint. -/
def ofRequest? (request : Request) : Option AgentCall :=
  ofSegments? request.method (Segments.ofPath request.path)

/-- What an agent reads off the target of a request. -/
def ofTarget? (method target : String) : Option AgentCall := do
  let (path, _) ← Uri.pathAndQuery? target.toList
  ofSegments? method (Segments.ofPath path)

theorem ofSegments?_eq_job {method : String} {segments : List String} {verb : JobVerb}
    {id : String} :
    ofSegments? method segments = some (job verb id) ↔
      method = verb.method ∧ ∃ written, segments = "" :: "host" :: "jobs" :: written :: verb.tail ∧
        written ≠ "" ∧
        Percent.decode? written = some id := by
  constructor
  · intro h
    unfold ofSegments? at h
    split at h
    · split at h
      · cases h
      · split at h <;> cases h
    · split at h <;> cases h
    · next written tail =>
      obtain ⟨found, hfound, h⟩ := Option.bind_eq_some_iff.1 h
      split at h
      · cases h
      next hwritten =>
      obtain ⟨decoded, hdecoded, h⟩ := Option.bind_eq_some_iff.1 h
      cases h
      obtain ⟨rfl, rfl⟩ := JobVerb.find?_eq_some.1 hfound
      exact ⟨rfl, written, rfl, by simpa using hwritten, hdecoded⟩
    · cases h
  · rintro ⟨rfl, written, rfl, hwritten, hdecoded⟩
    have hfound : JobVerb.find? verb.method verb.tail = some verb :=
      JobVerb.find?_eq_some.2 ⟨rfl, rfl⟩
    simp [ofSegments?, hfound, hwritten, hdecoded]

/-- The one thing that can be deleted is a job. -/
theorem ofSegments?_delete {segments : List String} {call : AgentCall}
    (h : ofSegments? "DELETE" segments = some call) :
    ∃ id, call = job .stop id := by
  unfold ofSegments? at h
  split at h
  · simp at h
  · simp at h
  · obtain ⟨verb, hfound, h⟩ := Option.bind_eq_some_iff.1 h
    split at h
    · cases h
    obtain ⟨id, -, h⟩ := Option.bind_eq_some_iff.1 h
    cases h
    obtain ⟨hmethod, -⟩ := JobVerb.find?_eq_some.1 hfound
    cases verb with
    | stop => exact ⟨id, rfl⟩
    | get | attach | resize => exact absurd hmethod (by decide)
  · cases h

end AgentCall

/-- What a client asks an agent about one job. -/
inductive JobCall
  | get (job : String)
  | stop (job : String)
  | attach (request : AttachRequest) (wait : Bool)
  | resize (job : String) (width height : UInt16)

namespace JobCall

def job : JobCall → String
  | get job | stop job | resize job _ _ => job
  | attach request _ => request.job

def verb : JobCall → JobVerb
  | get _ => .get
  | stop _ => .stop
  | attach .. => .attach
  | resize .. => .resize

def endpoint : JobCall → AgentEndpoint
  | get job | stop job => .job job
  | attach request wait => .attach request.job wait
  | resize job _ _ => .resize job

/-- The call as an agent should read it. -/
def own (call : JobCall) : AgentCall := .job call.verb call.job

def segments (call : JobCall) : List String := "" :: "host" :: "jobs" :: call.job :: call.verb.tail

/-- The query behind the path. -/
def query : JobCall → Option String
  | attach _ wait => some (if wait then "wait=true" else "wait=false")
  | get _ | stop _ | resize .. => none

theorem toList_target (call : JobCall) : call.endpoint.target.toList =
    Segments.joined call.segments ++ call.query.elim [] fun query => '?' :: query.toList := by
  cases call with
  | get job | stop job =>
    change ("/host/jobs/" ++ job).toList = _
    simp [Segments.joined, segments, query, JobCall.job, verb, JobVerb.tail]
  | attach request wait =>
    change ("/host/jobs/" ++ request.job ++ "/attach?wait=" ++ if wait then "true"
      else "false").toList = _
    cases wait <;> simp [Segments.joined, segments, query, job, verb, JobVerb.tail]
  | resize job width height =>
    change ("/host/jobs/" ++ job ++ "/resize").toList = _
    simp [Segments.joined, segments, query, JobCall.job, verb, JobVerb.tail]

theorem exists_target (call : JobCall) : ∃ rest, call.endpoint.target.toList = '/' :: rest := by
  rw [toList_target, segments, Segments.joined_blank_cons, List.cons_append]
  exact ⟨_, rfl⟩

private theorem decode?_fixed :
    ∀ s ∈ ["", "host", "jobs", "attach", "resize"], Percent.decode? s = some s := by
  have hnone : ∀ s ∈ ["", "host", "jobs", "attach", "resize"], '%' ∉ s.toList := by decide
  exact fun s hs => Percent.decode?_of_not_mem (hnone s hs)

theorem decode_segments {written : String} {call : JobCall}
    (h : Percent.decode? written = some call.job) :
    Segments.Decode ("" :: "host" :: "jobs" :: written :: call.verb.tail) call.segments := by
  have hfixed := decode?_fixed
  simp only [List.forall_mem_cons] at hfixed
  have htail : Segments.Decode call.verb.tail call.verb.tail := by
    cases call <;> simp [verb, JobVerb.tail, hfixed]
  simpa [segments, hfixed, h] using htail

private theorem plain_fixed : ∀ s ∈ ["", "host", "jobs", "attach", "resize"], Plain s := by
  have hinside : ∀ s ∈ ["", "host", "jobs", "attach", "resize"],
      ∀ c ∈ s.toList, Uri.isPathChar c = true ∧ c ≠ '/' ∧ c ≠ '%' := by simp [Uri.isPathChar]
  exact fun s hs => plain_of_forall (hinside s hs)

theorem plain_segments {call : JobCall} (h : Plain call.job) : ∀ s ∈ call.segments, Plain s := by
  have hfixed := plain_fixed
  simp only [List.forall_mem_cons] at hfixed
  cases call <;> simp_all [segments, job, verb, JobVerb.tail]

theorem pathAndQuery?_target {call : JobCall} (h : Plain call.job) :
    Uri.pathAndQuery? call.endpoint.target.toList =
    some (String.ofList (Segments.joined call.segments), call.query) := by
  have hinside := Segments.inside_joined (plain_segments h)
  rw [toList_target]
  cases hquery : call.query with
  | none => rw [Option.elim_none, List.append_nil, Uri.pathAndQuery?_of_forall hinside]
  | some query =>
    have hplain : ∀ c ∈ query.toList, Uri.isQueryChar c = true := by
      cases call with
      | attach request wait =>
        cases hquery
        cases wait <;> simp [Uri.isQueryChar]
      | get | stop | resize => cases hquery
    rw [Option.elim_some, Uri.pathAndQuery?_append_query hinside hplain, String.ofList_toList]

/-- An agent reads a call as its own if and only if the job's identifier stands in a path as
it is and is not empty. -/
theorem ofTarget?_eq_own_iff {call : JobCall} :
    AgentCall.ofTarget? call.verb.method call.endpoint.target = some call.own ↔
      Plain call.job ∧ call.job ≠ "" := by
  constructor
  · intro h
    obtain ⟨⟨path, query⟩, hquery, hread⟩ := Option.bind_eq_some_iff.1 h
    obtain ⟨-, written, hsegments, hwritten, hdecoded⟩ := AgentCall.ofSegments?_eq_job.1 hread
    have hdecode := decode_segments hdecoded
    rw [← hsegments] at hdecode
    rw [toList_target] at hquery
    have hrest : ∀ c ∈ (call.query.elim [] fun query => '?' :: query.toList).head?,
        Uri.isPathChar c = false := by
      cases call.query with
      | none => simp
      | some query => simp [Uri.isPathChar]
    obtain ⟨hsame, hplain⟩ := Segments.plain_of_read (by simp [segments]) hrest hquery hdecode
    have hjob : written = call.job := by
      rw [hsegments, segments] at hsame
      simpa using hsame
    exact ⟨hplain call.job (by simp [segments]), hjob ▸ hwritten⟩
  · rintro ⟨hplain, hjob⟩
    have hread : AgentCall.ofSegments? call.verb.method call.segments = some call.own :=
      AgentCall.ofSegments?_eq_job.2 ⟨rfl, call.job, rfl, hjob, hplain.decoded⟩
    rw [AgentCall.ofTarget?, pathAndQuery?_target hplain]
    simp only [Option.bind_eq_bind, Option.bind_some]
    rw [Segments.ofPath_joined (by simp [segments]) (plain_segments hplain), hread]

end JobCall
end ControlPlane
