import ControlPlane.Proofs.Cluster.Act
import ControlPlane.Proofs.Cluster.AgentRoute
import ControlPlane.Proofs.Dict

/-! # Which job an agent acts on

A client pastes the identifier of a job into the target of its request. What its call then does is
what the agent does for the call that it reads off the target, or it fails without any agent having
a say in it. So a call acts on its own job if the identifier can stand in a path as it is, and on
another one if it is read as that.
-/
namespace ControlPlane
open Http
variable {σ : Type}

/-- Agents at their addresses. What an agent does when it is called is up to it. -/
structure Agents (σ : Type) where
  isUp : (address : String) → Bool
  isAuthority : ∀ address, isUp address = true → Uri.IsAuthority address.toList
  answer : (address : String) → AgentCall → Request → ExceptT String (StateM σ) (Reply σ)
  /-- The reply to a request that is read as no call. -/
  refusal : Request → Reply σ
  isRefusal : ∀ request, 400 ≤ (refusal request).status

namespace Agents

def network (agents : Agents σ) : Network σ where
  exchange address request :=
    if agents.isUp address then
      match AgentCall.ofRequest? request with
      | some call => agents.answer address call request
      | none => return agents.refusal request
    else throw "connection refused"

/-- The agent of a host at an address, as its client knows it. -/
def agent (agents : Agents σ) (host address : String) : Agent σ := ⟨agents.network, host, address⟩

/-- What a host's client gets from the agent at an address for a request that is read as a call. -/
def handle (agents : Agents σ) (host address : String) (call : AgentCall) (request : Request) :
    ClusterAct (AgentWorld σ) (Reply σ) :=
  let exchange : ClusterAct σ (Reply σ) :=
    (agents.answer address call request).adapt (.transport host)
  Agent.onNetwork exchange

end Agents

/-- The agent that is configured for a host goes by that host. -/
theorem Agent.eq_of_get? {network : Network σ} {hosts : List HostConfig} {host : String}
    {a : Agent σ} (h : (ofConfig network hosts).get? host = some a) :
    a = ⟨network, host, a.address⟩ := by
  obtain ⟨config, -, heq⟩ := List.mem_map.1 (Dict.mem_of_get?_ofList h)
  cases heq
  rfl

/-- Of a reply that is no success an error is made, which tells of the host, its
address and the call. -/
theorem Agent.check_of_failure (host address method : String) (endpoint : AgentEndpoint)
    {reply : Reply σ} (h : ¬ (200 ≤ reply.status ∧ reply.status < 300)) :
    ∃ e, ∀ network : Network σ, check ⟨network, host, address⟩ method endpoint reply = throw e := by
  -- The network is not looked at, so one will do.
  obtain ⟨e, he⟩ :
      ∃ e, check (⟨.unreachable, host, address⟩ : Agent σ) method endpoint reply = throw e := by
    rw [check, if_neg h]
    split <;> exact ⟨_, rfl⟩
  exact ⟨e, fun _ => he⟩

namespace JobCall

abbrev Result : JobCall → Type
  | get _ => ActiveJob
  | attach .. => AttachHandle
  | stop _ | resize .. => Unit

def perform (a : Agent σ) : (call : JobCall) → ClusterAct (AgentWorld σ) call.Result
  | get job => a.client.getJob job
  | stop job => a.client.stopJob job
  | attach request wait => a.client.attach request wait
  | resize job width height => a.client.resize job width height

def headers : JobCall → List (String × String)
  | attach .. => [("connection", "upgrade"), ("upgrade", Agent.protocol)]
  | get _ | stop _ | resize .. => []

def body : JobCall → Option Bytes
  | get _ | stop _ => none
  | attach request _ => some (AttachRequest.codec.encode request)
  | resize _ width height => some (TerminalSize.codec.encode ⟨width, height⟩)

/-- What a client makes of the reply. -/
def finish (a : Agent σ) : (call : JobCall) → Reply σ → ClusterAct (AgentWorld σ) call.Result
  | get job, reply => do Agent.read ActiveJob.codec (← a.check "GET" (.job job) reply)
  | stop job, reply => do let _ ← a.check "DELETE" (.job job) reply
  | attach request wait, reply =>
    let endpoint := AgentEndpoint.attach request.job wait
    if reply.status = 101 then
      match reply.peer with
      | some peer => return ⟨peer, request.flags.contains .stdin⟩
      | none => throw (.transport a.host "connection was not upgraded")
    else do
      let reply ← a.check "POST" endpoint reply
      throw (.unexpectedStatus "POST" ("http://" ++ a.address ++ endpoint.target) reply.status)
  | resize job _ _, reply => do let _ ← a.check "POST" (.resize job) reply

theorem perform_eq (a : Agent σ) (call : JobCall) :
    call.perform a =
      (do call.finish a (← a.send call.verb.method call.endpoint call.headers call.body)) := by
  cases call with
  | get job => exact bind_assoc _ _ _
  | stop job => exact bind_assoc _ _ _
  | attach request wait => rfl
  | resize job width height => exact bind_assoc _ _ _

/-- Nothing is made of a refusal but an error. -/
theorem finish_of_refused (host address : String) (call : JobCall) {reply : Reply σ}
    (h : 400 ≤ reply.status) :
    ∃ e, ∀ (network : Network σ) w,
      call.finish ⟨network, host, address⟩ reply w = (.error e, w) := by
  have hstatus : ¬ (200 ≤ reply.status ∧ reply.status < 300) := by omega
  have hcheck (method : String) (endpoint : AgentEndpoint) :=
    Agent.check_of_failure host address method endpoint hstatus
  cases call with
  | get job =>
    obtain ⟨e, he⟩ := hcheck "GET" (.job job)
    exact ⟨e, fun network w => bind_of_error (congrFun (he network) w)⟩
  | stop job =>
    obtain ⟨e, he⟩ := hcheck "DELETE" (.job job)
    exact ⟨e, fun network w => bind_of_error (congrFun (he network) w)⟩
  | attach request wait =>
    obtain ⟨e, he⟩ := hcheck "POST" (.attach request.job wait)
    refine ⟨e, fun network w => ?_⟩
    rw [finish, if_neg (by omega)]
    exact bind_of_error (congrFun (he network) w)
  | resize job width height =>
    obtain ⟨e, he⟩ := hcheck "POST" (.resize job)
    exact ⟨e, fun network w => bind_of_error (congrFun (he network) w)⟩

/-- The header lines of the request for a call. -/
def lines (address : String) (call : JobCall) : List (String × String) :=
  ("host", address) :: ("user-agent", "flotilla-controller/0.1") ::
    (call.body.map fun _ => ("content-type", Agent.mediaType)).toList ++ call.headers

/-- The request for a call, given the path and the query of its target. -/
def request (address : String) (call : JobCall) (p : String × Option String) : Request where
  method := call.verb.method
  path := p.1
  query := p.2
  headers := call.lines address
  body := call.body.getD []
  canUpgrade := (call.lines address).any (·.1 == "upgrade")

end JobCall

namespace Agents
variable {agents : Agents σ} {host address : String} {call : JobCall} {routed : AgentCall}

/-- What the agent at an address reads the request for a call as, if the request
gets there and is read. -/
def read? (agents : Agents σ) (address : String) (call : JobCall) : Option AgentCall :=
  if agents.isUp address = true ∧
    ("http://" ++ address ++ call.endpoint.target).utf8ByteSize ≤ Uri.maxSize then
    AgentCall.ofTarget? call.verb.method call.endpoint.target
  else none

/-- The request that carries a call to an agent. -/
def carry (agents : Agents σ) (host address : String) (call : JobCall) :
    ClusterAct (AgentWorld σ) (Reply σ) :=
  (agents.agent host address).send call.verb.method call.endpoint call.headers call.body

/-- What comes of a request, as the network has it. -/
def exchange (agents : Agents σ) (address : String) (call : JobCall) :
    ExceptT String (StateM σ) (Reply σ) :=
  match Request.ofUrl? call.verb.method ("http://" ++ address ++ call.endpoint.target)
    (call.lines address) (call.body.getD []) with
  | some request => agents.network.exchange address request
  | none => throw "invalid uri character"

theorem carry_eq (agents : Agents σ) (host address : String) (call : JobCall) (w : AgentWorld σ) :
    agents.carry host address call w =
      (((agents.exchange address call w.network).1.mapError (.transport host)),
        { w with network := (agents.exchange address call w.network).2 }) := rfl

/-- Where an agent is up, the request that gets to it is read off the target. -/
theorem ofUrl?_of_up (hup : agents.isUp address = true) (call : JobCall) :
    Request.ofUrl? call.verb.method ("http://" ++ address ++ call.endpoint.target)
      (call.lines address) (call.body.getD []) =
        if Uri.maxSize < ("http://" ++ address ++ call.endpoint.target).utf8ByteSize then none
        else (Uri.pathAndQuery? call.endpoint.target.toList).map (call.request address) := by
  obtain ⟨rest, hrest⟩ := call.exists_target
  rw [Request.ofUrl?_base (agents.isAuthority address hup) hrest]
  rfl

theorem exchange_of_read (h : agents.read? address call = some routed) :
    ∃ p, Uri.pathAndQuery? call.endpoint.target.toList = some p ∧
      AgentCall.ofRequest? (call.request address p) = some routed ∧
      agents.exchange address call = agents.answer address routed (call.request address p) := by
  rw [read?] at h
  split at h
  swap
  · cases h
  next hthere =>
  obtain ⟨hup, hsize⟩ := hthere
  obtain ⟨p, hp, hread⟩ := Option.bind_eq_some_iff.1 h
  have hrequest : AgentCall.ofRequest? (call.request address p) = some routed := hread
  refine ⟨p, hp, hrequest, ?_⟩
  rw [exchange, ofUrl?_of_up hup, if_neg (Nat.not_lt.2 hsize), hp, Option.map_some]
  simp only [network, hup, hrequest, if_true]

/-- A request that is not read is not answered, or refused; what the agents would answer to
others has no say in it. -/
theorem exchange_of_unread (h : agents.read? address call = none) :
    (∃ reason, ∀ answer, exchange { agents with answer } address call = throw reason) ∨
      ∃ request, ∀ answer, exchange { agents with answer } address call =
        return agents.refusal request := by
  cases hrequest : Request.ofUrl? call.verb.method ("http://" ++ address ++ call.endpoint.target)
    (call.lines address) (call.body.getD []) with
  | none => exact .inl ⟨_, fun answer => by rw [exchange, hrequest]⟩
  | some request =>
    by_cases hup : agents.isUp address = true
    · have hmade := hrequest
      rw [ofUrl?_of_up hup] at hmade
      split at hmade
      · cases hmade
      next hsize =>
      obtain ⟨p, hp, rfl⟩ := Option.map_eq_some_iff.1 hmade
      have hunread : AgentCall.ofRequest? (call.request address p) = none := by
        rw [read?, if_pos ⟨hup, Nat.not_lt.1 hsize⟩, AgentCall.ofTarget?, hp] at h
        exact h
      refine .inr ⟨call.request address p, fun answer => ?_⟩
      rw [exchange, hrequest]
      simp only [network, hup, hunread, if_true]
    · exact .inl ⟨"connection refused", fun answer => by rw [exchange, hrequest]; exact if_neg hup⟩

/-- A call that is read does what the agent does for what it is read as, and makes
what it can of the reply. -/
theorem perform_of_read (host : String) (h : agents.read? address call = some routed) :
    ∃ p, Uri.pathAndQuery? call.endpoint.target.toList = some p ∧
      AgentCall.ofRequest? (call.request address p) = some routed ∧
      call.perform (agents.agent host address) = (do
        call.finish (agents.agent host address)
          (← agents.handle host address routed (call.request address p))) := by
  obtain ⟨p, hp, hrequest, hexchange⟩ := exchange_of_read h
  refine ⟨p, hp, hrequest, ?_⟩
  have hcarry : agents.carry host address call =
      agents.handle host address routed (call.request address p) := by
    funext w
    rw [carry_eq, hexchange]
    rfl
  rw [JobCall.perform_eq, ← hcarry]
  rfl

/-- A call that is not read fails, whatever the agents would do for others. -/
theorem perform_of_unread (host : String) (h : agents.read? address call = none) :
    ∃ e, ∀ answer w,
      call.perform (agent { agents with answer } host address) w = (.error e, w) := by
  obtain ⟨reason, hreason⟩ | ⟨request, hrefusal⟩ := exchange_of_unread h
  · refine ⟨.transport host reason, fun answer w => ?_⟩
    have hcarry : carry { agents with answer } host address call w =
        (.error (.transport host reason), w) := by
      rw [carry_eq, hreason]
      rfl
    rw [JobCall.perform_eq]
    exact bind_of_error hcarry
  · obtain ⟨e, he⟩ := call.finish_of_refused host address (agents.isRefusal request)
    refine ⟨e, fun answer w => ?_⟩
    have hcarry :
        carry { agents with answer } host address call w = (.ok (agents.refusal request), w) := by
      rw [carry_eq, hrefusal]
      rfl
    rw [JobCall.perform_eq]
    exact (bind_of_ok hcarry).trans (he _ w)

end Agents
end ControlPlane
