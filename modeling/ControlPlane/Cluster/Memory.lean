import ControlPlane.Cluster.Basic
import ControlPlane.Job

/-! # Clusters in memory

A host in memory keeps its jobs and records what it is asked to stop, to attach and to resize. The
events of a host reach each of its listeners through a queue that keeps the newest 64; what is lost
is counted, and the count shows as one error in front of the rest.
-/
namespace ControlPlane

structure MemoryHost where
  id : String
  /-- Tells this host from others that had its name before. -/
  incarnation : Nat
  jobs : List ActiveJob := []
  nextJob : Nat := 0
  stopped : List String := []
  attaches : List (AttachRequest × Bool) := []
  resizes : List (String × UInt16 × UInt16) := []
  /-- What an attach to a job gets to read, where no handler is set. -/
  output : Dict Bytes := {}
  /-- The far end of every later attach. -/
  handler : Option Peer := none
  /-- Why every later job is refused. -/
  rejection : Option String := none
  deriving DecidableEq, Inhabited

namespace MemoryHost

def find? (h : MemoryHost) (job : String) : Option ActiveJob := h.jobs.find? (·.job.id == job)

def notFound (h : MemoryHost) (job : String) : ClusterError :=
  .jobNotFound (JobId.render ⟨h.id, job⟩)

/-- Puts a running job on the host. -/
def insertJob (h : MemoryHost) (now : Instant) (job : HostJob) : MemoryHost :=
  { h with jobs := h.jobs ++ [⟨job, .running, some now⟩] }

/-- A job without an identifier is numbered. -/
def addJob (h : MemoryHost) (now : Instant) (job : HostJob) :
    Except ClusterError (String × MemoryHost) :=
  match h.rejection with
  | some reason => .error (.rejected reason)
  | none =>
    if job.id.isEmpty then
      let id := "job" ++ toString h.nextJob
      .ok (id, { h with nextJob := h.nextJob + 1 }.insertJob now { job with id })
    else .ok (job.id, h.insertJob now job)

/-- Drops the jobs of an identifier, and tells whether there were any. -/
def stopJob (h : MemoryHost) (job : String) : Bool × MemoryHost :=
  ((h.find? job).isSome,
    { h with stopped := h.stopped ++ [job], jobs := h.jobs.filter (·.job.id != job) })

/-- The far end of an attach: the handler, the output set for the job, or one
that holds a job's pipe. -/
def peer? (h : MemoryHost) (job : String) : Option Peer :=
  h.handler <|> (h.output.get? job).map .writes <|> (h.find? job).map fun _ => .holds

/-- Every request is recorded, whatever becomes of it. -/
def attach (h : MemoryHost) (request : AttachRequest) (wait : Bool) :
    Except ClusterError AttachHandle × MemoryHost :=
  let answer := match h.peer? request.job with
    | some peer => .ok ⟨peer, request.flags.contains .stdin⟩
    | none => .error (h.notFound request.job)
  (answer, { h with attaches := h.attaches ++ [(request, wait)] })

end MemoryHost

/-- The events that one listener of a host has not taken yet, the oldest first. -/
structure Listener where
  incarnation : Nat
  queue : List HostEvent := []
  /-- How many older events were lost since the last look. -/
  lost : Nat := 0
  deriving DecidableEq, Repr, Inhabited

namespace Listener

def capacity : Nat := 64

def push (event : HostEvent) (l : Listener) : Listener :=
  if l.queue.length < capacity then { l with queue := l.queue ++ [event] }
  else { l with queue := l.queue.tail ++ [event], lost := l.lost + 1 }

/-- The error that stands for lost events. -/
def gapError (lost : Nat) : ClusterError := .undecodable ("channel lagged by " ++ toString lost)

end Listener

structure MemoryCluster where
  hosts : Dict MemoryHost := {}
  /-- How many hosts there have been. -/
  incarnations : Nat := 0
  listeners : List Listener := []
  deriving DecidableEq, Inhabited

namespace MemoryCluster

/-- Adds a host, in place of one of the same name. -/
def addHost (c : MemoryCluster) (id : String) : MemoryCluster :=
  { c with
    hosts := c.hosts.insert id { id, incarnation := c.incarnations }
    incarnations := c.incarnations + 1 }

def removeHost (c : MemoryCluster) (id : String) : MemoryCluster :=
  { c with hosts := c.hosts.erase id }

def putHost (c : MemoryCluster) (h : MemoryHost) : MemoryCluster :=
  { c with hosts := c.hosts.insert h.id h }

/-- Publishes an event to the listeners of a host. -/
def emit (c : MemoryCluster) (incarnation : Nat) (event : HostEvent) : MemoryCluster :=
  { c with listeners := c.listeners.map fun l => if l.incarnation = incarnation
    then l.push event else l }

def listHosts (c : MemoryCluster) : List Host :=
  c.hosts.values.map fun h => ⟨h.id, h.jobs.map (·.job)⟩

/-- Takes what a listener holds, of one job or of all. -/
def listen (listener : Nat) (job : Option String) : EventTap MemoryCluster := fun c =>
  match c.listeners[listener]? with
  | none => ([], c)
  | some l =>
    let gap := if l.lost = 0 then [] else [.error (Listener.gapError l.lost)]
    let events := l.queue.filter fun e => job.all (· == e.job)
    (gap ++ events.map .ok,
      { c with listeners := c.listeners.set listener { incarnation := l.incarnation } })

/-- Acts on a host, if it is still the one that was dialed. A host that was
taken out is out of reach. -/
def onHost {α : Type} (dialed : MemoryHost)
    (act : MemoryHost → Except ClusterError α × MemoryHost) :
    ClusterAct MemoryCluster α := fun c =>
  match (c.hosts.get? dialed.id).filter (·.incarnation == dialed.incarnation) with
  | none => (.error (.hostNotFound dialed.id), c)
  | some h => let (answer, h) := act h; (answer, c.putHost h)

def announce (h : MemoryHost) (event : HostEvent) : ClusterAct MemoryCluster Unit :=
  modify (·.emit h.incarnation event)

/-- A client that acts on a host at the given time. -/
def client (now : Instant) (h : MemoryHost) : HostClient MemoryCluster where
  host := h.id
  listJobs := onHost h fun h => (.ok h.jobs, h)
  getJob job := onHost h fun h =>
    (match h.find? job with
      | some active => .ok active
      | none => .error (h.notFound job), h)
  addJob job := do
    let id ← onHost h fun h =>
      match h.addJob now job with
      | .ok (id, h) => (.ok id, h)
      | .error e => (.error e, h)
    announce h ⟨id, .create⟩
    return id
  stopJob job := do
    if ← onHost h fun h =>
      let (wasThere, h) := h.stopJob job; (.ok wasThere, h) then announce h ⟨job, .stop⟩
  attach request wait := onHost h fun h => h.attach request wait
  resize job width height := fun c =>
    let (_, c) :=
      onHost h (fun h => (.ok (), { h with resizes := h.resizes ++ [(job, width, height)] })) c
    (.ok (), c)
  events job := fun c =>
    (.ok (listen c.listeners.length job),
      { c with listeners := c.listeners ++ [{ incarnation := h.incarnation }] })

def cluster (now : Instant) : Cluster MemoryCluster where
  listHosts := fun c => (.ok c.listHosts, c)
  dial host := fun c =>
    match c.hosts.get? host with
    | some h => (.ok (client now h), c)
    | none => (.error (.hostNotFound host), c)

end MemoryCluster
end ControlPlane
