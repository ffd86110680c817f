import ControlPlane.Cluster.Memory
import ControlPlane.Proofs.Cluster.Act
import ControlPlane.Proofs.Dict

/-! # What clients do to a cluster in memory

A client acts on the host it was dialed for as long as that host is there. For one that was
just dialed each act is a function of the host, whose place in the cluster is then taken by the
host that the act leaves.
-/
namespace ControlPlane
namespace MemoryHost

/-- A job under the next number of a host. -/
def number (h : MemoryHost) (job : HostJob) : HostJob :=
  { job with id := "job" ++ toString h.nextJob }

/-- A host that has taken on a job under its next number. -/
def taking (h : MemoryHost) (now : Instant) (job : HostJob) : MemoryHost :=
  { h with nextJob := h.nextJob + 1, jobs := h.jobs ++ [⟨h.number job, .running, some now⟩] }

theorem addJob_of_rejection {h : MemoryHost} {reason : String} (hreason : h.rejection = some reason)
    (now : Instant) (job : HostJob) :
    h.addJob now job = .error (.rejected reason) := by
  rw [addJob, hreason]

theorem addJob_of_unnamed {h : MemoryHost} {job : HostJob} (haccepts : h.rejection = none)
    (hjob : job.id = "") (now : Instant) :
    h.addJob now job = .ok ((h.number job).id, h.taking now job) := by
  have hblank : job.id.isEmpty = true := by simp [hjob]
  rw [addJob]
  split
  · next hreason => simp [haccepts] at hreason
  · rw [if_pos hblank]
    rfl

theorem mem_jobs_taking (h : MemoryHost) (now : Instant) (job : HostJob) :
    ⟨h.number job, .running, some now⟩ ∈ (h.taking now job).jobs :=
  List.mem_append_right h.jobs List.mem_cons_self

theorem isSome_find? {h : MemoryHost} {active : ActiveJob} (hjob : active ∈ h.jobs) :
    (h.find? active.job.id).isSome = true := by
  rw [find?, List.find?_isSome]
  exact ⟨active, hjob, beq_self_eq_true _⟩

/-- An attach to a job of the host is granted. -/
theorem exists_attach_eq_ok {h : MemoryHost} {active : ActiveJob} (hjob : active ∈ h.jobs)
    (request : AttachRequest) (hrequest : request.job = active.job.id) (wait : Bool) :
    ∃ handle, h.attach request wait =
      (.ok handle, { h with attaches := h.attaches ++ [(request, wait)] }) := by
  have hpeer : (h.peer? request.job).isSome = true := by
    have hfound := isSome_find? hjob
    rw [peer?, hrequest]
    simp [hfound]
  obtain ⟨peer, hpeer⟩ := Option.isSome_iff_exists.1 hpeer
  rw [attach, hpeer]
  exact ⟨_, rfl⟩

end MemoryHost

namespace MemoryCluster
variable {c : MemoryCluster} {h : MemoryHost} (now : Instant)

/-- Hosts stand under their own identifiers. -/
def Keyed (c : MemoryCluster) : Prop := ∀ k h, c.hosts.get? k = some h → h.id = k

theorem keyed_empty : Keyed {} := by
  intro k h hk
  simp at hk

/-- `c'` has the hosts of `c`, but for one that stands in its place. -/
def OnlyHost (c : MemoryCluster) (h : MemoryHost) (c' : MemoryCluster) : Prop :=
  ∀ k, c'.hosts.get? k = if h.id = k then some h else c.hosts.get? k

theorem onlyHost_putHost (c : MemoryCluster) (h : MemoryHost) : c.OnlyHost h (c.putHost h) :=
  fun _ => Dict.get?_insert ..

theorem OnlyHost.get?_self {c' : MemoryCluster} (hhosts : c.OnlyHost h c') :
    c'.hosts.get? h.id = some h := by
  rw [hhosts, if_pos rfl]

theorem OnlyHost.get?_of_ne {c' : MemoryCluster} (hhosts : c.OnlyHost h c') {k : String}
    (hk : h.id ≠ k) :
    c'.hosts.get? k = c.hosts.get? k := by
  rw [hhosts, if_neg hk]

theorem onlyHost_of_get? (hget : c.hosts.get? h.id = some h) : c.OnlyHost h c := by
  intro k
  split
  · next hk => rw [← hk, hget]
  · rfl

/-- Of two acts on one host the last one tells how it stands. -/
theorem OnlyHost.trans {c₁ c₂ : MemoryCluster} {h' : MemoryHost} (hhosts : c.OnlyHost h c₁)
    (hhosts' : c₁.OnlyHost h' c₂) (hid : h'.id = h.id) : c.OnlyHost h' c₂ := by
  intro k
  rw [hhosts', hhosts, hid]
  split <;> rfl

theorem Keyed.onlyHost {c' : MemoryCluster} (hc : c.Keyed) (hhosts : c.OnlyHost h c') :
    c'.Keyed := by
  intro k h' hk
  rw [hhosts] at hk
  split at hk
  · next he => cases hk; exact he
  · exact hc k h' hk

theorem Keyed.putHost (hc : c.Keyed) (h : MemoryHost) : (c.putHost h).Keyed :=
  hc.onlyHost (onlyHost_putHost c h)

theorem Keyed.emit (hc : c.Keyed) (incarnation : Nat) (event : HostEvent) :
    (c.emit incarnation event).Keyed := hc

theorem Keyed.addHost (hc : c.Keyed) (id : String) : (c.addHost id).Keyed :=
  hc.putHost { id, incarnation := c.incarnations }

theorem Keyed.removeHost (hc : c.Keyed) (id : String) : (c.removeHost id).Keyed := by
  intro k h hk
  rw [MemoryCluster.removeHost, Dict.get?_erase] at hk
  split at hk
  · cases hk
  · exact hc k h hk

theorem get?_putHost_self (c : MemoryCluster) (h : MemoryHost) :
    (c.putHost h).hosts.get? h.id = some h :=
  (onlyHost_putHost c h).get?_self

theorem get?_putHost_of_get? (hget : c.hosts.get? h.id = some h) (k : String) :
    (c.putHost h).hosts.get? k = c.hosts.get? k := by
  rw [onlyHost_putHost]
  split
  · next hk => rw [← hk, hget]
  · rfl

/-- A client knows its host by its name and its incarnation, and by nothing else. -/
theorem client_congr {h' : MemoryHost} (hid : h.id = h'.id)
    (hsame : h.incarnation = h'.incarnation) :
    client now h = client now h' := by
  unfold client onHost announce
  rw [hid, hsame]

theorem dial_of_get? {k : String} (hget : c.hosts.get? k = some h) :
    (cluster now).dial k c = (.ok (client now h), c) := by
  simp only [cluster, hget]

theorem dial_of_none {k : String} (hget : c.hosts.get? k = none) :
    (cluster now).dial k c = (.error (.hostNotFound k), c) := by
  simp only [cluster, hget]

theorem onHost_of_get? {α : Type} (hget : c.hosts.get? h.id = some h)
    (act : MemoryHost → Except ClusterError α × MemoryHost) :
    onHost h act c = ((act h).1, c.putHost (act h).2) := by
  have hsame : (some h).filter (·.incarnation == h.incarnation) = some h := by simp
  simp only [onHost, hget, hsame]

theorem stopJob_client (hget : c.hosts.get? h.id = some h) (job : String) :
    (client now h).stopJob job c = (.ok (), if (h.stopJob job).1
      then (c.putHost (h.stopJob job).2).emit h.incarnation ⟨job, .stop⟩
        else c.putHost (h.stopJob job).2) := by
  have hact := onHost_of_get? hget fun h => (.ok (h.stopJob job).1, (h.stopJob job).2)
  refine (bind_of_ok hact).trans ?_
  split <;> rfl

theorem attach_client (hget : c.hosts.get? h.id = some h) (request : AttachRequest) (wait : Bool) :
    (client now h).attach request wait c =
      ((h.attach request wait).1, c.putHost (h.attach request wait).2) :=
  onHost_of_get? hget fun h => h.attach request wait

theorem addJob_client (hget : c.hosts.get? h.id = some h) (job : HostJob) :
    (client now h).addJob job c = match h.addJob now job with
      | .ok (id, h') => (.ok id, (c.putHost h').emit h.incarnation ⟨id, .create⟩)
      | .error e => (.error e, c.putHost h) := by
  have hact := onHost_of_get? hget fun h =>
    match h.addJob now job with
    | .ok (id, h) => (.ok id, h)
    | .error e => (.error e, h)
  rcases hadd : h.addJob now job with e | ⟨id, h'⟩ <;> rw [hadd] at hact
  · exact bind_of_error hact
  · exact (bind_of_ok hact).trans rfl

end MemoryCluster
end ControlPlane
