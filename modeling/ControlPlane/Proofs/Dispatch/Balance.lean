import ControlPlane.Proofs.Dispatch.History

/-! # Runs keep hosts in balance

A run gives one job to a host that has the fewest, so it makes no host lead another by more than one
job that did not lead it before. As long as hosts get their jobs by runs, and none is stopped, they
are as close as they were at the beginning or within one job of each other.
-/
namespace ControlPlane.MemoryCluster
open Dispatch
variable {c c' : MemoryCluster} {d : Nat}

def loads (c : MemoryCluster) : List Nat := c.hosts.values.map (·.jobs.length)

/-- The difference between the largest and the smallest number of jobs on a host. -/
def spread (c : MemoryCluster) : Nat := c.loads.max?.getD 0 - c.loads.min?.getD 0

/-- No host has more jobs than another by more than the bound. -/
def Within (c : MemoryCluster) (d : Nat) : Prop :=
  ∀ k k' h h', c.hosts.get? k = some h → c.hosts.get? k' = some h' →
    h.jobs.length ≤ h'.jobs.length + d

theorem mem_loads_iff {n : Nat} :
    n ∈ c.loads ↔ ∃ k h, c.hosts.get? k = some h ∧ h.jobs.length = n := by
  rw [loads, List.mem_map]
  constructor
  · rintro ⟨h, hh, hn⟩
    obtain ⟨k, hk⟩ := Dict.mem_values_iff.1 hh
    exact ⟨k, h, hk, hn⟩
  · rintro ⟨k, h, hk, hn⟩
    exact ⟨h, Dict.mem_values_iff.2 ⟨k, hk⟩, hn⟩

theorem spread_le_iff : c.spread ≤ d ↔ c.Within d := by
  rcases hmax : c.loads.max? with _ | most
  · have hempty : c.loads = [] := List.max?_eq_none_iff.1 hmax
    have hzero : c.spread = 0 := by simp [spread, hempty]
    refine ⟨fun _ k k' h h' hk hk' => ?_, fun _ => by omega⟩
    have hmem := mem_loads_iff.2 ⟨k, h, hk, rfl⟩
    rw [hempty] at hmem
    cases hmem
  rcases hmin : c.loads.min? with _ | least
  · rw [List.min?_eq_none_iff.1 hmin] at hmax
    cases hmax
  have hspread : c.spread = most - least := by rw [spread, hmax, hmin]; rfl
  obtain ⟨hmost, hle⟩ := List.max?_eq_some_iff.1 hmax
  obtain ⟨hleast, hge⟩ := List.min?_eq_some_iff.1 hmin
  rw [hspread]
  constructor
  · intro hd k k' h h' hk hk'
    have hbelow := hle _ (mem_loads_iff.2 ⟨k, h, hk, rfl⟩)
    have habove := hge _ (mem_loads_iff.2 ⟨k', h', hk', rfl⟩)
    omega
  · intro hwithin
    obtain ⟨k, h, hk, rfl⟩ := mem_loads_iff.1 hmost
    obtain ⟨k', h', hk', rfl⟩ := mem_loads_iff.1 hleast
    have hd := hwithin k k' h h' hk hk'
    omega

/-! ## One call -/

section Step
variable {h : MemoryHost}

theorem Within.of_same (hc : c.Within d) (hsame : ∀ k, c'.hosts.get? k = c.hosts.get? k) :
    c'.Within d := by
  intro k k' h h' hk hk'
  exact hc k k' h h' (hsame k ▸ hk) (hsame k' ▸ hk')

/-- Where one host is replaced, it has to be within the bound of all that were there. -/
theorem Within.onlyHost (hc : c.Within d) (hhosts : c.OnlyHost h c')
    (hclose : ∀ k other, c.hosts.get? k = some other →
      h.jobs.length ≤ other.jobs.length + d ∧
      other.jobs.length ≤ h.jobs.length + d) : c'.Within d := by
  intro k k' h₁ h₂ hk hk'
  rw [hhosts] at hk hk'
  split at hk <;> split at hk'
  · cases hk
    cases hk'
    exact Nat.le_add_right _ _
  · cases hk
    exact (hclose k' h₂ hk').1
  · cases hk'
    exact (hclose k h₁ hk).2
  · exact hc k k' h₁ h₂ hk hk'

/-- The host of choice has the fewest jobs, so with one more it leads by at most one. -/
theorem Within.run (hwithin : c.Within d) (hc : c.Keyed) (hd : 1 ≤ d) (s : Store) (now : Instant)
    (app : String) (job : NewJob) (attach : Bool) :
    (Dispatch.run s (cluster now) app job attach c).2.Within d := by
  obtain ⟨e, c', hrun, hsame, -⟩ | ⟨-, hostJob, h, session, c', -, -, hleast, -, hrun, -, hhosts⟩ :=
    run_cases hc s now app job attach
  · rw [hrun]
    exact hwithin.of_same hsame
  · rw [hrun]
    refine hwithin.onlyHost hhosts fun k other hother => ?_
    have hjobs : (h.taking now hostJob).jobs.length = h.jobs.length + 1 := by
      simp [MemoryHost.taking]
    have hfewest := hleast.le k other hother
    have hbefore := hwithin k h.id other h hother hleast.there
    dsimp only
    omega

theorem Within.rejectJobs (hwithin : c.Within d) (host reason : String) :
    (c.rejectJobs host reason).Within d := by
  unfold MemoryCluster.rejectJobs
  split
  · exact hwithin
  · next h hget =>
    refine hwithin.onlyHost (onlyHost_putHost c _) fun k other hother => ?_
    exact ⟨hwithin host k h other hget hother, hwithin k host other h hother hget⟩

end Step

/-! ## Any number of calls -/

/-- Runs, and what makes them be rejected: such calls bring no host, and stop no job. -/
def Call.onlyRuns : Call → Bool
  | .run .. | .rejectJobs .. => true
  | .addHost _ | .kill .. => false

theorem Within.perform (hwithin : c.Within d) (hc : c.Keyed) (hd : 1 ≤ d) {call : Call}
    (hcall : call.onlyRuns = true) : (c.perform call).1.Within d := by
  cases call with
  | run s now app job attach => exact hwithin.run hc hd s now app job attach
  | rejectJobs host reason => exact hwithin.rejectJobs host reason
  | addHost => cases hcall
  | kill => cases hcall

theorem Within.performAll (hwithin : c.Within d) (hc : c.Keyed) (hd : 1 ≤ d) {calls : List Call}
    (hcalls : ∀ call ∈ calls, call.onlyRuns = true) : (c.performAll calls).Within d := by
  induction calls generalizing c with
  | nil => exact hwithin
  | cons call calls ih =>
    obtain ⟨hcall, hcalls⟩ := List.forall_mem_cons.1 hcalls
    exact ih (hwithin.perform hc hd hcall) ((perform_effect hc call).keyed hc) hcalls

/-- Whatever runs there are, and whether they succeed, fail or are rejected, the difference between
the largest and the smallest number of jobs on a host does not grow, but for a difference of one. -/
theorem runs_keep_balance (hc : c.Keyed) {calls : List Call}
    (hcalls : ∀ call ∈ calls, call.onlyRuns = true) :
    (c.performAll calls).spread ≤ max 1 c.spread := by
  have hwithin : c.Within (max 1 c.spread) := spread_le_iff.1 (Nat.le_max_right _ _)
  exact spread_le_iff.2 (hwithin.performAll hc (Nat.le_max_left _ _) hcalls)

/-- One host has two jobs, and the other none. -/
def unevenCluster : MemoryCluster :=
  (({} : MemoryCluster).addHost "host1").putHost
    { id := "host0", incarnation := 1, jobs := [default, default] }

/-- Four jobs, one of them attached, and two runs that fail: for an app that is unknown, and
on a host that is full. -/
def levelling : List Call :=
  [.run sampleStore .epoch "web" sampleJob false, .run sampleStore .epoch "unknown" sampleJob false,
    .run sampleStore .epoch "web" sampleJob false, .run sampleStore .epoch "web" sampleJob true,
    .rejectJobs "host0" "full", .run sampleStore .epoch "web" sampleJob false,
    .run sampleStore .epoch "web" sampleJob false]

theorem runs_keep_balance_of_levelling :
    unevenCluster.Keyed ∧ (∀ call ∈ levelling, call.onlyRuns = true) ∧
    unevenCluster.spread = 2 ∧ (unevenCluster.performAll levelling).spread ≤ 2 := by
  have hkeyed : unevenCluster.Keyed := (keyed_empty.addHost "host1").putHost _
  have hcalls : ∀ call ∈ levelling, call.onlyRuns = true := by decide
  have hspread : unevenCluster.spread = 2 := by decide +kernel
  have hkept := runs_keep_balance hkeyed hcalls
  rw [hspread] at hkept
  exact ⟨hkeyed, hcalls, hspread, hkept⟩

end ControlPlane.MemoryCluster
