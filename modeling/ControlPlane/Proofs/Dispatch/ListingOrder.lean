import ControlPlane.Dispatch
import ControlPlane.Proofs.Cluster.AgentAddress
import ControlPlane.Proofs.Cluster.Memory
import ControlPlane.Proofs.Placement

/-! # Runs and the order of a listing

A cluster may list its hosts in whatever order their answers come. As long as it lists no identifier
twice, a run does the same to the same host. That is so for agents, whatever the network makes of
them, and for hosts in memory.
-/
namespace ControlPlane
variable {σ : Type}

/-- The cluster with each listing in another order, which may depend on the
world that it is made in. -/
def Cluster.reordered (cluster : Cluster σ) (order : σ → List Host → List Host) : Cluster σ :=
  { cluster with listHosts := fun w =>
    ((cluster.listHosts w).1.map (order w), (cluster.listHosts w).2) }

namespace Dispatch
variable {cluster : Cluster σ} {order : σ → List Host → List Host}

/-- A run answers the same, and leaves the same world behind. -/
theorem run_reordered (horder : ∀ w hosts, (order w hosts).Perm hosts) {w : σ}
    (hids : ∀ hosts w', cluster.listHosts w = (.ok hosts, w') → (hosts.map Host.id).Nodup)
    (s : Store) (app : String) (job : NewJob) (attach : Bool) :
    run s (cluster.reordered order) app job attach w = run s cluster app job attach w := by
  -- The store is asked first, and the cluster only then.
  refine bind_liftM_congr fun a => bind_liftM_congr fun hostJob => ?_
  rcases hlist : cluster.listHosts w with ⟨e | hosts, w'⟩
  · have hlist' : (cluster.reordered order).listHosts w = (.error e, w') := by
      simp only [Cluster.reordered, hlist, Except.map]
    exact (bind_of_error (adapt_of_error _ hlist')).trans
      (bind_of_error (adapt_of_error _ hlist)).symm
  · have hlist' : (cluster.reordered order).listHosts w = (.ok (order w hosts), w') := by
      simp only [Cluster.reordered, hlist, Except.map]
    refine (bind_of_ok (adapt_of_ok _ hlist')).trans
      (Eq.trans ?_ (bind_of_ok (adapt_of_ok _ hlist)).symm)
    rw [Placement.choose_of_perm (hids hosts w' hlist) (horder w hosts)]
    rfl

end Dispatch

/-! ## No identifier is listed twice -/

namespace Agent

/-- An agent that does not answer is no host, and the world is as its failure left it. -/
theorem probe_apply (a : Agent σ) (w : AgentWorld σ) : a.probe w =
    (.ok ((a.client.listJobs w).1.toOption.map fun jobs => ⟨a.host, jobs.map (·.job)⟩),
      (a.client.listJobs w).2) := by
  unfold probe
  simp only [bind, ExceptT.bind, ExceptT.mk, StateT.bind, tryCatch, tryCatchThe,
    MonadExceptOf.tryCatch, ExceptT.tryCatch]
  rcases a.client.listJobs w with ⟨e | jobs, w'⟩ <;> rfl

theorem answers_probe (a : Agent σ) :
    Answers (fun found => ∀ h ∈ found, h.id = a.host) a.probe := by
  intro w found w' hrun h hfound
  rw [probe_apply] at hrun
  cases hrun
  obtain ⟨jobs, -, rfl⟩ := Option.map_eq_some_iff.1 hfound
  rfl

theorem answers_probes (agents : List (Agent σ)) :
    Answers (fun found => ((found.filterMap id).map Host.id).Sublist (agents.map (·.host)))
      (agents.mapM probe) := by
  induction agents with
  | nil => exact .pure (List.Sublist.refl [])
  | cons a agents ih =>
    rw [List.mapM_cons]
    refine .bind_of_answers (answers_probe a) fun found hfound =>
      .bind_of_answers ih fun rest hrest => .pure ?_
    cases found with
    | none => exact hrest.cons _
    | some h =>
      have hid : h.id = a.host := hfound h rfl
      simpa [hid] using hrest

theorem answers_listHosts (network : Http.Network σ) (hosts : List HostConfig) :
    Answers (fun listed => (listed.map Host.id).Nodup) (cluster network hosts).listHosts := by
  have hagents : ((ofConfig network hosts).values.map (·.host)).Nodup :=
    List.pairwise_map.2 (Dict.pairwise_values_ne fun _ _ h => congrArg Agent.host (eq_of_get? h))
  exact .bind_of_answers (answers_probes _) fun found hfound => .pure (hfound.nodup hagents)

/-- In whatever order the agents answer, a run over them does the same. -/
theorem run_reordered (network : Http.Network σ) (hosts : List HostConfig)
    {order : AgentWorld σ → List Host → List Host}
    (horder : ∀ w listed, (order w listed).Perm listed) (s : Store) (app : String) (job : NewJob)
    (attach : Bool) :
    Dispatch.run s ((cluster network hosts).reordered order) app job attach =
      Dispatch.run s (cluster network hosts) app job attach :=
  funext fun _ =>
    Dispatch.run_reordered horder (fun _ _ h => answers_listHosts network hosts h) s app job attach

end Agent

namespace MemoryCluster
variable {c : MemoryCluster}

theorem Keyed.nodup_listHosts (hc : c.Keyed) : (c.listHosts.map Host.id).Nodup := by
  rw [listHosts, List.map_map]
  exact List.pairwise_map.2 (Dict.pairwise_values_ne hc)

theorem run_reordered (hc : c.Keyed) {order : MemoryCluster → List Host → List Host}
    (horder : ∀ c listed, (order c listed).Perm listed) (s : Store) (now : Instant) (app : String)
    (job : NewJob) (attach : Bool) :
    Dispatch.run s ((cluster now).reordered order) app job attach c =
      Dispatch.run s (cluster now) app job attach c := by
  refine Dispatch.run_reordered horder (fun listed c' h => ?_) s app job attach
  cases h
  exact hc.nodup_listHosts

end MemoryCluster
end ControlPlane
