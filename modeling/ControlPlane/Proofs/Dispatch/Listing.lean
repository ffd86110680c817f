import ControlPlane.Proofs.Dispatch.History

/-! # The jobs that are listed are those that were run and not killed

What a cluster in memory lists for an app is told by its history alone: the jobs that were run for
the app and that no kill has named since, host by host, and on each host in the order of the runs.
-/
namespace ControlPlane.MemoryCluster
open Dispatch

section Sorting
variable {α : Type} {f : α → String} {keys : List String}

private theorem split_unique {p : α → Bool} {l₁ l₂ m₁ m₂ : List α} (h : l₁ ++ l₂ = m₁ ++ m₂)
    (hl₁ : ∀ x ∈ l₁, p x = true) (hl₂ : ∀ x ∈ l₂, ¬ p x = true) (hm₁ : ∀ x ∈ m₁, p x = true)
    (hm₂ : ∀ x ∈ m₂, ¬ p x = true) : l₁ = m₁ ∧ l₂ = m₂ := by
  have hfront := congrArg (List.filter p) h
  rw [List.filter_append, List.filter_append, List.filter_eq_self.2 hl₁, List.filter_eq_self.2 hm₁,
    List.filter_eq_nil_iff.2 hl₂, List.filter_eq_nil_iff.2 hm₂, List.append_nil, List.append_nil]
    at hfront
  subst hfront
  exact ⟨rfl, List.append_cancel_left h⟩

/-- To sort by a key, and leave elements of one key in their order, is to go through the keys. -/
theorem mergeSort_eq_flatMap (hkeys : keys.Pairwise (· < ·)) (l : List α)
    (hl : ∀ x ∈ l, f x ∈ keys) :
    l.mergeSort (fun x y => f x ≤ f y) = keys.flatMap fun k => l.filter (f · == k) := by
  have htrans (x y z : α) : decide (f x ≤ f y) = true → decide (f y ≤ f z) = true →
      decide (f x ≤ f z) = true := by
    simpa using String.le_trans
  have htotal (x y : α) : (decide (f x ≤ f y) || decide (f y ≤ f x)) = true := by
    simpa using String.le_total (f x) (f y)
  induction l with
  | nil => simp
  | cons a l ih =>
    obtain ⟨l₁, l₂, hcons, hrest, hbefore⟩ := List.mergeSort_cons htrans htotal a l
    have hsorted := List.pairwise_mergeSort htrans htotal (a :: l)
    rw [hcons] at hsorted ⊢
    obtain ⟨ks, ks', rfl⟩ := List.append_of_mem (hl a List.mem_cons_self)
    obtain ⟨-, hkeys', hlow⟩ := List.pairwise_append.1 hkeys
    have hhigh := (List.pairwise_cons.1 hkeys').1
    -- The element goes in front of the others of its key, and behind all of lesser keys.
    have hkey {x : α} {js : List String} (hx : x ∈ js.flatMap fun k => l.filter (f · == k)) :
        f x ∈ js := by
      obtain ⟨k, hk, hx⟩ := List.mem_flatMap.1 hx
      obtain rfl : f x = k := by simpa using (List.mem_filter.1 hx).2
      exact hk
    have hlesser : ∀ x ∈ ks.flatMap fun k => l.filter (f · == k), decide (f x < f a) = true :=
      fun x hx => decide_eq_true (hlow _ (hkey hx) _ List.mem_cons_self)
    have hothers : ∀ x ∈ (f a :: ks').flatMap fun k =>
        l.filter (f · == k), ¬ decide (f x < f a) = true := by
      intro x hx hlt
      have hlt : f x < f a := of_decide_eq_true hlt
      rcases List.mem_cons.1 (hkey hx) with he | hmem
      · rw [he] at hlt
        exact String.lt_irrefl _ hlt
      · exact String.lt_irrefl _ (String.lt_trans (hhigh _ hmem) hlt)
    have hsame := ih fun x hx => hl x (List.mem_cons_of_mem _ hx)
    rw [hrest, List.flatMap_append] at hsame
    have hbefore : ∀ x ∈ l₁, decide (f x < f a) = true := by
      intro x hx
      have hnot : ¬ f a ≤ f x := by simpa using hbefore x hx
      exact decide_eq_true (String.not_le.1 hnot)
    have hbehind : ∀ x ∈ l₂, ¬ decide (f x < f a) = true := by
      intro x hx hlt
      have hle := List.rel_of_pairwise_cons (List.pairwise_append.1 hsorted).2.1 hx
      exact String.not_lt.2 (of_decide_eq_true hle) (of_decide_eq_true hlt)
    obtain ⟨rfl, rfl⟩ := split_unique hsame hbefore hbehind hlesser hothers
    have hother (js : List String) (hjs : ∀ k ∈ js, f a ≠ k) :
        (js.flatMap fun k => (a :: l).filter (f · == k)) = js.flatMap fun k =>
          l.filter (f · == k) :=
      List.flatMap_congr fun k hk => List.filter_cons_of_neg (by simpa using hjs k hk)
    have hne {k k' : String} (hlt : k < k') : k ≠ k' := fun he => String.lt_irrefl k' (he ▸ hlt)
    rw [List.flatMap_append, List.flatMap_cons, List.flatMap_cons,
      List.filter_cons_of_pos (by simp),
      hother ks fun k hk => (hne (hlow k hk _ List.mem_cons_self)).symm, hother ks' fun k hk =>
        hne (hhigh k hk)]
    rfl

end Sorting

/-- The jobs of an app that stand, by their hosts, and on each host in the order of the runs. -/
def listing (app : String) (hist : List Outcome) : List Job :=
  (((standing hist).filter (·.1 == app)).map (·.2)).mergeSort fun j j' => j.host ≤ j'.host

section List
variable {s : Store} {now : Instant} {app : String} {a : App} {c : MemoryCluster}
  {hist : List Outcome}

/-- The jobs of an app on a host are those of the app that stand on the host. -/
theorem Recorded.jobsOf_eq (hr : Recorded c hist) {h : MemoryHost}
    (hget : c.hosts.get? h.id = some h) (a : App) :
    jobsOf a ⟨h.id, h.jobs.map (·.job)⟩ =
      (((standing hist).filter (·.1 == a.id)).map (·.2)).filter (·.host == h.id) :=
  calc jobsOf a ⟨h.id, h.jobs.map (·.job)⟩
      = ((h.jobs.map (shown h.id)).filter (·.1 == some a.id)).map (·.2) := by
        simp only [jobsOf, List.filter_map, List.map_map]
        rfl
    _ =
      (((standingOn h.id hist).map fun p => (some p.1, p.2)).filter (·.1 == some a.id)).map
        (·.2) := by
        rw [hr.jobs h hget]
    _ = ((standingOn h.id hist).filter (·.1 == a.id)).map (·.2) := by
        simp [List.filter_map, Function.comp_def]
    _ = (((standing hist).filter (·.1 == a.id)).map (·.2)).filter (·.host == h.id) := by
        rw [standingOn, List.filter_comm, List.filter_map]
        rfl

/-- What is listed for an app is what its history lists. -/
theorem Recorded.listJobs_eq (hr : Recorded c hist) (happ : s.getApp? app = some a)
    (now : Instant) :
    listJobs s (cluster now) app c = (.ok (listing a.id hist), c) := by
  have hkeys : (c.hosts.values.map (·.id)).Pairwise (· < ·) :=
    List.pairwise_map.2 (Dict.pairwise_values_lt hr.keyed)
  have hhosts : ∀ j ∈ ((standing hist).filter (·.1 == a.id)).map (·.2),
      j.host ∈ c.hosts.values.map (·.id) := by
    intro j hj
    obtain ⟨p, hp, rfl⟩ := List.mem_map.1 hj
    obtain ⟨h, hget, hhost⟩ := hr.exists_host (List.mem_filter.1 hp).1
    exact List.mem_map.2 ⟨h, Dict.mem_values_iff.2 ⟨_, hget⟩, hhost.symm⟩
  have hlist : c.listHosts.flatMap (jobsOf a) = listing a.id hist := by
    rw [listing, mergeSort_eq_flatMap hkeys _ hhosts, listHosts, List.flatMap_map, List.flatMap_map]
    refine List.flatMap_congr fun h hh => hr.jobsOf_eq ?_ a
    obtain ⟨k, hk⟩ := Dict.mem_values_iff.1 hh
    rwa [hr.keyed k h hk]
  rw [listJobs, resolveApp, happ, ← hlist]
  rfl

theorem mem_listing_iff {job : Job} : job ∈ listing app hist ↔ (app, job) ∈ standing hist := by
  simp [listing]

/-- What other apps run leaves the list as it is, and so does a kill that names none of its jobs. -/
theorem listing_append {o? : Option Outcome} (hran : ∀ job, o? ≠ some (.ran app job))
    (hkilled : ∀ job ∈ listing app hist, o? ≠ some (.killed job.id)) :
    listing app (hist ++ o?.toList) = listing app hist := by
  cases o? with
  | none => rw [Option.toList_none, List.append_nil]
  | some o =>
    rw [listing, listing, Option.toList_some]
    cases o with
    | ran app' job =>
      have hother : app' ≠ app := by
        rintro rfl
        exact hran job rfl
      rw [standing_append_ran, List.filter_append]
      simp [hother]
    | killed text =>
      have hkept : ((standing hist).filter (·.1 == app)).filter (·.2.id != text) =
          (standing hist).filter (·.1 == app) := by
        rw [List.filter_eq_self]
        rintro ⟨app', job⟩ hmem
        obtain ⟨hstands, happ⟩ := List.mem_filter.1 hmem
        obtain rfl : app' = app := by simpa using happ
        rw [bne_iff_ne]
        rintro rfl
        exact hkilled job (mem_listing_iff.2 hstands) rfl
      rw [standing_append_killed, List.filter_comm, hkept]

end List

/-- After any calls that add each host once, under an identifier that can be read again: no two
jobs that were answered share an identifier; and what is listed for an app is what was run for it
and not killed since, as it was answered, by hosts and on each host in the order of the runs. No
job of another app is listed, and no call changes the list but a run for the app and a kill that
names a job of the list. -/
theorem jobs_retold (calls : List Call) (hcalls : Admitted calls) :
    let c := ({} : MemoryCluster).performAll calls
    let hist := history {} calls
    (hist.filterMap Outcome.jobId?).Nodup ∧
    ∀ s now app a, s.getApp? app = some a →
      listJobs s (cluster now) app c = (.ok (listing a.id hist), c) ∧
      (∀ app' job, .ran app' job ∈ hist → app' ≠ a.id → job ∉ listing a.id hist) ∧
      ∀ call, Admitted (calls ++ [call]) → (∀ job, (c.perform call).2 ≠ some (.ran a.id job)) →
        (∀ job ∈ listing a.id hist, (c.perform call).2 ≠ some (.killed job.id)) →
        listJobs s (cluster now) app (c.perform call).1 =
          (.ok (listing a.id hist), (c.perform call).1) := by
  intro c hist
  have hr (calls : List Call) (hcalls : Admitted calls) :
      Recorded (({} : MemoryCluster).performAll calls) (history {} calls) :=
    recorded_empty.performAll calls hcalls fun _ _ => rfl
  refine ⟨(hr calls hcalls).distinct,
    fun s now app a happ => ⟨(hr calls hcalls).listJobs_eq happ now,
    fun app' job hran hother hlisted => ?_, fun call hcall hran hkilled => ?_⟩⟩
  · have hown := mem_of_mem_standing (mem_listing_iff.1 hlisted)
    exact hother (ran_inj (hr calls hcalls).distinct hran hown rfl).1
  · have hlist := (hr _ hcall).listJobs_eq happ now
    rwa [performAll_append, history_append, listing_append hran hkilled] at hlist

/-- Two hosts and four runs, of which the last is refused; a job is killed in between. -/
def sampleCalls : List Call :=
  let run (attach : Bool) : Call := .run sampleStore .epoch "web" sampleJob attach
  [.addHost "host1", run false, .addHost "host0", run true, run false,
    .kill sampleStore .epoch "web" "host0-job0", .rejectJobs "host0" "out of memory", run false]

/-- The job that was run last stands first, for its host does. -/
theorem jobs_retold_of_sample :
    Admitted sampleCalls ∧ ∃ a, sampleStore.getApp? "web" = some a ∧
      (history {} sampleCalls).filterMap Outcome.jobId? =
        ["host1-job0", "host0-job0", "host0-job1"] ∧
      (listing a.id (history {} sampleCalls)).map (·.id) = ["host0-job1", "host1-job0"] := by
  have hcalls : Admitted sampleCalls := by decide +kernel
  obtain ⟨a, ha⟩ : ∃ a, sampleStore.getApp? "web" = some a :=
    Option.isSome_iff_exists.1 (by decide +kernel)
  have hids :
      (listJobs sampleStore (cluster .epoch) "web"
        (({} : MemoryCluster).performAll sampleCalls)).1.toOption.map
      (·.map (·.id)) = some ["host0-job1", "host1-job0"] := by decide +kernel
  rw [((jobs_retold sampleCalls hcalls).2 sampleStore .epoch "web" a ha).1] at hids
  exact ⟨hcalls, a, ha, by decide +kernel, Option.some.inj hids⟩

end ControlPlane.MemoryCluster
