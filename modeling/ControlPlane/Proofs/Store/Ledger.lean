import ControlPlane.Proofs.Store.Consistent

/-! # The commits behind a store

A ledger is the list of all records that were committed, in order. The table of formations holds
the newest record of each key, and as long as the counter of versions has not come round,
versions order the ledger.
-/
namespace ControlPlane
namespace Store

structure Ledger (s : Store) (commits : List FormationRecord) : Prop where
  count : s.formationVersion.toNat = commits.length
  increasing : commits.Pairwise (fun r r' => r.version < r'.version)
  bounded : ∀ r ∈ commits, r.version ≤ s.formationVersion
  refers : ∀ r ∈ commits, s.Refers r
  committed : ∀ k r, s.formations.get? k = some r → r ∈ commits
  current : ∀ r ∈ commits, ∃ r', s.formations.get? r.key = some r' ∧ r.version ≤ r'.version

theorem ledger_empty : Ledger {} [] := by
  constructor <;> simp

/-- A write that commits nothing leaves the formations as they are. -/
theorem Effect.still {s s' : Store} {m : Moment} (h : Effect s m s' none) :
    s'.formations = s.formations ∧ s'.formationVersion = s.formationVersion := by
  cases h <;> exact ⟨rfl, rfl⟩

/-- A committed record stands under its key, with the next version and the time of the commit. -/
structure Commits (s : Store) (m : Moment) (s' : Store) (r : FormationRecord) : Prop where
  store : s' = s.record r.key r
  version : r.version = s.formationVersion + 1
  changed : r.changedAt = some m.now
  refers : s.Refers r

theorem Effect.commits {s s' : Store} {m : Moment} {r : FormationRecord} (hs : Consistent s)
    (h : Effect s m s' (some r)) : Commits s m s' r := by
  cases h with
  | put row r hrow happ hclean hrelease hversion hlive hchanged =>
    refine ⟨rfl, hversion, hchanged, ⟨row, ?_⟩, hclean, hrelease, _, hchanged⟩
    rw [happ]
    exact (hs.live_id hrow).1
  | deleted row release old hrow hold =>
    refine ⟨?_, rfl, rfl, { hs.refers _ old hold with changed := ⟨m.now, rfl⟩ }⟩
    rw [← hs.record_key _ old hold]
    rfl

/-- Nothing is committed for an app that is gone. -/
theorem Effect.live {s s' : Store} {m : Moment} {r : FormationRecord} (hs : Consistent s)
    (hids : s.AppsIdentified) (h : Effect s m s' (some r)) :
    ∃ row, s.liveApp? r.formation.app = some row := by
  cases h with
  | put row r hrow happ => exact ⟨row, by rw [happ]; exact liveApp?_eq_some.2 (hs.live_id hrow)⟩
  | deleted row release old hrow hold =>
    refine ⟨row, liveApp?_eq_some.2 ?_⟩
    obtain ⟨hget, hlive⟩ := hs.live_id hrow
    obtain ⟨hid, hclean⟩ := (hs.refers _ old hold).app_isId hs hids
    have hkey : Formation.keyOf old.formation.app old.formation.release =
        Formation.keyOf row.app.id release :=
      hs.record_key _ old hold
    have hlen : old.formation.app.toList.length = row.app.id.toList.length := by
      rw [Identifier.length_of_isId_clean hid hclean,
        Identifier.length_of_isId_clean (hids row (Dict.mem_values_iff.2 ⟨_, hget⟩))
          (hs.app_clean _ row hget)]
    rw [(Formation.keyOf_inj hlen hkey).1]
    exact ⟨hget, hlive⟩

private theorem toNat_add_one {v : UInt64} (h : v.toNat + 1 < UInt64.size) :
    (v + 1).toNat = v.toNat + 1 := by
  rw [UInt64.toNat_add]
  exact Nat.mod_eq_of_lt h

namespace Ledger
variable {s s' : Store} {commits : List FormationRecord}

/-- Versions tell the commits of a ledger apart. -/
theorem eq_of_version (hl : Ledger s commits) {r r' : FormationRecord} (hr : r ∈ commits)
    (hr' : r' ∈ commits) (h : r.version = r'.version) : r = r' := by
  have hforth : commits.Pairwise (fun a b => a.version = b.version → a = b) :=
    hl.increasing.imp fun hlt he => absurd he (UInt64.ne_of_lt hlt)
  have hback : commits.Pairwise (flip fun a b => a.version = b.version → a = b) :=
    hl.increasing.imp fun hlt he => absurd he.symm (UInt64.ne_of_lt hlt)
  exact hforth.forall_of_forall_of_flip (fun _ _ _ => rfl) hback hr hr' h

/-- The table holds the newest record of a key. -/
theorem le_of_get? (hl : Ledger s commits) {k : String} {r r' : FormationRecord}
    (hr : s.formations.get? k = some r) (hr' : r' ∈ commits) (hk : r'.key = k) :
    r'.version ≤ r.version := by
  obtain ⟨newest, hnewest, hle⟩ := hl.current r' hr'
  rw [hk, hr] at hnewest
  cases hnewest
  exact hle

/-- What was committed late is of a higher version. -/
theorem lt_of_late {late : List FormationRecord} (hl : Ledger s (commits ++ late))
    {r r' : FormationRecord} (hr : r ∈ commits) (hr' : r' ∈ late) : r.version < r'.version :=
  (List.pairwise_append.1 hl.increasing).2.2 r hr r' hr'

/-- What is newer than a late commit was committed late. -/
theorem mem_of_le {late : List FormationRecord} (hl : Ledger s (commits ++ late))
    {r r' : FormationRecord} (hr : r ∈ late) (hr' : r' ∈ commits ++ late)
    (h : r.version ≤ r'.version) : r' ∈ late := by
  obtain hearly | hlate := List.mem_append.1 hr'
  · exact absurd h (UInt64.not_le.2 (hl.lt_of_late hearly hr))
  · exact hlate

private theorem append (hl : Ledger s commits) (hlen : commits.length + 1 < UInt64.size)
    {r : FormationRecord} (hversion : r.version = s.formationVersion + 1) (href : s.Refers r) :
    Ledger (s.record r.key r) (commits ++ [r]) := by
  have hext : Extends s (s.record r.key r) :=
    ⟨fun _ row h => ⟨row, h, id⟩, fun _ _ h => h, fun _ _ h => h⟩
  have hnext : (s.formationVersion + 1).toNat = s.formationVersion.toNat + 1 :=
    toNat_add_one (by rw [hl.count]; exact hlen)
  have hbelow (old : FormationRecord) (hold : old ∈ commits) : old.version < r.version := by
    have hle := UInt64.le_iff_toNat_le.1 (hl.bounded old hold)
    rw [hversion, UInt64.lt_iff_toNat_lt, hnext]
    omega
  constructor
  · rw [record, hnext, hl.count, List.length_append, List.length_singleton]
  · refine List.pairwise_append.2 ⟨hl.increasing, List.pairwise_singleton _ _,
      fun old hold new hnew => ?_⟩
    rw [List.mem_singleton.1 hnew]
    exact hbelow old hold
  · intro old hold
    rw [record, ← hversion]
    obtain hold | hold := List.mem_append.1 hold
    · exact UInt64.le_of_lt (hbelow old hold)
    · rw [List.mem_singleton.1 hold]
      exact UInt64.le_refl _
  · intro old hold
    obtain hold | hold := List.mem_append.1 hold
    · exact hext.refers (hl.refers old hold)
    · rw [List.mem_singleton.1 hold]
      exact hext.refers href
  · intro k old hk
    simp only [record, Dict.get?_insert] at hk
    split at hk
    · cases hk; simp
    · exact List.mem_append_left _ (hl.committed k old hk)
  · intro old hold
    by_cases hk : r.key = old.key
    · refine ⟨r, by simp [record, hk], ?_⟩
      obtain hold | hold := List.mem_append.1 hold
      · exact UInt64.le_of_lt (hbelow old hold)
      · rw [List.mem_singleton.1 hold]
        exact UInt64.le_refl _
    · have hold : old ∈ commits := by
        obtain hold | hold := List.mem_append.1 hold
        · exact hold
        · rw [List.mem_singleton.1 hold] at hk
          exact absurd rfl hk
      obtain ⟨newest, hnewest, hle⟩ := hl.current old hold
      exact ⟨newest, by rwa [record, Dict.get?_insert_of_ne _ _ hk], hle⟩

theorem step {m : Moment} {r? : Option FormationRecord} (hl : Ledger s commits) (hs : Consistent s)
    (h : Effect s m s' r?) (hlen : (commits ++ r?.toList).length < UInt64.size) :
    Ledger s' (commits ++ r?.toList) := by
  cases r? with
  | some r =>
    have hc : Commits s m s' r := h.commits hs
    rw [hc.store]
    exact hl.append (by simpa using hlen) hc.version hc.refers
  | none =>
    obtain ⟨hformations, hversion⟩ := h.still
    rw [Option.toList_none, List.append_nil]
    exact {
      count := by rw [hversion]; exact hl.count
      increasing := hl.increasing
      bounded := by rw [hversion]; exact hl.bounded
      refers := fun r hr => (h.extends hs).refers (hl.refers r hr)
      committed := by rw [hformations]; exact hl.committed
      current := by rw [hformations]; exact hl.current }

end Ledger
end Store

/-! ## What is read from the table for a replay -/

variable {s : Store}

theorem mem_formationChangesSince {r : FormationRecord} {since : Instant} :
    r ∈ s.formationChangesSince since ↔
    (∃ k, s.formations.get? k = some r) ∧ ∃ t, r.changedAt = some t ∧ since ≤ t := by
  simp [Store.formationChangesSince, Dict.mem_values_iff, Option.any_eq_true]

/-- A replay begins with the oldest commits. -/
theorem formationChangesSince_sorted (s : Store) (since : Instant) :
    (s.formationChangesSince since).Pairwise (fun r r' => r.version ≤ r'.version) := by
  have htrans (a b c : FormationRecord) (hab : decide (a.version ≤ b.version) = true)
      (hbc : decide (b.version ≤ c.version) = true) : decide (a.version ≤ c.version) = true := by
    simp only [decide_eq_true_eq] at hab hbc ⊢
    exact UInt64.le_trans hab hbc
  have htotal (a b : FormationRecord) :
      (decide (a.version ≤ b.version) || decide (b.version ≤ a.version)) = true := by
    simpa using UInt64.le_total a.version b.version
  exact (List.pairwise_mergeSort htrans htotal _).imp of_decide_eq_true

/-- A replay tells of no formation twice. -/
theorem formationChangesSince_keys (hs : ∀ k r, s.formations.get? k = some r → r.key = k)
    (since : Instant) :
    (s.formationChangesSince since).Pairwise (fun r r' => r.key ≠ r'.key) := by
  have h : (s.formations.values.filter fun record => record.changedAt.any (since ≤ ·)).Pairwise
      (fun r r' => r.key ≠ r'.key) := (Dict.pairwise_values_ne hs).filter _
  exact (List.mergeSort_perm _ _).symm.pairwise h Ne.symm

end ControlPlane
