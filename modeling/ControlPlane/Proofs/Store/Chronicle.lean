import ControlPlane.Proofs.Store.History

/-! # Commits in the order of their times

Versions count the commits, times are read from the clock. A replay is cut at a time and sorted by
version, so a later cut leaves the end of an earlier one if and only if no record of a higher
version changed earlier. In a run whose clock does not go backwards no record did: the place of its
last entry in the history gives both its version and its time.
-/
namespace ControlPlane.Store

/-- Every record is stamped, and none of a higher version changed earlier. -/
def Chronological (s : Store) : Prop :=
  ∀ k k' r r', s.formations.get? k = some r → s.formations.get? k' = some r' →
    r.version ≤ r'.version →
    ∃ t t', r.changedAt = some t ∧ r'.changedAt = some t' ∧ t ≤ t'

/-- Versions tell the records of the table apart. -/
def Numbered (s : Store) : Prop :=
  ∀ k k' r r', s.formations.get? k = some r → s.formations.get? k' = some r' →
    r.version = r'.version → r = r'

/-! ## Replays from two instants -/

section Replay
variable {s : Store} {t₁ t₂ : Instant} {r : FormationRecord}

/-- What is kept of a list is its end, if all that follows something kept is kept. -/
private theorem filter_suffix {α : Type} {p : α → Bool} {l : List α}
    (h : l.Pairwise (fun a b => p a → p b)) :
    l.filter p <:+ l := by
  induction l with
  | nil => exact List.suffix_refl _
  | cons a l ih =>
    obtain ⟨ha, hl⟩ := List.pairwise_cons.1 h
    cases hp : p a with
    | true =>
      have hall : (a :: l).filter p = a :: l :=
        List.filter_eq_self.2 (List.forall_mem_cons.2 ⟨hp, fun b hb => ha b hb hp⟩)
      exact ⟨[], hall⟩
    | false =>
      rw [List.filter_cons_of_neg (by simp [hp])]
      exact (ih hl).trans (List.suffix_cons a l)

private theorem changed_earlier (h : t₁ ≤ t₂) (hr : r.changedAt.any (t₂ ≤ ·) = true) :
    r.changedAt.any (t₁ ≤ ·) = true := by
  rw [Option.any_eq_true] at hr ⊢
  obtain ⟨t, ht, hle⟩ := hr
  exact ⟨t, ht, decide_eq_true (Int.le_trans h (of_decide_eq_true hle))⟩

/-- A replay from later on is what an earlier one has from then on. -/
private theorem Numbered.filter_replay (hn : s.Numbered) (h : t₁ ≤ t₂) :
    (s.formationChangesSince t₁).filter (·.changedAt.any (t₂ ≤ ·)) =
      s.formationChangesSince t₂ := by
  have hfilter :
      (s.formations.values.filter (·.changedAt.any (t₁ ≤ ·))).filter (·.changedAt.any (t₂ ≤ ·)) =
      s.formations.values.filter (·.changedAt.any (t₂ ≤ ·)) := by
    rw [List.filter_filter]
    refine List.filter_congr fun r _ => ?_
    rw [Bool.and_eq_left_iff_imp]
    exact changed_earlier h
  have hperm :
      ((s.formationChangesSince t₁).filter (·.changedAt.any (t₂ ≤ ·))).Perm
        (s.formationChangesSince t₂) := by
    have hearly := (List.mergeSort_perm (s.formations.values.filter (·.changedAt.any (t₁ ≤ ·)))
      (fun a b => decide (a.version ≤ b.version))).filter (·.changedAt.any (t₂ ≤ ·))
    rw [hfilter] at hearly
    exact hearly.trans (List.mergeSort_perm _ _).symm
  refine hperm.eq_of_pairwise (fun r r' hr hr' hle hge => ?_)
    ((formationChangesSince_sorted s t₁).filter _) (formationChangesSince_sorted s t₂)
  obtain ⟨⟨k, hk⟩, -⟩ := mem_formationChangesSince.1 (List.mem_of_mem_filter hr)
  obtain ⟨⟨k', hk'⟩, -⟩ := mem_formationChangesSince.1 hr'
  exact hn k k' r r' hk hk' (UInt64.le_antisymm hle hge)

theorem Chronological.replay_suffix (hc : s.Chronological) (hn : s.Numbered) (h : t₁ ≤ t₂) :
    s.formationChangesSince t₂ <:+ s.formationChangesSince t₁ := by
  rw [← hn.filter_replay h]
  refine filter_suffix
    ((formationChangesSince_sorted s t₁).imp_of_mem fun {r r'} hr hr' hle hkept => ?_)
  obtain ⟨⟨k, hk⟩, -⟩ := mem_formationChangesSince.1 hr
  obtain ⟨⟨k', hk'⟩, -⟩ := mem_formationChangesSince.1 hr'
  obtain ⟨t, t', ht, ht', hle⟩ := hc k k' r r' hk hk' hle
  rw [ht, Option.any_some, decide_eq_true_eq] at hkept
  rw [ht', Option.any_some, decide_eq_true_eq]
  exact Int.le_trans hkept hle

/-- Where every replay is the end of each earlier one, a record that changed earlier
has the lower version. -/
theorem chronological_of_suffix (hn : s.Numbered)
    (hstamped : ∀ k r, s.formations.get? k = some r → ∃ t, r.changedAt = some t)
    (hsuffix : ∀ t₁ t₂, t₁ ≤ t₂ → s.formationChangesSince t₂ <:+ s.formationChangesSince t₁) :
    s.Chronological := by
  intro k k' r r' hk hk' hle
  obtain ⟨t, ht⟩ := hstamped k r hk
  obtain ⟨t', ht'⟩ := hstamped k' r' hk'
  refine ⟨t, t', ht, ht', Int.not_lt.1 fun hlt => ?_⟩
  have hearlier : t' ≤ t := Int.le_of_lt hlt
  -- the replay from `t` has the lower version and not the higher one, which the replay from `t'`
  -- has in front of it
  obtain ⟨front, hfront⟩ := hsuffix t' t hearlier
  have hr : r ∈ s.formationChangesSince t :=
    mem_formationChangesSince.2 ⟨⟨k, hk⟩, t, ht, Int.le_refl _⟩
  have hr' : r' ∈ s.formationChangesSince t' :=
    mem_formationChangesSince.2 ⟨⟨k', hk'⟩, t', ht', Int.le_refl _⟩
  have hnot : r' ∉ s.formationChangesSince t := by
    intro hmem
    obtain ⟨-, t'', ht'', hle''⟩ := mem_formationChangesSince.1 hmem
    cases ht'.symm.trans ht''
    exact absurd hle'' (Int.not_le.2 hlt)
  have hsorted := formationChangesSince_sorted s t'
  rw [← hfront] at hsorted hr'
  have hmem : r' ∈ front := (List.mem_append.1 hr').resolve_right hnot
  have hge : r'.version ≤ r.version := (List.pairwise_append.1 hsorted).2.2 r' hmem r hr
  exact hnot (hn k k' r r' hk hk' (UInt64.le_antisymm hle hge) ▸ hr)

end Replay

/-! ## Times and places in a history -/

theorem time_of_asked? {s : Store} {m : Moment} {w : Write} {e : Entry}
    (h : s.asked? m w = some e) : e.time = m.now := by
  cases w with
  | putFormation formation =>
    obtain ⟨row, -, rfl⟩ := Option.map_eq_some_iff.1 h
    rfl
  | deleteFormation app release =>
    obtain ⟨row, -, rfl⟩ := Option.map_eq_some_iff.1 h
    rfl
  | _ => cases h

/-- The times of a history are readings of the clock, in order. -/
theorem history_times (s : Store) (ws : List (Moment × Write)) :
    ((history s ws).map (·.time)).Sublist (ws.map (·.1.now)) := by
  induction ws generalizing s with
  | nil => exact List.Sublist.slnil
  | cons w ws ih =>
    rw [history, List.map_append, List.map_cons]
    cases he : s.noted? w.1 w.2 with
    | none => exact (ih _).cons _
    | some e =>
      obtain ⟨-, -, hasked⟩ := Option.bind_eq_some_iff.1 he
      rw [Option.toList_some, List.map_singleton, time_of_asked? hasked]
      exact (ih _).cons_cons _

/-- The last entry of a key gives its record its version and its time. -/
theorem changedAt_of_recordOf {hist : List Entry} {k : String} {r : FormationRecord}
    (h : recordOf hist k = some r) :
    ∃ i e, hist[i]? = some e ∧ r.version = .ofNat (i + 1) ∧ r.changedAt = some e.time := by
  rw [recordOf, leave] at h
  split at h
  case h_2 => cases h
  next last n put place _ _ hlast hput _ =>
    cases h
    obtain ⟨older, howns⟩ := List.head?_eq_some_iff.1 hlast
    obtain ⟨-, hpos, hget⟩ :=
      mem_entriesOf.1 (howns ▸ List.mem_cons_self : (last, n) ∈ entriesOf hist k)
    refine ⟨n - 1, last, hget, by rw [Nat.sub_add_cancel hpos], ?_⟩
    rw [howns, List.find?_cons] at hput
    cases hisPut : last.isPut with
    | true =>
      rw [hisPut] at hput
      cases hput
      simp [FormationRecord.changedAt]
    | false => simp [FormationRecord.changedAt]

namespace Recounts
variable {s : Store} {hist : List Entry}

theorem numbered (h : Recounts s hist) (hfew : hist.length < UInt64.size) : s.Numbered := by
  intro k k' r r' hk hk' hversion
  rw [h.table] at hk hk'
  obtain rfl := key_eq_of_version hfew hk hk' hversion
  exact Option.some.inj (hk.symm.trans hk')

theorem stamped (h : Recounts s hist) (k : String) (r : FormationRecord)
    (hk : s.formations.get? k = some r) :
    ∃ t, r.changedAt = some t := by
  rw [h.table] at hk
  obtain ⟨-, e, -, -, ht⟩ := changedAt_of_recordOf hk
  exact ⟨e.time, ht⟩

theorem chronological (h : Recounts s hist) (hfew : hist.length < UInt64.size)
    (htimes : (hist.map (·.time)).Pairwise (· ≤ ·)) : s.Chronological := by
  intro k k' r r' hk hk' hle
  rw [h.table] at hk hk'
  obtain ⟨i, e, he, hversion, ht⟩ := changedAt_of_recordOf hk
  obtain ⟨i', e', he', hversion', ht'⟩ := changedAt_of_recordOf hk'
  refine ⟨e.time, e'.time, ht, ht', ?_⟩
  obtain ⟨hi, rfl⟩ := List.getElem?_eq_some_iff.1 he
  obtain ⟨hi', rfl⟩ := List.getElem?_eq_some_iff.1 he'
  have hplace : i ≤ i' := by
    rw [hversion, hversion', UInt64.le_iff_toNat_le, UInt64.toNat_ofNat_of_lt' (by omega),
      UInt64.toNat_ofNat_of_lt' (by omega)] at hle
    omega
  rcases Nat.lt_or_eq_of_le hplace with hlt | rfl
  · exact List.pairwise_iff_getElem.1 (List.pairwise_map.1 htimes) i i' hi hi' hlt
  · exact Int.le_refl _

end Recounts

/-- After any run of writes with fewer than 2⁶⁴ commits: that no record, live or deleted, of a
higher version changed earlier than one of a lower version means that the replay from an instant is
the end of the replay from any earlier instant; and both hold if the clock never went backwards. -/
theorem replays_are_suffixes (ws : List (Moment × Write))
    (hfew : (answers {} ws).length < UInt64.size) :
    let s := performAll {} ws
    (s.Chronological ↔
      ∀ t₁ t₂, t₁ ≤ t₂ → s.formationChangesSince t₂ <:+ s.formationChangesSince t₁) ∧
      ((ws.map (·.1.now)).Pairwise (· ≤ ·) →
        s.Chronological ∧ ∀ t₁ t₂, t₁ ≤ t₂ →
          s.formationChangesSince t₂ <:+ s.formationChangesSince t₁) := by
  intro s
  have h : Recounts s (history {} ws) := recounts_empty.performAll ws
  have hfew' : (history {} ws).length < UInt64.size := recounts_empty.length_answers ws ▸ hfew
  have hn : s.Numbered := h.numbered hfew'
  have hsuffix (hc : s.Chronological) (t₁ t₂ : Instant) (hle : t₁ ≤ t₂) :
      s.formationChangesSince t₂ <:+ s.formationChangesSince t₁ := hc.replay_suffix hn hle
  refine ⟨⟨hsuffix, chronological_of_suffix hn h.stamped⟩, fun hclock => ?_⟩
  have hc : s.Chronological := h.chronological hfew' (hclock.sublist (history_times {} ws))
  exact ⟨hc, hsuffix hc⟩

/-- The given second of a day, with no identifier to spare. -/
def momentAt (second : Nat) : Moment := ⟨(Instant.ofFields? 2024 1 1 0 0 second 0).getD .epoch, ""⟩

/-- Two formations are put, and the one that was put first is deleted last. -/
def overtakingWrites : List (Moment × Write) := [
  (momentAt 0, .createArtifact { id := "image", kind := "docker", uri := "registry/web" }),
  (momentAt 0, .createRelease { id := "first", artifact := "image" }),
  (momentAt 0, .createRelease { id := "second", artifact := "image" }),
  (momentAt 0, .createApp { id := "app", name := "web" }),
  (momentAt 1,
    .putFormation { app := "web", release := "first", processes := .ofList [("web", 1)] }),
  (momentAt 2,
    .putFormation { app := "web", release := "second", processes := .ofList [("web", 1)] }),
  (momentAt 3, .deleteFormation "web" "first")]

theorem replays_are_suffixes_of_overtaking :
    (answers {} overtakingWrites).length < UInt64.size ∧
      (overtakingWrites.map (·.1.now)).Pairwise (· ≤ ·) ∧
      (∃ r ∈ (performAll {} overtakingWrites).formationChangesSince (momentAt 3).now,
        r.version = 3) ∧
      (performAll {} overtakingWrites).formationChangesSince (momentAt 3).now <:+
        (performAll {} overtakingWrites).formationChangesSince (momentAt 1).now := by
  have hfew : (answers {} overtakingWrites).length < UInt64.size := by decide +kernel
  have hclock : (overtakingWrites.map (·.1.now)).Pairwise (· ≤ ·) := by decide +kernel
  have hlater : (momentAt 1).now ≤ (momentAt 3).now := by decide +kernel
  have hdeleted : ∃ r,
      (performAll {} overtakingWrites).formations.get? (Formation.keyOf "app" "first") = some r ∧
      r.changedAt = some (momentAt 3).now ∧ r.version = 3 :=
    ⟨_, rfl, by decide +kernel, by decide +kernel⟩
  obtain ⟨r, hget, hchanged, hversion⟩ := hdeleted
  have hmem : r ∈ (performAll {} overtakingWrites).formationChangesSince (momentAt 3).now :=
    mem_formationChangesSince.2 ⟨⟨_, hget⟩, _, hchanged, Int.le_refl _⟩
  have hsuffixes := ((replays_are_suffixes overtakingWrites hfew).2 hclock).2
  exact ⟨hfew, hclock, ⟨r, hmem, hversion⟩, hsuffixes _ _ hlater⟩

end ControlPlane.Store
