import ControlPlane.Proofs.Store.Ledger

/-! # The formations of a store are what their history leaves

A history has an entry for every formation that was put and every live one that was deleted, of all
apps, in order. What the table holds under a key is made of the entries of that key: the last put,
the first put of those that no deletion parts from it, and the place of the last entry in the whole
history. Nothing else ever shows.
-/
namespace ControlPlane.Store

/-- A formation that was put, with its processes, or one that was deleted, without. -/
structure Entry where
  app : String
  release : String
  time : Instant
  processes : Option (Dict Int32)

namespace Entry

def key (e : Entry) : String := Formation.keyOf e.app e.release

def isPut (e : Entry) : Bool := e.processes.isSome

end Entry

/-- What a write asks for of a formation, with the identifiers of the app and the
release that it names. -/
def asked? (s : Store) (m : Moment) : Write → Option Entry
  | .putFormation formation =>
    (s.findApp? formation.app).map fun row =>
      ⟨row.app.id, Identifier.clean formation.release, m.now, some formation.processes⟩
  | .deleteFormation app release =>
    (s.findApp? app).map fun row => ⟨row.app.id, Identifier.clean release, m.now, none⟩
  | _ => none

/-- What a write adds to the history: what it asked for, if it committed a record. -/
def noted? (s : Store) (m : Moment) (w : Write) : Option Entry :=
  (s.perform m w).2.bind fun _ => s.asked? m w

/-- The history of a run of writes. -/
def history : Store → List (Moment × Write) → List Entry
  | _, [] => []
  | s, (m, w) :: ws => (s.noted? m w).toList ++ history (s.perform m w).1 ws

/-- The records that the writes of a run answer: of the formations that were put, and of
those that were deleted. -/
def answers : Store → List (Moment × Write) → List FormationRecord
  | _, [] => []
  | s, (m, w) :: ws => (s.perform m w).2.toList ++ answers (s.perform m w).1 ws

/-- The entries of a key, the newest first, each with its place in the history, counted from one. -/
def entriesOf (hist : List Entry) (key : String) : List (Entry × Nat) :=
  ((hist.zipIdx 1).filter (·.1.key == key)).reverse

/-- The puts that no deletion parts from the last one. -/
def life (own : List (Entry × Nat)) : List (Entry × Nat) :=
  (own.dropWhile (!·.1.isPut)).takeWhile (·.1.isPut)

/-- What the entries of a key leave: the processes and the time of the last put, the time of the
first put of the same life, the place of the last entry, and its time if it is a deletion. -/
def leave (own : List (Entry × Nat)) : Option FormationRecord :=
  match own.head?, own.find? (·.1.isPut), (life own).getLast? with
  | some (last, place), some (put, _), some (first, _) => some {
      formation := {
        app := put.app, release := put.release, processes := put.processes.getD {}
        createdAt := some first.time, updatedAt := some put.time }
      version := .ofNat place
      deletedAt := if last.isPut then none else some last.time }
  | _, _, _ => none

/-- What a history leaves under a key. -/
def recordOf (hist : List Entry) (key : String) : Option FormationRecord :=
  leave (entriesOf hist key)

/-! ## One more entry -/

theorem entriesOf_append (hist : List Entry) (e : Entry) (key : String) :
    entriesOf (hist ++ [e]) key =
      if e.key = key then (e, hist.length + 1) :: entriesOf hist key else entriesOf hist key := by
  rw [entriesOf, List.zipIdx_append, List.filter_append, List.reverse_append, ← entriesOf]
  split
  · next h => simp [h, Nat.add_comm]
  · next h => simp [h]

theorem recordOf_append_self (hist : List Entry) (e : Entry) :
    recordOf (hist ++ [e]) e.key = leave ((e, hist.length + 1) :: entriesOf hist e.key) := by
  rw [recordOf, entriesOf_append, if_pos rfl]

theorem recordOf_append_of_ne (hist : List Entry) {e : Entry} {key : String} (h : e.key ≠ key) :
    recordOf (hist ++ [e]) key = recordOf hist key := by
  rw [recordOf, entriesOf_append, if_neg h, recordOf]

section Leave
variable {own : List (Entry × Nat)} {e : Entry} {n : Nat}

theorem life_put (he : e.isPut = true) :
    life ((e, n) :: own) = (e, n) :: own.takeWhile (·.1.isPut) := by
  simp [life, he]

theorem life_deletion (he : e.isPut = false) : life ((e, n) :: own) = life own := by
  simp [life, he]

/-- A put leaves its own processes, and the time of the first put of the life
that it goes on with. -/
theorem leave_put (he : e.isPut = true) :
    leave ((e, n) :: own) = some {
      formation := {
        app := e.app, release := e.release, processes := e.processes.getD {}
        createdAt :=
          some ((((leave own).filter (!·.isDeleted)).bind (·.formation.createdAt)).getD e.time)
        updatedAt := some e.time }
      version := .ofNat n } := by
  have hfirst : ((leave own).filter (!·.isDeleted)).bind (·.formation.createdAt) =
      (own.takeWhile (·.1.isPut)).getLast?.map (·.1.time) := by
    rcases own with _ | ⟨⟨last, place⟩, older⟩
    · rfl
    cases hlast : last.isPut with
    | true =>
      obtain ⟨⟨first, k⟩, hfirst⟩ :
          ∃ f, ((last, place) :: older.takeWhile (·.1.isPut)).getLast? = some f :=
        ⟨_, List.getLast?_eq_some_getLast (List.cons_ne_nil _ _)⟩
      simp [leave, life_put hlast, hlast, hfirst, FormationRecord.isDeleted, Option.filter_some]
    | false =>
      have hdead : (leave ((last, place) :: older)).filter (!·.isDeleted) = none := by
        simp only [leave]
        split <;> simp_all [FormationRecord.isDeleted]
      simp [hdead, hlast]
  rw [hfirst]
  simp only [leave, List.head?_cons, List.find?_cons, he, life_put he, List.getLast?_cons, if_true]
  cases (own.takeWhile (·.1.isPut)).getLast? <;> rfl

theorem leave_deletion (he : e.isPut = false) {old : FormationRecord}
    (hold : (leave own).filter (!·.isDeleted) = some old) :
    leave ((e, n) :: own) = some { old with version := .ofNat n, deletedAt := some e.time } := by
  obtain ⟨hleave, -⟩ := Option.filter_eq_some_iff.1 hold
  simp only [leave, List.head?_cons, List.find?_cons, he, life_deletion he] at hleave ⊢
  split at hleave
  · next last place put k first k' hlast hput hfirst =>
    cases hleave
    simp [hput, hfirst, he]
  · cases hleave
end Leave

/-! ## A run of writes and its history -/

/-- The table and the counter of versions are what the history leaves. -/
structure Recounts (s : Store) (hist : List Entry) : Prop where
  version : s.formationVersion = .ofNat hist.length
  table : ∀ k, s.formations.get? k = recordOf hist k

theorem recounts_empty : Recounts {} [] := by
  constructor <;> intros <;> rfl

namespace Recounts
variable {s : Store} {hist : List Entry} {m : Moment}

theorem formation? (h : Recounts s hist) (key : String) :
    s.formation? key = (recordOf hist key).filter (!·.isDeleted) := by
  rw [Store.formation?, h.table]

theorem record (h : Recounts s hist) {e : Entry} {r : FormationRecord}
    (hr : recordOf (hist ++ [e]) e.key = some r) :
    Recounts (s.record e.key r) (hist ++ [e]) where
  version := by
    rw [Store.record, h.version, List.length_append, List.length_singleton, UInt64.ofNat_add]
    rfl
  table k := by
    rw [Store.record, Dict.get?_insert]
    split
    · next hk => rw [← hk, hr]
    · next hk => rw [h.table, recordOf_append_of_ne hist hk]

theorem recordOf_put (h : Recounts s hist) (row : AppRow) (formation : Formation) :
    recordOf
      (hist ++ [⟨row.app.id, Identifier.clean formation.release, m.now, some formation.processes⟩])
      (Formation.keyOf row.app.id (Identifier.clean formation.release)) =
        some (s.written m row formation) := by
  have hlive := h.formation? (Formation.keyOf row.app.id (Identifier.clean formation.release))
  refine (recordOf_append_self hist ⟨row.app.id, _, m.now, _⟩).trans ((leave_put rfl).trans ?_)
  rw [← recordOf]
  simp only [written, hlive, h.version, UInt64.ofNat_add]
  rfl

theorem recordOf_deletion (h : Recounts s hist) {app release : String} {old : FormationRecord}
    (hold : s.formation? (Formation.keyOf app release) = some old) :
    recordOf (hist ++ [⟨app, release, m.now, none⟩]) (Formation.keyOf app release) =
      some (s.struck m old) := by
  rw [h.formation?] at hold
  refine (recordOf_append_self hist ⟨app, release, m.now, none⟩).trans
    ((leave_deletion rfl hold).trans ?_)
  simp only [struck, h.version, UInt64.ofNat_add]
  rfl

/-- A write commits what its entry leaves, or it has no entry and commits nothing. -/
theorem step (h : Recounts s hist) (m : Moment) (w : Write) :
    (∃ e r, s.noted? m w = some e ∧ (s.perform m w).2 = some r ∧
      recordOf (hist ++ [e]) e.key = some r ∧
      Recounts (s.perform m w).1 (hist ++ [e])) ∨
    s.noted? m w = none ∧ (s.perform m w).2 = none ∧ Recounts (s.perform m w).1 hist := by
  cases hanswer : (s.perform m w).2 with
  | none =>
    have heffect := perform_effect s m w
    rw [hanswer] at heffect
    obtain ⟨hformations, hversion⟩ := heffect.still
    refine .inr ⟨by rw [noted?, hanswer, Option.bind_none], rfl, ?_⟩
    exact ⟨hversion.trans h.version, fun k => by rw [hformations, h.table]⟩
  | some r =>
    have hdone : ∃ e, s.asked? m w = some e ∧ (s.perform m w).1 = s.record e.key r ∧
        recordOf (hist ++ [e]) e.key = some r := by
      cases w with
      | putFormation formation =>
        obtain ⟨-, row, hrow, -, hr, hstore⟩ :=
          putFormation_eq_ok.1 (putFormation_of_perform hanswer)
        have hleft := h.recordOf_put (m := m) row formation
        rw [← hr] at hleft
        refine ⟨_, by rw [asked?, hrow, Option.map_some], ?_, hleft⟩
        rw [hstore, hr]
        rfl
      | deleteFormation app release =>
        obtain ⟨row, hrow, hp⟩ := deleteFormation_eq_ok.1 (deleteFormation_of_perform hanswer)
        split at hp
        · cases hp
        · next old hold =>
          obtain ⟨hr, hstore⟩ := Prod.mk.inj hp
          have hleft := h.recordOf_deletion (m := m) hold
          rw [← hr] at hleft
          refine ⟨_, by rw [asked?, hrow, Option.map_some], ?_, hleft⟩
          rw [hstore, ← Option.some.inj hr]
          rfl
      | _ => cases hanswer
    obtain ⟨e, hasked, hstore, hleft⟩ := hdone
    refine .inl ⟨e, r, by rw [noted?, hanswer, Option.bind_some, hasked], rfl, hleft, ?_⟩
    rw [hstore]
    exact h.record hleft

theorem performAll (h : Recounts s hist) (ws : List (Moment × Write)) :
    Recounts (s.performAll ws) (hist ++ history s ws) := by
  induction ws generalizing s hist with
  | nil => rw [history, List.append_nil]; exact h
  | cons w ws ih =>
    change Recounts ((s.perform w.1 w.2).1.performAll ws) _
    rw [history]
    obtain ⟨e, r, he, -, -, h'⟩ | ⟨he, -, h'⟩ := h.step w.1 w.2
    · simpa [he] using ih h'
    · simpa [he] using ih h'

/-- Each answer is what was left under the key of its entry by then. -/
theorem answers_eq (h : Recounts s hist) (ws : List (Moment × Write)) (i : Nat) :
    (answers s ws)[i]? =
      (history s ws)[i]?.bind fun e => recordOf (hist ++ (history s ws).take (i + 1)) e.key := by
  induction ws generalizing s hist i with
  | nil => rfl
  | cons w ws ih =>
    rw [answers, history]
    obtain ⟨e, r, he, hr, hleft, h'⟩ | ⟨he, hr, h'⟩ := h.step w.1 w.2
    · rw [he, hr]
      cases i with
      | zero => simp [hleft]
      | succ i => simpa using ih h' i
    · rw [he, hr]
      exact ih h' i

theorem length_answers (h : Recounts s hist) (ws : List (Moment × Write)) :
    (answers s ws).length = (history s ws).length := by
  induction ws generalizing s hist with
  | nil => rfl
  | cons w ws ih =>
    rw [answers, history]
    obtain ⟨e, r, he, hr, -, h'⟩ | ⟨he, hr, h'⟩ := h.step w.1 w.2
    · simpa [he, hr] using ih h'
    · simpa [he, hr] using ih h'

end Recounts

/-! ## Keys and versions -/

section Versions
variable {hist : List Entry} {k k' : String} {r r' : FormationRecord}

theorem mem_entriesOf {e : Entry} {n : Nat} :
    (e, n) ∈ entriesOf hist k ↔ e.key = k ∧ 1 ≤ n ∧ hist[n - 1]? = some e := by
  rw [entriesOf, List.mem_reverse, List.mem_filter, List.mk_mem_zipIdx_iff_le_and_getElem?_sub,
    beq_iff_eq, and_comm]

/-- A record stands under its own key, and its version is the place of the last entry of that
key. -/
theorem of_recordOf (h : recordOf hist k = some r) :
    r.key = k ∧ ∃ last n older, entriesOf hist k = (last, n) :: older ∧ r.version = .ofNat n := by
  rw [recordOf, leave] at h
  split at h
  case h_2 => cases h
  next last n put place _ _ hlast hput _ =>
    cases h
    refine ⟨(mem_entriesOf.1 (List.mem_of_find?_eq_some hput)).1, last, n, ?_⟩
    obtain ⟨older, howns⟩ := List.head?_eq_some_iff.1 hlast
    exact ⟨older, howns, rfl⟩

theorem version_of_recordOf_append {e : Entry} (h : recordOf (hist ++ [e]) e.key = some r) :
    r.version = .ofNat (hist.length + 1) := by
  obtain ⟨-, last, n, older, howns, hversion⟩ := of_recordOf h
  rw [entriesOf_append, if_pos rfl] at howns
  cases howns
  exact hversion

/-- No two keys have records of one version. -/
theorem key_eq_of_version (hfew : hist.length < UInt64.size) (h : recordOf hist k = some r)
    (h' : recordOf hist k' = some r') (hversion : r.version = r'.version) : k = k' := by
  obtain ⟨-, last, n, older, howns, hr⟩ := of_recordOf h
  obtain ⟨-, last', n', older', howns', hr'⟩ := of_recordOf h'
  obtain ⟨rfl, hpos, hget⟩ :=
    mem_entriesOf.1 (howns ▸ List.mem_cons_self : (last, n) ∈ entriesOf hist k)
  obtain ⟨rfl, hpos', hget'⟩ :=
    mem_entriesOf.1 (howns' ▸ List.mem_cons_self : (last', n') ∈ entriesOf hist k')
  have hlt := (List.getElem?_eq_some_iff.1 hget).1
  have hlt' := (List.getElem?_eq_some_iff.1 hget').1
  have hplace : n = n' := by
    rw [hr, hr', ← UInt64.toNat_inj, UInt64.toNat_ofNat_of_lt' (by omega),
      UInt64.toNat_ofNat_of_lt' (by omega)] at hversion
    exact hversion
  subst hplace
  rw [hget] at hget'
  cases hget'
  rfl

end Versions

/-! ## Calls that fail -/

/-- Whether a write answers without an error. -/
def succeeds (s : Store) (m : Moment) : Write → Bool
  | .createApp app => (s.createApp m app).isOk
  | .updateApp idOrName patch => (s.updateApp m idOrName patch).isOk
  | .deleteApp _ => true
  | .setAppRelease idOrName release => (s.setAppRelease m idOrName release).isOk
  | .createArtifact artifact => (s.createArtifact m artifact).isOk
  | .createRelease release => (s.createRelease m release).isOk
  | .putFormation formation => (s.putFormation m formation).isOk
  | .deleteFormation app release => (s.deleteFormation m app release).isOk

theorem perform_of_fails {s : Store} {m : Moment} {w : Write} (h : s.succeeds m w = false) :
    s.perform m w = (s, none) := by
  have hnone {α : Type} {x : Except StoreError α} (hx : x.isOk = false) : x.toOption = none := by
    cases x
    · rfl
    · cases hx
  cases w with
  | deleteApp => cases h
  | _ =>
    rw [perform, hnone h]
    rfl

/-- There is nothing to delete where no live formation is. -/
theorem perform_of_getFormation?_eq_none {s : Store} {app release : String}
    (h : s.getFormation? app release = none) (m : Moment) :
    s.perform m (.deleteFormation app release) = (s, none) := by
  cases hdelete : s.deleteFormation m app release with
  | error e => exact perform_of_fails (by rw [succeeds, hdelete]; rfl)
  | ok p =>
    obtain ⟨row, hrow, hp⟩ := deleteFormation_eq_ok.1 hdelete
    rw [getFormation?_of_findApp? hrow, Option.map_eq_none_iff] at h
    rw [h] at hp
    rw [perform, hdelete, ← Prod.eta p, hp]
    rfl

/-! ## The whole history -/

/-- After any run of writes with fewer than 2⁶⁴ commits: the i-th put or deletion has answered
version i, and what the history up to it leaves; a write that fails, or finds nothing to delete,
changes nothing, and one that commits nothing leaves the formations alone; the table holds under
each key what the history leaves there, which is what a look-up shows as long as it is not deleted;
and a replay reads what changed since an instant, no key twice, in order of the versions. -/
theorem formations_retold (ws : List (Moment × Write))
    (hfew : (answers {} ws).length < UInt64.size) :
    let s := performAll {} ws
    let hist := history {} ws
    ((answers {} ws).length = hist.length ∧ ∀ i r, (answers {} ws)[i]? = some r →
      r.version.toNat = i + 1 ∧ ∃ e, hist[i]? = some e ∧
        recordOf (hist.take (i + 1)) e.key = some r) ∧
    (∀ m w, (s.succeeds m w = false → s.perform m w = (s, none)) ∧
      ((s.perform m w).2 = none → (s.perform m w).1.formations = s.formations ∧
        (s.perform m w).1.formationVersion = s.formationVersion)) ∧
    (∀ m app release, s.getFormation? app release = none →
      s.perform m (.deleteFormation app release) = (s, none)) ∧
    (∀ k, s.formations.get? k = recordOf hist k) ∧
    (∀ app row release, s.findApp? app = some row → s.getFormation? app release =
      ((recordOf hist (Formation.keyOf row.app.id (Identifier.clean release))).filter
        (!·.isDeleted)).map (·.formation)) ∧
    ∀ since, (∀ r, r ∈ s.formationChangesSince since ↔
        ∃ k t, recordOf hist k = some r ∧ r.changedAt = some t ∧ since ≤ t) ∧
      (s.formationChangesSince since).Pairwise (fun r r' => r.key ≠ r'.key ∧
        r.version < r'.version) := by
  intro s hist
  have h : Recounts s hist := recounts_empty.performAll ws
  have hlength : (answers {} ws).length = hist.length := recounts_empty.length_answers ws
  have hkeys (k : String) (r : FormationRecord) (hr : s.formations.get? k = some r) : r.key = k :=
    (of_recordOf ((h.table k).symm.trans hr)).1
  refine ⟨⟨hlength, fun i r hr => ?_⟩, fun m w => ⟨perform_of_fails, fun hnone => ?_⟩,
    fun m app release hnone =>
      perform_of_getFormation?_eq_none hnone m, h.table, fun app row release hrow => ?_,
    fun since => ⟨fun r => ?_, ?_⟩⟩
  · have hi : i < (answers {} ws).length := (List.getElem?_eq_some_iff.1 hr).1
    rw [recounts_empty.answers_eq ws i] at hr
    obtain ⟨e, he, hleft⟩ := Option.bind_eq_some_iff.1 hr
    refine ⟨?_, e, he, hleft⟩
    have hlast : hist.take (i + 1) = hist.take i ++ [e] := by
      rw [List.take_add_one, he, Option.toList_some]
    rw [List.nil_append, hlast] at hleft
    rw [version_of_recordOf_append hleft, List.length_take, UInt64.toNat_ofNat_of_lt' (by omega)]
    omega
  · have heffect := perform_effect s m w
    rw [hnone] at heffect
    exact heffect.still
  · rw [getFormation?_of_findApp? hrow, h.formation?]
  · rw [mem_formationChangesSince]
    simp only [h.table]
    exact ⟨fun ⟨⟨k, hk⟩, t, ht⟩ => ⟨k, t, hk, ht⟩, fun ⟨k, t, hk, ht⟩ => ⟨⟨k, hk⟩, t, ht⟩⟩
  · refine ((formationChangesSince_keys hkeys since).and
      (formationChangesSince_sorted s since)).imp_of_mem ?_
    rintro r r' hr hr' ⟨hkey, hle⟩
    obtain ⟨⟨k, hk⟩, -⟩ := mem_formationChangesSince.1 hr
    obtain ⟨⟨k', hk'⟩, -⟩ := mem_formationChangesSince.1 hr'
    refine ⟨hkey, UInt64.lt_of_le_of_ne hle fun hversion => hkey ?_⟩
    rw [hkeys k r hk, hkeys k' r' hk']
    rw [h.table] at hk hk'
    exact key_eq_of_version (hlength ▸ hfew) hk hk' hversion

/-- A formation that is put twice, deleted, and put again. -/
def revivalWrites (moment : Nat → Moment) : List (Moment × Write) := [
  (moment 0, .createArtifact { id := "image", kind := "docker", uri := "registry/web" }),
  (moment 0, .createRelease { id := "release", artifact := "image" }),
  (moment 0, .createApp { id := "app", name := "web" }),
  (moment 1,
    .putFormation { app := "web", release := "release", processes := .ofList [("web", 1)] }),
  (moment 2,
    .putFormation { app := "web", release := "release", processes := .ofList [("web", 2)] }),
  (moment 3, .deleteFormation "web" "release"),
  (moment 4, .deleteFormation "web" "release"),
  (moment 5,
    .putFormation { app := "web", release := "release", processes := .ofList [("web", 3)] })]

/-- The second deletion finds nothing, and the last put begins a new life. -/
theorem formations_retold_of_revival :
    let moment (second : Nat) : Moment :=
      ⟨(Instant.ofFields? 2024 1 1 0 0 second 0).getD .epoch, ""⟩
    let ws := revivalWrites moment
    (answers {} ws).length < UInt64.size ∧
      (performAll {} ws).formations.get? (Formation.keyOf "app" "release") = some {
        formation := {
          app := "app", release := "release", processes := .ofList [("web", 3)]
          createdAt := some (moment 5).now, updatedAt := some (moment 5).now }
        version := 4 } ∧
      (performAll {} (ws.take 6)).formations.get? (Formation.keyOf "app" "release") = some {
        formation := {
          app := "app", release := "release", processes := .ofList [("web", 2)]
          createdAt := some (moment 1).now, updatedAt := some (moment 2).now }
        version := 3, deletedAt := some (moment 3).now } := by
  intro moment ws
  have hfew : (answers {} ws).length < UInt64.size := by decide +kernel
  have hfew' : (answers {} (ws.take 6)).length < UInt64.size := by decide +kernel
  obtain ⟨-, -, -, htable, -⟩ := formations_retold ws hfew
  obtain ⟨-, -, -, htable', -⟩ := formations_retold (ws.take 6) hfew'
  rw [htable, htable']
  exact ⟨hfew, by decide +kernel, by decide +kernel⟩

end ControlPlane.Store
