import ControlPlane.Placement
import ControlPlane.Proofs.Text.Utf8
import Mathlib.Data.List.Nodup

/-! # The host of choice

Hosts are preferred by how few jobs they have, and of those with as many jobs by their identifiers.
There is a host of choice as soon as there is a host, and none is preferred to it. Where identifiers
are not repeated it is the only such host, so that the order of the list has no say in it.
-/
namespace ControlPlane.Placement
variable {a b c host : Host} {hosts hosts' : List Host}

/-- The second host is not preferred to the first. -/
def NoLater (a b : Host) : Prop :=
  a.jobs.length < b.jobs.length ∨ a.jobs.length = b.jobs.length ∧ a.id ≤ b.id

theorem NoLater.refl (a : Host) : NoLater a a := .inr ⟨rfl, String.le_refl a.id⟩

theorem NoLater.trans (h : NoLater a b) (h' : NoLater b c) : NoLater a c := by
  obtain h | ⟨hjobs, hid⟩ := h <;> obtain h' | ⟨hjobs', hid'⟩ := h'
  · exact .inl (Nat.lt_trans h h')
  · exact .inl (hjobs' ▸ h)
  · exact .inl (hjobs ▸ h')
  · exact .inr ⟨hjobs.trans hjobs', String.le_trans hid hid'⟩

/-- Two hosts neither of which is preferred to the other have the same identifier. -/
theorem NoLater.id_eq (h : NoLater a b) (h' : NoLater b a) : a.id = b.id := by
  obtain h | ⟨hjobs, hid⟩ := h <;> obtain h' | ⟨hjobs', hid'⟩ := h'
  · omega
  · omega
  · omega
  · exact String.le_antisymm hid hid'

theorem isBefore_iff :
    isBefore a b = true ↔
      a.jobs.length < b.jobs.length ∨ a.jobs.length = b.jobs.length ∧ a.id < b.id := by
  simp [isBefore]

theorem noLater_of_isBefore (h : isBefore a b = true) : NoLater a b :=
  (isBefore_iff.1 h).imp_right (And.imp_right Std.le_of_lt)

theorem not_isBefore_iff : ¬ isBefore a b = true ↔ NoLater b a := by
  rw [isBefore_iff, NoLater, not_or, not_and, String.not_lt]
  rcases Nat.lt_trichotomy a.jobs.length b.jobs.length with hjobs | hjobs | hjobs
  · simp only [hjobs, not_true, false_and, false_iff]
    omega
  · simp [hjobs]
  · simp only [hjobs, true_or, iff_true]
    omega

theorem choose_eq_none_iff : choose hosts = none ↔ hosts = [] := by
  cases hosts <;> simp [choose]

theorem choose_mem (h : choose hosts = some host) : host ∈ hosts := by
  cases hosts with
  | nil => cases h
  | cons first rest =>
    cases h
    refine List.foldlRecOn rest _ (motive := (· ∈ first :: rest)) List.mem_cons_self fun best hbest
      host hhost => ?_
    split
    · exact List.mem_cons_of_mem _ hhost
    · exact hbest

/-- The best host so far only gets better. -/
theorem noLater_foldl (first : Host) (rest : List Host) :
    let best := rest.foldl (fun best h => if isBefore h best then h else best) first
    NoLater best first ∧ ∀ other ∈ rest, NoLater best other := by
  induction rest generalizing first with
  | nil => exact ⟨.refl first, nofun⟩
  | cons second rest ih =>
    have hbetter : NoLater (if isBefore second first then second else first) first ∧
        NoLater (if isBefore second first then second else first) second := by
      split
      · next h => exact ⟨noLater_of_isBefore h, .refl second⟩
      · next h => exact ⟨.refl first, not_isBefore_iff.1 h⟩
    obtain ⟨hbest, hrest⟩ := ih (if isBefore second first then second else first)
    exact ⟨hbest.trans hbetter.1, List.forall_mem_cons.2 ⟨hbest.trans hbetter.2, hrest⟩⟩

theorem noLater_of_choose (h : choose hosts = some host) : ∀ other ∈ hosts, NoLater host other := by
  cases hosts with
  | nil => cases h
  | cons first rest =>
    cases h
    exact List.forall_mem_cons.2 (noLater_foldl first rest)

/-! ## Whatever the order -/

/-- The first host has fewer jobs than the second, or as many and the lesser
identifier in byte order. -/
def Precedes (a b : Host) : Prop :=
  a.jobs.length < b.jobs.length ∨
    a.jobs.length = b.jobs.length ∧ Utf8.encode a.id < Utf8.encode b.id

instance : Decidable (Precedes a b) :=
  inferInstanceAs (Decidable (_ ∨ _))

theorem noLater_iff_not_precedes : NoLater a b ↔ ¬ Precedes b a := by
  rw [← not_isBefore_iff, isBefore_iff, Precedes, Utf8.encode_lt_encode_iff]

/-- Where identifiers are not repeated, no other host is as good as the host of choice. -/
theorem choose_eq_some_iff (hids : (hosts.map Host.id).Nodup) :
    choose hosts = some host ↔ host ∈ hosts ∧ ∀ other ∈ hosts, NoLater host other := by
  refine ⟨fun h => ⟨choose_mem h, noLater_of_choose h⟩, fun ⟨hmem, hle⟩ => ?_⟩
  rcases hchoose : choose hosts with _ | chosen
  · rw [choose_eq_none_iff.1 hchoose] at hmem
    cases hmem
  · have hchosen := choose_mem hchoose
    have hid : chosen.id = host.id :=
      (noLater_of_choose hchoose host hmem).id_eq (hle chosen hchosen)
    rw [List.inj_on_of_nodup_map hids hchosen hmem hid]

theorem choose_of_perm (hids : (hosts.map Host.id).Nodup) (h : hosts'.Perm hosts) :
    choose hosts' = choose hosts := by
  have hids' : (hosts'.map Host.id).Nodup := (h.map Host.id).nodup_iff.2 hids
  refine Option.ext fun host => ?_
  rw [choose_eq_some_iff hids, choose_eq_some_iff hids', h.mem_iff]
  simp only [h.mem_iff]

/-- Of hosts whose identifiers are not repeated there is a host of choice unless there are no hosts.
It is the host that no other precedes, and the same in whatever order the hosts are listed. -/
theorem choice_ignores_order (hids : (hosts.map Host.id).Nodup) :
    (choose hosts = none ↔ hosts = []) ∧
    (∀ host, choose hosts = some host ↔ host ∈ hosts ∧ ∀ other ∈ hosts, ¬ Precedes other host) ∧
    ∀ hosts', hosts'.Perm hosts → choose hosts' = choose hosts := by
  refine ⟨choose_eq_none_iff, fun host => ?_, fun hosts' h => choose_of_perm hids h⟩
  rw [choose_eq_some_iff hids]
  simp only [noLater_iff_not_precedes]

/-- Two hosts have one job each. The character that tells them apart takes three bytes in one
and four in the other. -/
def tiedHosts : List Host :=
  [⟨"host😀", [{}]⟩, ⟨"host～", [{}]⟩, ⟨"host", [{}, {}]⟩]

theorem choice_ignores_order_of_tie : (tiedHosts.map Host.id).Nodup ∧
    choose tiedHosts = some ⟨"host～", [{}]⟩ ∧ choose tiedHosts.reverse = choose tiedHosts := by
  have hids : (tiedHosts.map Host.id).Nodup := by decide
  obtain ⟨-, hchoice, horder⟩ := choice_ignores_order hids
  exact ⟨hids, (hchoice _).2 (by decide), horder _ (List.reverse_perm _)⟩

end ControlPlane.Placement
