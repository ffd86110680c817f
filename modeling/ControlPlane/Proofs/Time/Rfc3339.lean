import ControlPlane.Proofs.Text.Decimal
import ControlPlane.Time.Rfc3339

/-! # Timestamps that are written are read

Each part of a timestamp is read off the front of what was written, whatever comes behind it. A
fraction may be written with fewer digits than the time has: what is read then is not after it.
-/
namespace ControlPlane

namespace Instant

/-- The same second with another fraction. -/
def atNanos (t : Instant) (nanos : Nat) (h : nanos < 1000000000) : Instant :=
  { t with
    nanos
    inCalendar := ⟨t.inCalendar.1, t.inCalendar.2.1, t.inCalendar.2.2.1, t.inCalendar.2.2.2.1,
      t.inCalendar.2.2.2.2.1, t.inCalendar.2.2.2.2.2.1, h⟩ }

theorem atNanos_le {t : Instant} {nanos : Nat} (h : nanos < 1000000000) (hle : nanos ≤ t.nanos) :
    t.atNanos nanos h ≤ t := by
  change (t.atNanos nanos h).stamp ≤ t.stamp
  simp only [stamp, atNanos]
  omega

theorem minusMinutes?_zero (t : Instant) : t.minusMinutes? 0 = some t := by
  have hhour : t.hour < 24 := t.inCalendar.2.2.2.1
  have hminute : t.minute < 60 := t.inCalendar.2.2.2.2.1
  have hday :
      ((t.hour : Int) * 60 + t.minute - 0) % 1440 = (t.hour : Int) * 60 + t.minute := by omega
  have hnat : ((t.hour : Int) * 60 + t.minute).toNat = t.hour * 60 + t.minute := by omega
  have hh : (t.hour * 60 + t.minute) / 60 = t.hour := by omega
  have hm : (t.hour * 60 + t.minute) % 60 = t.minute := by omega
  unfold minusMinutes?
  simp only [hday, hnat, hh, hm]
  rw [if_neg (by omega), if_neg (by omega)]
  exact dif_pos t.inCalendar

end Instant

namespace Rfc3339
open Text Decimal

private theorem not_isBlank_of_isDigit {c : Char} (h : isDigit c = true) : isBlank c = false := by
  have hlow : 0x30 ≤ c.toNat ∧ c.toNat ≤ 0x39 := by
    simp only [isDigit, Bool.and_eq_true, decide_eq_true_eq] at h
    exact h
  simp only [isBlank, Bool.or_eq_false_iff, Bool.and_eq_false_iff, decide_eq_false_iff_not,
    beq_eq_false_iff_ne]
  omega

/-- What is written of a number begins with a digit. -/
private theorem exists_digit {width : Nat} (hw : 0 < width) (n : Nat) :
    ∃ c ds, renderPadded width n = c :: ds ∧ isDigit c = true := by
  have hlen := length_le_renderPadded width n
  cases hds : renderPadded width n with
  | nil =>
    rw [hds, List.length_nil] at hlen
    omega
  | cons c ds =>
    exact ⟨c, ds, rfl, isDigit_of_mem_renderPadded (by rw [hds]; exact List.mem_cons_self)⟩

private theorem trimStart_renderPadded {width : Nat} (hw : 0 < width) (n : Nat) (rest : List Char) :
    trimStart (renderPadded width n ++ rest) = renderPadded width n ++ rest := by
  obtain ⟨c, ds, hds, hc⟩ := exists_digit hw n
  rw [hds, List.cons_append, trimStart,
    List.dropWhile_cons_of_neg (by simp [not_isBlank_of_isDigit hc])]

private theorem takeWhile_renderPadded (width n : Nat) {rest : List Char}
    (h : rest.takeWhile isDigit = []) :
    (renderPadded width n ++ rest).takeWhile isDigit = renderPadded width n := by
  rw [List.takeWhile_append_of_pos fun c hc => isDigit_of_mem_renderPadded hc, h, List.append_nil]

theorem number?_renderPadded {width n : Nat} (hw : 0 < width) (hn : n < Nat.pow 10 width)
    (rest : List Char) :
    number? width (renderPadded width n ++ rest) = some (n, rest) := by
  have hlen := length_renderPadded hw hn
  have htake : (renderPadded width n ++ rest).take width = renderPadded width n :=
    List.take_left' hlen
  have hdigits : (renderPadded width n).takeWhile isDigit = renderPadded width n := by
    have hall := @takeWhile_renderPadded width n [] rfl
    rwa [List.append_nil] at hall
  have hsome : (renderPadded width n).isEmpty = false := by
    obtain ⟨c, ds, hds, -⟩ := exists_digit hw n
    rw [hds]
    rfl
  simp only [number?, trimStart_renderPadded hw, htake, hdigits, hsome, value_renderPadded,
    List.drop_left]
  rfl

private theorem signed_renderPadded (sign : Int) (n : Nat) {rest : List Char}
    (h : rest.takeWhile isDigit = []) :
    year?.signed sign (renderPadded 4 n ++ rest) = some (sign * n, rest) := by
  have hsome : (renderPadded 4 n).isEmpty = false := by
    obtain ⟨c, ds, hds, -⟩ := exists_digit (by decide : 0 < 4) n
    rw [hds]
    rfl
  simp only [year?.signed, takeWhile_renderPadded 4 n h, hsome, value_renderPadded, List.drop_left]
  rfl

theorem year?_renderYear (year : Int) {rest : List Char} (h : rest.takeWhile isDigit = []) :
    year? (renderYear year ++ rest) = some (year, rest) := by
  unfold renderYear
  split
  · next hbare =>
    obtain ⟨c, ds, hds, hc⟩ := exists_digit (by decide : 0 < 4) year.toNat
    have hread : number? 4 (renderPadded 4 year.toNat ++ rest) = some (year.toNat, rest) := by
      refine number?_renderPadded (by decide) ?_ rest
      change year.toNat < 10000
      omega
    have hyear : Int.ofNat year.toNat = year := Int.toNat_of_nonneg hbare.1
    have hminus : c ≠ '-' := fun he => by rw [he] at hc; exact absurd hc (by decide)
    have hplus : c ≠ '+' := fun he => by rw [he] at hc; exact absurd hc (by decide)
    rw [year?, trimStart_renderPadded (by decide)]
    rw [hds, List.cons_append] at hread ⊢
    split
    · next heq => exact absurd (List.cons.inj heq).1 hminus
    · next heq => exact absurd (List.cons.inj heq).1 hplus
    · rw [hread, Option.map_some]
      exact congrArg (fun year => some (year, rest)) hyear
  · next hsigned =>
    by_cases hneg : year < 0
    · have hyear : (-1 : Int) * year.natAbs = year := by omega
      rw [if_pos hneg]
      exact (signed_renderPadded (-1) year.natAbs h).trans (by rw [hyear])
    · have hyear : (1 : Int) * year.natAbs = year := by omega
      rw [if_neg hneg]
      exact (signed_renderPadded 1 year.natAbs h).trans (by rw [hyear])

/-- Of a fraction of `width` digits that many are read. -/
theorem fraction?_renderPadded {width n : Nat} (hw : 0 < width) (hle : width ≤ 9)
    (hn : n < Nat.pow 10 width) :
    fraction? ('.' :: renderPadded width n ++ ['Z']) =
      some (n * Nat.pow 10 (9 - width), ['Z']) := by
  have hlen := length_renderPadded hw hn
  have hdigits : (renderPadded width n ++ ['Z']).takeWhile isDigit = renderPadded width n :=
    takeWhile_renderPadded width n (by decide)
  have hsome : (renderPadded width n).isEmpty = false := by
    obtain ⟨c, ds, hds, -⟩ := exists_digit hw n
    rw [hds]
    rfl
  have hkept : (renderPadded width n).take 9 = renderPadded width n :=
    List.take_of_length_le (by omega)
  have hrest : (renderPadded width n ++ ['Z']).drop width = ['Z'] := List.drop_left' hlen
  simp only [List.cons_append, fraction?, hdigits, hsome, hkept, value_renderPadded, hlen, hrest]
  rfl

/-- A timestamp is read with the fraction that its own is read as. -/
theorem parseChars?_renderWith {fraction : Nat → List Char} {t : Instant} {nanos : Nat}
    (hread : fraction? (fraction t.nanos ++ ['Z']) = some (nanos, ['Z'])) (h : nanos < 1000000000) :
    parseChars? (renderWith fraction t) = some (t.atNanos nanos h) := by
  obtain ⟨-, hmonth, hday, hhour, hminute, hsecond, -⟩ := t.inCalendar
  have hdays : Calendar.daysIn t.year t.month ≤ 31 := by
    unfold Calendar.daysIn
    split
    · split <;> omega
    all_goals omega
  have htwo (n : Nat) (hn : n < 100) (rest : List Char) :
      number? 2 (renderPadded 2 n ++ rest) = some (n, rest) :=
    number?_renderPadded (by decide) hn rest
  have hfields : Instant.ofFields? t.year t.month t.day t.hour t.minute t.second nanos =
      some (t.atNanos nanos h) :=
    dif_pos (t.atNanos nanos h).inCalendar
  have hdash (rest : List Char) : mark? '-' ('-' :: rest) = some rest := rfl
  have hcolon (rest : List Char) : mark? ':' (':' :: rest) = some rest := rfl
  have hzulu : offset? (trimStart ['Z']) = some (0, []) := rfl
  simp only [renderWith, List.append_assoc, List.cons_append]
  unfold parseChars?
  refine Option.bind_eq_some_iff.2 ⟨_, year?_renderYear t.year rfl, ?_⟩
  refine Option.bind_eq_some_iff.2 ⟨_, hdash _, ?_⟩
  refine Option.bind_eq_some_iff.2 ⟨_, htwo t.month (by omega) _, ?_⟩
  refine Option.bind_eq_some_iff.2 ⟨_, hdash _, ?_⟩
  refine Option.bind_eq_some_iff.2 ⟨_, htwo t.day (by omega) _, ?_⟩
  refine Option.bind_eq_some_iff.2 ⟨_, rfl, ?_⟩
  refine Option.bind_eq_some_iff.2 ⟨_, htwo t.hour (by omega) _, ?_⟩
  refine Option.bind_eq_some_iff.2 ⟨_, hcolon _, ?_⟩
  refine Option.bind_eq_some_iff.2 ⟨_, htwo t.minute (by omega) _, ?_⟩
  refine Option.bind_eq_some_iff.2 ⟨_, hcolon _, ?_⟩
  refine Option.bind_eq_some_iff.2 ⟨_, htwo t.second (by omega) _, ?_⟩
  refine Option.bind_eq_some_iff.2 ⟨_, hread, ?_⟩
  refine Option.bind_eq_some_iff.2 ⟨_, hzulu, ?_⟩
  refine Option.bind_eq_some_iff.2 ⟨_, hfields, ?_⟩
  exact (t.atNanos nanos h).minusMinutes?_zero

/-- What is cut to microseconds is not after the time. -/
theorem parse?_renderMicros (t : Instant) : ∃ t', parse? (renderMicros t) = some t' ∧ t' ≤ t := by
  have hnanos : t.nanos < 1000000000 := t.inCalendar.2.2.2.2.2.2
  have hlt : t.nanos / 1000 * 1000 < 1000000000 := by omega
  have hread : fraction? ('.' :: renderPadded 6 (t.nanos / 1000) ++ ['Z']) =
      some (t.nanos / 1000 * 1000, ['Z']) := by
    refine fraction?_renderPadded (by decide) (by decide) ?_
    change t.nanos / 1000 < 1000000
    omega
  refine ⟨t.atNanos (t.nanos / 1000 * 1000) hlt, ?_, Instant.atNanos_le hlt (by omega)⟩
  rw [parse?, renderMicros, String.toList_ofList]
  exact parseChars?_renderWith hread hlt

theorem fraction?_renderFraction {nanos : Nat} (h : nanos < 1000000000) :
    fraction? (renderFraction nanos ++ ['Z']) = some (nanos, ['Z']) := by
  unfold renderFraction
  split
  · next hzero => rw [hzero]; rfl
  split
  · next hmillis =>
    have hread := @fraction?_renderPadded 3 (nanos / 1000000) (by decide) (by decide)
      (by change _ < 1000; omega)
    have hvalue : nanos / 1000000 * Nat.pow 10 6 = nanos := by
      change nanos / 1000000 * 1000000 = nanos
      omega
    rwa [hvalue] at hread
  split
  · next hmicros =>
    have hread := @fraction?_renderPadded 6 (nanos / 1000) (by decide) (by decide)
      (by change _ < 1000000; omega)
    have hvalue : nanos / 1000 * Nat.pow 10 3 = nanos := by
      change nanos / 1000 * 1000 = nanos
      omega
    rwa [hvalue] at hread
  · exact (@fraction?_renderPadded 9 nanos (by decide) (by decide) h).trans (by simp)

/-- The fraction is written with as many digits as it needs, so the time is read as it was. -/
theorem parse?_render (t : Instant) : parse? (render t) = some t := by
  have hnanos : t.nanos < 1000000000 := t.inCalendar.2.2.2.2.2.2
  rw [parse?, render, String.toList_ofList]
  exact parseChars?_renderWith (fraction?_renderFraction hnanos) hnanos

end Rfc3339
end ControlPlane
