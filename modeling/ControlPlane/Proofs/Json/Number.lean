import ControlPlane.Proofs.Json.Text
import ControlPlane.Proofs.Text.Decimal

/-! # Integers that are written are read

An integer of 64 bits, signed or not, is written by its digits without a leading zero, and is read
as that integer as long as nothing behind it goes on with the number.
-/
namespace ControlPlane

namespace Decimal

theorem toNat_digitChar {d : Nat} (h : d < 10) : (digitChar d).toNat = 0x30 + d :=
  Utf8.toNat_charOfNat (by omega)

end Decimal

namespace Json

/-- Nothing follows a value that is written, or the comma or bracket behind it does. -/
def Ends (rest : Bytes) : Prop := ∀ b, rest.head? = some b → b = 0x2C ∨ b = 0x5D ∨ b = 0x7D

theorem ends_nil : Ends [] := by simp [Ends]

theorem ends_cons {b : UInt8} (h : b = 0x2C ∨ b = 0x5D ∨ b = 0x7D) (rest : Bytes) :
    Ends (b :: rest) := by
  rintro _ ⟨⟩
  exact h

theorem Ends.head?_ne {rest : Bytes} (h : Ends rest) {b : UInt8}
    (hb : ¬ (b = 0x2C ∨ b = 0x5D ∨ b = 0x7D)) :
    rest.head? ≠ some b :=
  fun he => hb (h b he)

/-- The digits of a number as they are written. -/
def digitBytes (n : Nat) : Bytes := ascii (Decimal.render n)

theorem digitBytes_eq (n : Nat) :
    digitBytes n = (Decimal.digits n).map fun d => UInt8.ofNat (0x30 + d) := by
  rw [digitBytes, ascii, Decimal.render, List.map_map]
  refine List.map_congr_left fun d hd => ?_
  rw [Function.comp_apply, Decimal.toNat_digitChar (Decimal.lt_of_mem_digits hd)]

namespace Reader
variable {rest : Bytes} {n : Nat}

private theorem digit_spec :
    ∀ d < 10, isDigit (UInt8.ofNat (0x30 + d)) = true ∧
      digitValue (UInt8.ofNat (0x30 + d)) = d := by decide

theorem isDigit_of_mem_digitBytes {b : UInt8} (h : b ∈ digitBytes n) : isDigit b = true := by
  rw [digitBytes_eq] at h
  obtain ⟨d, hd, rfl⟩ := List.mem_map.1 h
  exact (digit_spec d (Decimal.lt_of_mem_digits hd)).1

theorem map_digitValue_digitBytes (n : Nat) : (digitBytes n).map digitValue = Decimal.digits n := by
  rw [digitBytes_eq, List.map_map]
  refine (List.map_congr_left fun d hd => ?_).trans (List.map_id _)
  exact (digit_spec d (Decimal.lt_of_mem_digits hd)).2

theorem natOf_digitBytes (n : Nat) : natOf (digitBytes n) = n := by
  rw [natOf, map_digitValue_digitBytes, Decimal.ofDigits_digits]

theorem digitBytes_zero : digitBytes 0 = [0x30] := rfl

theorem exists_digitBytes (n : Nat) : ∃ b bs, digitBytes n = b :: bs ∧ isDigit b = true := by
  have hne : (digitBytes n) ≠ [] := by
    intro hnil
    have hnat := map_digitValue_digitBytes n
    rw [hnil] at hnat
    rcases Nat.eq_zero_or_pos n with rfl | hn
    · cases hnat
    · obtain ⟨d, ds, hds, -⟩ := Decimal.exists_digits hn
      rw [hds] at hnat
      cases hnat
  obtain ⟨b, bs, h⟩ := List.exists_cons_of_ne_nil hne
  exact ⟨b, bs, h, isDigit_of_mem_digitBytes (h ▸ List.mem_cons_self)⟩

theorem no_leading_zero (n : Nat) :
    ¬ ((digitBytes n).head? = some 0x30 ∧ 1 < (digitBytes n).length) := by
  rcases Nat.eq_zero_or_pos n with rfl | hn
  · simp [digitBytes_zero]
  · obtain ⟨d, ds, hds, hd⟩ := Decimal.exists_digits hn
    have hten : d < 10 := Decimal.lt_of_mem_digits (hds ▸ List.mem_cons_self)
    have hhead : UInt8.ofNat (0x30 + d) ≠ 0x30 := by
      intro he
      have hvalue := (digit_spec d hten).2
      rw [he] at hvalue
      exact absurd hvalue (Nat.ne_of_lt hd)
    rw [digitBytes_eq, hds, List.map_cons, List.head?_cons]
    exact fun h => hhead (Option.some.inj h.1)

/-! ## The parts of a number -/

theorem digits1_digitBytes (n : Nat) (hrest : Ends rest) :
    digits1 (digitBytes n ++ rest) = .ok (digitBytes n, rest) := by
  have hstop : rest.takeWhile isDigit = [] ∧ rest.dropWhile isDigit = rest := by
    cases rest with
    | nil => exact ⟨rfl, rfl⟩
    | cons b rest =>
      have hb : isDigit b = false := by
        rcases hrest b rfl with rfl | rfl | rfl <;> rfl
      simp [hb]
  have hall : ∀ b ∈ digitBytes n, isDigit b = true := fun b => isDigit_of_mem_digitBytes
  obtain ⟨b, bs, hcons, -⟩ := exists_digitBytes n
  have hsome : (digitBytes n).isEmpty = false := by rw [hcons]; rfl
  simp [digits1, List.takeWhile_append_of_pos hall, List.dropWhile_append_of_pos hall, hstop, hsome]

/-- A sign is written in front of the digits, and no fraction or exponent behind them. -/
def numeralBytes (negative : Bool) (n : Nat) : Bytes :=
  (if negative then [0x2D] else []) ++ digitBytes n

theorem numeral_numeralBytes (negative : Bool) (n : Nat) (hrest : Ends rest) :
    numeral (numeralBytes negative n ++ rest) =
      .ok (⟨negative, digitBytes n, none, none⟩, rest) := by
  have hpoint : rest.head? ≠ some 0x2E := hrest.head?_ne (by decide)
  have hlower : rest.head? ≠ some 0x65 := hrest.head?_ne (by decide)
  have hupper : rest.head? ≠ some 0x45 := hrest.head?_ne (by decide)
  obtain ⟨b, bs, hcons, hb⟩ := exists_digitBytes n
  have hsign : some b ≠ some 0x2D := by
    rintro ⟨⟩
    cases hb
  have hend : peekHere rest = .ok (rest.head?, rest) := rfl
  have hlast : ¬ (rest.head? = some 0x65 ∨ rest.head? = some 0x45) := by
    rintro (h | h)
    · exact hlower h
    · exact hupper h
  unfold numeral
  cases negative with
  | false =>
    have hpeek : peekHere (digitBytes n ++ rest) = .ok (some b, digitBytes n ++ rest) := by
      rw [hcons]; rfl
    rw [numeralBytes, if_neg (by decide), List.nil_append, bind_of_ok hpeek]
    simp only [if_neg hsign]
    rw [bind_of_ok (digits1_digitBytes n hrest), if_neg (no_leading_zero n)]
    refine (bind_of_ok ((bind_of_ok hend).trans (congrFun (if_neg hpoint) rest))).trans ?_
    refine (bind_of_ok ((bind_of_ok hend).trans (congrFun (if_neg hlast) rest))).trans ?_
    rw [decide_eq_false hsign]
    rfl
  | true =>
    have hpeek : peekHere (0x2D :: (digitBytes n ++ rest)) =
        .ok (some 0x2D, 0x2D :: (digitBytes n ++ rest)) := rfl
    have hdrop : drop (0x2D :: (digitBytes n ++ rest)) = .ok ((), digitBytes n ++ rest) := rfl
    rw [numeralBytes, if_pos rfl, List.append_assoc, List.singleton_append, bind_of_ok hpeek]
    simp only [if_true]
    rw [bind_of_ok hdrop, bind_of_ok (digits1_digitBytes n hrest), if_neg (no_leading_zero n)]
    refine (bind_of_ok ((bind_of_ok hend).trans (congrFun (if_neg hpoint) rest))).trans ?_
    refine (bind_of_ok ((bind_of_ok hend).trans (congrFun (if_neg hlast) rest))).trans ?_
    rfl

/-! ## The integer of a number -/

private theorem le_foldl_digits (ds : Bytes) (n : Nat) :
    n ≤ ds.foldl (fun n d => n * 10 + digitValue d) n := by
  induction ds generalizing n with
  | nil => exact Nat.le_refl n
  | cons d ds ih => exact Nat.le_trans (by omega) (ih (n * 10 + digitValue d))

private theorem fold64_eq {ds : Bytes} {n : Nat}
    (h : ds.foldl (fun n d => n * 10 + digitValue d) n < UInt64.size) (taken : Nat) :
    fold64 n taken ds = (ds.foldl (fun n d => n * 10 + digitValue d) n, taken + ds.length) := by
  induction ds generalizing n taken with
  | nil => rfl
  | cons d ds ih =>
    have hle := le_foldl_digits ds (n * 10 + digitValue d)
    have hnext : n * 10 + digitValue d < UInt64.size := Nat.lt_of_le_of_lt hle h
    rw [fold64, if_pos hnext, ih h, List.length_cons, List.foldl_cons]
    congr 1
    omega

theorem fold64_digitBytes (h : n < UInt64.size) :
    fold64 0 0 (digitBytes n) = (n, (digitBytes n).length) := by
  have hvalue : (digitBytes n).foldl (fun n d => n * 10 + digitValue d) 0 = n := by
    have hnat := natOf_digitBytes n
    rwa [natOf, Decimal.ofDigits, List.foldl_map] at hnat
  rw [fold64_eq (by rwa [hvalue]), hvalue, Nat.zero_add]

/-- Rounding adds at most one unit of the last of 53 bits. -/
private theorem roundTo53_le (h : n < UInt64.size) : roundTo53 n ≤ 2 * UInt64.size := by
  have hsize : UInt64.size = 2 ^ 64 := rfl
  rw [hsize] at h ⊢
  have hlog : n.log2 < 64 ∨ n = 0 := by
    rcases Nat.eq_zero_or_pos n with hn | hn
    · exact .inr hn
    · exact .inl ((Nat.log2_lt (by omega)).2 h)
  have hshift : n.log2 + 1 - 53 ≤ 11 := by
    rcases hlog with hlog | rfl
    · omega
    · decide
  have hpow : 2 ^ (n.log2 + 1 - 53) ≤ 2 ^ 11 := Nat.pow_le_pow_right (by omega) hshift
  have hkept : n >>> (n.log2 + 1 - 53) * 2 ^ (n.log2 + 1 - 53) ≤ n := by
    rw [Nat.shiftRight_eq_div_pow]
    exact Nat.div_mul_le_self _ _
  rw [roundTo53, Nat.shiftLeft_eq]
  split
  · rw [Nat.add_mul]
    omega
  · omega

theorem not_overflows (h : n < UInt64.size) : overflows n 0 = false := by
  have hround := roundTo53_le h
  have hone : roundTo53 (Nat.pow 10 (Int.toNat 0)) = 1 := by decide
  have hbound : 2 * UInt64.size < Nat.pow 2 1024 - Nat.pow 2 970 := by decide +kernel
  have hless :
      ¬ Nat.pow 2 1024 - Nat.pow 2 970 ≤ roundTo53 n * roundTo53 (Nat.pow 10 (Int.toNat 0)) := by
    rw [hone, Nat.mul_one]
    exact Nat.not_le.2 (Nat.lt_of_le_of_lt hround hbound)
  have hsmall : ¬ 308 < (0 : Int) := by decide
  rw [overflows, decide_eq_false hless, decide_eq_false hsmall, Bool.and_false, Bool.or_false,
    Bool.and_false]

theorem isFinite_digitBytes (negative : Bool) (h : n < UInt64.size) :
    Numeral.isFinite ⟨negative, digitBytes n, none, none⟩ = true := by
  simp [Numeral.isFinite, fold64_digitBytes h, fold64, not_overflows h]

/-- The integers that stay exact. -/
def IsExact (n : Int) : Prop := -0x8000000000000000 ≤ n ∧ n < 0x10000000000000000

theorem ascii_renderInt (n : Int) :
    ascii (Decimal.renderInt n) = numeralBytes (n < 0) n.natAbs := by
  cases n with
  | ofNat n => simp [Decimal.renderInt, numeralBytes, digitBytes]
  | negSucc n => simp [Decimal.renderInt, numeralBytes, digitBytes, ascii]

theorem number_renderInt {n : Int} (hn : IsExact n) (hrest : Ends rest) :
    number (ascii (Decimal.renderInt n) ++ rest) = .ok (some n, rest) := by
  obtain ⟨hlow, hhigh⟩ := hn
  have hsize : n.natAbs < UInt64.size := by simp only [UInt64.size]; omega
  have hinteger : Numeral.integer? ⟨decide (n < 0), digitBytes n.natAbs, none, none⟩ = some n := by
    by_cases hneg : n < 0
    · have hpos : 0 < n.natAbs ∧ n.natAbs ≤ 0x8000000000000000 := by omega
      have hvalue : -(n.natAbs : Int) = n := by omega
      generalize n.natAbs = size at hpos hvalue ⊢
      simp [Numeral.integer?, Numeral.isInteger, natOf_digitBytes, hneg, hpos, hvalue]
    · have hvalue : (n.natAbs : Int) = n := by omega
      simp [Numeral.integer?, Numeral.isInteger, natOf_digitBytes, hneg, hsize, hvalue]
  rw [ascii_renderInt, number, bind_of_ok (numeral_numeralBytes _ _ hrest),
    if_pos (isFinite_digitBytes _ hsize), hinteger]
  rfl

end Reader
end Json
end ControlPlane
