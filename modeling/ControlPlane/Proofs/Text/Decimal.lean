import ControlPlane.Text.Decimal

/-! # Numbers and their decimal digits

Digits spell their number, zeros in front of it change nothing, and a number below a power of ten
has no more digits than that power has zeros.
-/
namespace ControlPlane.Decimal

private theorem ofDigits_digitsFrom {fuel n : Nat} (h : n < fuel) (seen : List Nat) :
    ofDigits (digitsFrom fuel n seen) = seen.foldl (fun n d => n * 10 + d) n := by
  induction fuel generalizing n seen with
  | zero => omega
  | succ fuel ih =>
    rw [digitsFrom]
    split
    · simp [ofDigits]
    · have hn : n / 10 * 10 + n % 10 = n := by omega
      rw [ih (by omega), List.foldl_cons, hn]

theorem ofDigits_digits (n : Nat) : ofDigits (digits n) = n :=
  ofDigits_digitsFrom (Nat.lt_succ_self n) []

private theorem lt_of_mem_digitsFrom {fuel n : Nat} {seen : List Nat} (h : n < fuel)
    (hseen : ∀ d ∈ seen, d < 10) :
    ∀ d ∈ digitsFrom fuel n seen, d < 10 := by
  induction fuel generalizing n seen with
  | zero => omega
  | succ fuel ih =>
    rw [digitsFrom]
    split
    · simpa using ⟨by omega, hseen⟩
    · exact ih (by omega) (by simpa using ⟨by omega, hseen⟩)

theorem lt_of_mem_digits {n d : Nat} (h : d ∈ digits n) : d < 10 :=
  lt_of_mem_digitsFrom (Nat.lt_succ_self n) (by simp) d h

private theorem exists_digitsFrom {fuel n : Nat} (hn : 0 < n) (h : n < fuel) (seen : List Nat) :
    ∃ d ds, digitsFrom fuel n seen = d :: ds ∧ 0 < d := by
  induction fuel generalizing n seen with
  | zero => omega
  | succ fuel ih =>
    rw [digitsFrom]
    split
    · exact ⟨n, seen, rfl, hn⟩
    · exact ih (by omega) (by omega) _

/-- Only zero has a zero in front. -/
theorem exists_digits {n : Nat} (hn : 0 < n) : ∃ d ds, digits n = d :: ds ∧ 0 < d :=
  exists_digitsFrom hn (Nat.lt_succ_self n) []

private theorem length_digitsFrom_le {fuel n width : Nat} (h : n < fuel) (hw : 0 < width)
    (hn : n < Nat.pow 10 width) (seen : List Nat) :
    (digitsFrom fuel n seen).length ≤ width + seen.length := by
  induction fuel generalizing n width seen with
  | zero => omega
  | succ fuel ih =>
    rw [digitsFrom]
    split
    · rw [List.length_cons]
      omega
    · obtain ⟨width, rfl⟩ : ∃ w, width = w + 1 := ⟨width - 1, by omega⟩
      have hpow : Nat.pow 10 (width + 1) = Nat.pow 10 width * 10 := rfl
      have hpos : width ≠ 0 := by
        rintro rfl
        have hten : Nat.pow 10 (0 + 1) = 10 := rfl
        omega
      have hlt : n / 10 < Nat.pow 10 width := by omega
      have hle := ih (by omega) (by omega) hlt (n % 10 :: seen)
      rw [List.length_cons] at hle
      omega

theorem length_digits_le {n width : Nat} (hw : 0 < width) (hn : n < Nat.pow 10 width) :
    (digits n).length ≤ width :=
  length_digitsFrom_le (Nat.lt_succ_self n) hw hn []

private theorem ofDigits_replicate_zero (k : Nat) (ds : List Nat) :
    ofDigits (List.replicate k 0 ++ ds) = ofDigits ds := by
  induction k with
  | zero => rfl
  | succ k ih => exact ih

private theorem digitChar_spec :
    ∀ d < 10, isDigit (digitChar d) = true ∧ (digitChar d).toNat - 0x30 = d := by decide

private theorem lt_of_mem_padded {width n d : Nat} (h : d ∈ padded width n) : d < 10 := by
  rcases List.mem_append.1 h with h | h
  · rw [(List.mem_replicate.1 h).2]
    decide
  · exact lt_of_mem_digits h

theorem isDigit_of_mem_renderPadded {width n : Nat} {c : Char} (h : c ∈ renderPadded width n) :
    isDigit c = true := by
  obtain ⟨d, hd, rfl⟩ := List.mem_map.1 h
  exact (digitChar_spec d (lt_of_mem_padded hd)).1

theorem value_renderPadded (width n : Nat) : value (renderPadded width n) = n := by
  have hmap : (renderPadded width n).map (fun c => c.toNat - 0x30) = padded width n := by
    rw [renderPadded, List.map_map]
    refine (List.map_congr_left fun d hd => ?_).trans (List.map_id _)
    exact (digitChar_spec d (lt_of_mem_padded hd)).2
  rw [value, hmap, padded, ofDigits_replicate_zero, ofDigits_digits]

theorem isDigit_of_mem_render {n : Nat} {c : Char} (h : c ∈ render n) : isDigit c = true := by
  obtain ⟨d, hd, rfl⟩ := List.mem_map.1 h
  exact (digitChar_spec d (lt_of_mem_digits hd)).1

theorem value_render (n : Nat) : value (render n) = n := by
  have hpadded : renderPadded 0 n = render n := by simp [renderPadded, padded, render]
  rw [← hpadded, value_renderPadded]

/-- Only zero is written with a zero in front. -/
theorem exists_render {n : Nat} (hn : 0 < n) : ∃ c cs, render n = c :: cs ∧ c ≠ '0' := by
  obtain ⟨d, ds, hds, hd⟩ := exists_digits hn
  refine ⟨digitChar d, ds.map digitChar, by rw [render, hds, List.map_cons], fun he => ?_⟩
  have hvalue := (digitChar_spec d (lt_of_mem_digits (hds ▸ List.mem_cons_self))).2
  rw [he] at hvalue
  exact absurd hvalue (Nat.ne_of_lt hd)

theorem render_ne_nil (n : Nat) : render n ≠ [] := by
  rcases Nat.eq_zero_or_pos n with rfl | hn
  · exact List.cons_ne_nil _ _
  · obtain ⟨c, cs, hrender, -⟩ := exists_render hn
    rw [hrender]
    exact List.cons_ne_nil c cs

theorem no_leading_zero (n : Nat) : ¬ ((render n).head? = some '0' ∧ (render n).length ≠ 1) := by
  rintro ⟨hhead, hlength⟩
  rcases Nat.eq_zero_or_pos n with rfl | hn
  · exact hlength rfl
  · obtain ⟨c, cs, hrender, hc⟩ := exists_render hn
    rw [hrender] at hhead
    exact hc (Option.some.inj hhead)

theorem length_renderPadded {width n : Nat} (hw : 0 < width) (hn : n < Nat.pow 10 width) :
    (renderPadded width n).length = width := by
  have hle := length_digits_le hw hn
  rw [renderPadded, List.length_map, padded, List.length_append, List.length_replicate]
  omega

theorem length_le_renderPadded (width n : Nat) : width ≤ (renderPadded width n).length := by
  rw [renderPadded, List.length_map, padded, List.length_append, List.length_replicate]
  omega

end ControlPlane.Decimal
