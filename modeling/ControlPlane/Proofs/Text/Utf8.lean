import ControlPlane.Text.Utf8
import Mathlib.Tactic.SplitIfs

/-! # Texts that are written are read

Each character is read off the bytes that write it, whatever comes behind them. So the bytes of a
text are read as that text, strictly and with replacement alike; and bytes that both readers take
for a text they take for the same one.
-/
namespace ControlPlane.Utf8

@[simp] theorem encode_append (s t : String) : encode (s ++ t) = encode s ++ encode t := by
  simp [encode]

theorem encode_ofList (cs : List Char) :
    encode (String.ofList cs) = cs.flatMap String.utf8EncodeChar := by
  simp [encode]

theorem toNat_charOfNat {n : Nat} (h : n < 0xD800) : (Char.ofNat n).toNat = n := by
  rw [Char.ofNat, dif_pos (Or.inl h)]
  rfl

/-! ## One character -/

section Characters
variable {seen : List (Option Char)} {rest : Bytes}

private theorem toNat_ofNat {n : Nat} (h : n < 256) : (UInt8.ofNat n).toNat = n := by
  rw [UInt8.toNat_ofNat']
  exact Nat.mod_eq_of_lt h

/-- A byte within the bounds that its character sets adds six bits to it. -/
private theorem unitsFrom_tail {count value low high n : Nat} (hn : n < 64) (hlow : low ≤ n + 128)
    (hhigh : n + 128 ≤ high) :
    unitsFrom (.owing count value low high) seen (UInt8.ofNat (n + 128) :: rest) =
      if count ≤ 1 then unitsFrom .ready (some (Char.ofNat (value * 64 + n)) :: seen) rest
      else unitsFrom (.owing (count - 1) (value * 64 + n) 0x80 0xBF) seen rest := by
  rw [unitsFrom, toNat_ofNat (by omega), step, if_pos ⟨hlow, hhigh⟩]
  split <;> simp

private theorem unitsFrom_begin {n : Nat} {state : State} (hn : n < 256)
    (hbegin : begin n = (state, [])) :
    unitsFrom .ready seen (UInt8.ofNat n :: rest) = unitsFrom state seen rest := by
  rw [unitsFrom, toNat_ofNat hn, step, hbegin]
  rfl

private theorem unitsFrom_two {n : Nat} (hlow : 0x80 ≤ n) (hhigh : n < 0x800) :
    unitsFrom .ready seen (UInt8.ofNat (n / 64 % 32 + 192) :: UInt8.ofNat (n % 64 + 128) :: rest) =
      unitsFrom .ready (some (Char.ofNat n) :: seen) rest := by
  have hbegin : begin (n / 64 % 32 + 192) = (.owing 1 (n / 64) 0x80 0xBF, []) := by
    have hvalue : n / 64 % 32 + 192 - 192 = n / 64 := by omega
    rw [begin, if_neg (by omega), if_neg (by omega), if_pos (by omega), hvalue]
  have hvalue : n / 64 * 64 + n % 64 = n := by omega
  rw [unitsFrom_begin (by omega) hbegin, unitsFrom_tail (by omega) (by omega) (by omega),
    if_pos (by omega), hvalue]

/-- The first of three bytes: surrogates are left out, and so is what fits in fewer bytes. -/
private theorem begin_three {n : Nat} (hlow : 0x800 ≤ n) (hhigh : n < 0x10000)
    (hvalid : n < 0xD800 ∨ 0xDFFF < n) :
    ∃ low high, begin (n / 4096 % 16 + 224) = (.owing 2 (n / 4096) low high, []) ∧
      low ≤ n / 64 % 64 + 128 ∧ n / 64 % 64 + 128 ≤ high := by
  have hvalue : n / 4096 % 16 + 224 - 224 = n / 4096 := by omega
  by_cases hfirst : n / 4096 = 0
  · refine ⟨0xA0, 0xBF, ?_, by omega, by omega⟩
    rw [hfirst]
    rfl
  · by_cases hgap : n / 4096 = 13
    · refine ⟨0x80, 0x9F, ?_, by omega, by omega⟩
      rw [hgap]
      rfl
    · refine ⟨0x80, 0xBF, ?_, by omega, by omega⟩
      rw [begin, if_neg (by omega), if_neg (by omega), if_neg (by omega), if_neg (by omega),
        if_neg (by omega), if_pos (by omega), hvalue]

private theorem unitsFrom_three {n : Nat} (hlow : 0x800 ≤ n) (hhigh : n < 0x10000)
    (hvalid : n < 0xD800 ∨ 0xDFFF < n) :
    unitsFrom .ready seen (UInt8.ofNat (n / 4096 % 16 + 224) :: UInt8.ofNat (n / 64 % 64 + 128) ::
      UInt8.ofNat (n % 64 + 128) :: rest) =
        unitsFrom .ready (some (Char.ofNat n) :: seen) rest := by
  obtain ⟨low, high, hbegin, hl, hh⟩ := begin_three hlow hhigh hvalid
  have hvalue : (n / 4096 * 64 + n / 64 % 64) * 64 + n % 64 = n := by omega
  rw [unitsFrom_begin (by omega) hbegin, unitsFrom_tail (by omega) hl hh, if_neg (by omega),
    unitsFrom_tail (by omega) (by omega) (by omega), if_pos (by omega), hvalue]

private theorem begin_four {n : Nat} (hlow : 0x10000 ≤ n) (hhigh : n < 0x110000) :
    ∃ low high, begin (n / 262144 % 8 + 240) = (.owing 3 (n / 262144) low high, []) ∧
      low ≤ n / 4096 % 64 + 128 ∧ n / 4096 % 64 + 128 ≤ high := by
  have hvalue : n / 262144 % 8 + 240 - 240 = n / 262144 := by omega
  by_cases hfirst : n / 262144 = 0
  · refine ⟨0x90, 0xBF, ?_, by omega, by omega⟩
    rw [hfirst]
    rfl
  · by_cases hlast : n / 262144 = 4
    · refine ⟨0x80, 0x8F, ?_, by omega, by omega⟩
      rw [hlast]
      rfl
    · refine ⟨0x80, 0xBF, ?_, by omega, by omega⟩
      rw [begin, if_neg (by omega), if_neg (by omega), if_neg (by omega), if_neg (by omega),
        if_neg (by omega), if_neg (by omega), if_neg (by omega), if_pos (by omega), hvalue]

private theorem unitsFrom_four {n : Nat} (hlow : 0x10000 ≤ n) (hhigh : n < 0x110000) :
    unitsFrom .ready seen
      (UInt8.ofNat (n / 262144 % 8 + 240) :: UInt8.ofNat (n / 4096 % 64 + 128) ::
      UInt8.ofNat (n / 64 % 64 + 128) :: UInt8.ofNat (n % 64 + 128) :: rest) =
      unitsFrom .ready (some (Char.ofNat n) :: seen) rest := by
  obtain ⟨low, high, hbegin, hl, hh⟩ := begin_four hlow hhigh
  have hvalue : ((n / 262144 * 64 + n / 4096 % 64) * 64 + n / 64 % 64) * 64 + n % 64 = n := by omega
  rw [unitsFrom_begin (by omega) hbegin, unitsFrom_tail (by omega) hl hh, if_neg (by omega),
    unitsFrom_tail (by omega) (by omega) (by omega), if_neg (by omega),
    unitsFrom_tail (by omega) (by omega) (by omega), if_pos (by omega), hvalue]

/-- The bytes of a character are read as that character. -/
theorem unitsFrom_encodeChar (c : Char) (seen : List (Option Char)) (rest : Bytes) :
    unitsFrom .ready seen (String.utf8EncodeChar c ++ rest) =
      unitsFrom .ready (some c :: seen) rest := by
  have hc : some c = some (Char.ofNat c.val.toNat) := congrArg some (Char.ofNat_toNat c).symm
  have hvalid : c.val.toNat < 0xD800 ∨ (0xDFFF < c.val.toNat ∧ c.val.toNat < 0x110000) := c.valid
  rw [hc]
  unfold String.utf8EncodeChar
  dsimp only
  generalize c.val.toNat = n at hvalid
  split
  · next hone =>
    have hbegin : begin n = (.ready, [some (Char.ofNat n)]) := by rw [begin, if_pos (by omega)]
    rw [List.cons_append, unitsFrom, toNat_ofNat (by omega), step, hbegin]
    rfl
  split
  · exact unitsFrom_two (by omega) (by omega)
  split
  · exact unitsFrom_three (by omega) (by omega) (by omega)
  · exact unitsFrom_four (by omega) (by omega)

theorem encodeChar_of_lt {c : Char} (h : c.toNat < 0x80) :
    String.utf8EncodeChar c = [UInt8.ofNat c.toNat] := by
  have hlow : c.val.toNat ≤ 0x7F := by
    change c.val.toNat < 0x80 at h
    omega
  simp only [String.utf8EncodeChar, hlow, if_true]
  rfl

/-- Bytes below 128 write themselves, and no other character has one among its bytes. -/
theorem toNat_of_mem_encodeChar {c : Char} {b : UInt8} (h : b ∈ String.utf8EncodeChar c) :
    (c.toNat < 0x80 ∧ b.toNat = c.toNat) ∨ (0x80 ≤ c.toNat ∧ 0x80 ≤ b.toNat) := by
  have hvalid : c.toNat < 0xD800 ∨ (0xDFFF < c.toNat ∧ c.toNat < 0x110000) := c.valid
  change b ∈ String.utf8EncodeChar c at h
  unfold String.utf8EncodeChar at h
  dsimp only at h
  change (c.val.toNat < _ ∧ _ = c.val.toNat) ∨ (_ ≤ c.val.toNat ∧ _)
  change c.val.toNat < _ ∨ (_ < c.val.toNat ∧ c.val.toNat < _) at hvalid
  generalize c.val.toNat = n at h hvalid
  split at h
  · obtain rfl := List.mem_singleton.1 h
    rw [toNat_ofNat (by omega)]
    omega
  refine .inr ⟨by omega, ?_⟩
  -- All bytes of a longer character have their highest bit set.
  have hset (m k : Nat) (hk : 128 ≤ k) (hm : m + k < 256) : 0x80 ≤ (UInt8.ofNat (m + k)).toNat := by
    rw [toNat_ofNat hm]
    omega
  split at h
  · simp only [List.mem_cons, List.not_mem_nil, or_false] at h
    rcases h with rfl | rfl <;> apply hset <;> omega
  split at h
  · simp only [List.mem_cons, List.not_mem_nil, or_false] at h
    rcases h with rfl | rfl | rfl <;> apply hset <;> omega
  · simp only [List.mem_cons, List.not_mem_nil, or_false] at h
    rcases h with rfl | rfl | rfl | rfl <;> apply hset <;> omega

end Characters

/-! ## Texts -/

theorem mem_encode_iff {s : String} {b : UInt8} :
    b ∈ encode s ↔ ∃ c ∈ s.toList, b ∈ String.utf8EncodeChar c := by
  rw [encode, List.mem_flatMap]

/-- A text without a line feed has no byte of one. -/
theorem newline_not_mem_encode {s : String} (h : '\n' ∉ s.toList) : 0x0A ∉ encode s := by
  intro hmem
  obtain ⟨c, hc, hb⟩ := mem_encode_iff.1 hmem
  obtain ⟨-, he⟩ | ⟨-, hlarge⟩ := toNat_of_mem_encodeChar hb
  · have hfeed : c = '\n' := Char.toNat_inj.1 he.symm
    exact h (hfeed ▸ hc)
  · exact absurd hlarge (by decide)

/-- Of two numbers in six-bit digits the first difference tells the lesser one. -/
private theorem digits_lt {m n : Nat} (h : m < n) (hn : n < 0x110000) :
    m / 262144 % 8 < n / 262144 % 8 ∨
    m / 262144 % 8 = n / 262144 % 8 ∧ (m / 4096 % 64 < n / 4096 % 64 ∨
      m / 4096 % 64 = n / 4096 % 64 ∧
      (m / 64 % 64 < n / 64 % 64 ∨ m / 64 % 64 = n / 64 % 64 ∧ m % 64 < n % 64)) := by
  have hdigit (a b : Nat) (h : a < b) : a / 64 < b / 64 ∨
      a / 64 = b / 64 ∧ a % 64 < b % 64 := by omega
  have hdiv (a : Nat) : a / 4096 = a / 64 / 64 ∧ a / 262144 = a / 64 / 64 / 64 := by omega
  rw [(hdiv m).1, (hdiv m).2, (hdiv n).1, (hdiv n).2]
  have h₁ := hdigit m n h
  have h₂ := hdigit (m / 64) (n / 64)
  have h₃ := hdigit (m / 64 / 64) (n / 64 / 64)
  omega

/-- The first byte that differs tells the lesser of two characters, whatever comes behind them. -/
theorem encodeChar_append_lt {c d : Char} (h : c < d) (l l' : Bytes) :
    String.utf8EncodeChar c ++ l < String.utf8EncodeChar d ++ l' := by
  have hlt : c.val.toNat < d.val.toNat := h
  have hd : d.val.toNat < 0xD800 ∨ (0xDFFF < d.val.toNat ∧ d.val.toNat < 0x110000) := d.valid
  have hdigits := digits_lt hlt (by omega)
  unfold String.utf8EncodeChar
  dsimp only
  generalize c.val.toNat = m at *
  generalize d.val.toNat = n at *
  -- A character of more bytes begins with a greater one; with as many, the bytes are compared one
  -- by one.
  split_ifs <;>
    simp only [List.cons_append, List.cons_lt_cons_iff, UInt8.lt_iff_toNat_lt, ← UInt8.toNat_inj,
      UInt8.toNat_ofNat'] <;> omega

/-- The order of texts is the order of their bytes. -/
theorem encode_lt_encode {s t : String} (h : s < t) : encode s < encode t := by
  have hlex : s.toList < t.toList := h
  unfold encode
  generalize s.toList = cs at hlex
  generalize t.toList = ds at hlex
  induction hlex with
  | @nil d ds =>
    obtain ⟨b, bs, hd⟩ := List.exists_cons_of_ne_nil (String.utf8EncodeChar_ne_nil (c := d))
    rw [List.flatMap_cons, hd]
    exact .nil
  | rel hcd => exact encodeChar_append_lt hcd _ _
  | cons _ ih =>
    rw [List.flatMap_cons, List.flatMap_cons]
    exact List.append_left_lt ih

theorem encode_lt_encode_iff {s t : String} : encode s < encode t ↔ s < t := by
  refine ⟨fun h => String.not_le.1 fun hle => ?_, encode_lt_encode⟩
  by_cases hsame : t = s
  · exact List.lt_irrefl _ (hsame ▸ h)
  · exact List.lt_asymm h (encode_lt_encode (Std.lt_of_le_of_ne hle hsame))

theorem unitsFrom_encode (s : String) (seen : List (Option Char)) :
    unitsFrom .ready seen (encode s) = seen.reverse ++ s.toList.map some := by
  rw [encode]
  induction s.toList generalizing seen with
  | nil => rfl
  | cons c cs ih =>
    rw [List.flatMap_cons, unitsFrom_encodeChar, ih]
    simp

theorem units_encode (s : String) : units (encode s) = s.toList.map some := unitsFrom_encode s []

@[simp] theorem decode?_encode (s : String) : decode? (encode s) = some s := by
  have hall : (s.toList.map some).all Option.isSome = true := by simp
  simp only [decode?, units_encode, if_pos hall]
  rw [List.filterMap_map]
  change some (String.ofList (s.toList.filterMap some)) = some s
  rw [List.filterMap_some, String.ofList_toList]

theorem encode_inj {s t : String} : encode s = encode t ↔ s = t := by
  refine ⟨fun h => ?_, fun h => h ▸ rfl⟩
  have hsame := congrArg decode? h
  rwa [decode?_encode, decode?_encode, Option.some.injEq] at hsame

private theorem map_getD_of_all {us : List (Option Char)} (h : us.all Option.isSome = true)
    (c : Char) :
    us.map (·.getD c) = us.filterMap id := by
  induction us with
  | nil => rfl
  | cons u us ih =>
    obtain ⟨hu, hus⟩ : u.isSome = true ∧ us.all Option.isSome = true := by simpa using h
    obtain ⟨c, rfl⟩ := Option.isSome_iff_exists.1 hu
    simpa using ih hus

/-- Replacement does nothing to bytes that are a text. -/
theorem decodeLossy_of_decode? {bytes : Bytes} {s : String} (h : decode? bytes = some s) :
    decodeLossy bytes = s := by
  unfold decode? at h
  dsimp only at h
  split at h
  · next hall =>
    cases h
    rw [decodeLossy, map_getD_of_all hall]
  · cases h

@[simp] theorem decodeLossy_encode (s : String) : decodeLossy (encode s) = s :=
  decodeLossy_of_decode? (decode?_encode s)

/-! ## Sizes

A reader that finds a character for every unit has taken as many bytes for each as
writing it takes, or more.
-/

/-- The bytes that write the characters among units. -/
def written (us : List (Option Char)) : Bytes := (us.filterMap id).flatMap String.utf8EncodeChar

theorem written_append (us vs : List (Option Char)) :
    written (us ++ vs) = written us ++ written vs := by
  simp [written]

theorem length_encodeChar_ofNat_le (n : Nat) : (String.utf8EncodeChar (Char.ofNat n)).length ≤
    if n < 0x80 then 1 else if n < 0x800 then 2 else if n < 0x10000 then 3 else 4 := by
  have hle : (Char.ofNat n).val.toNat ≤ n := by
    by_cases hvalid : n.isValidChar
    · rw [Char.ofNat, dif_pos hvalid]
      exact Nat.le_refl n
    · rw [Char.ofNat, dif_neg hvalid]
      exact Nat.zero_le n
  unfold String.utf8EncodeChar
  dsimp only
  generalize (Char.ofNat n).val.toNat = k at hle
  grind

/-- Between characters no byte is pending. In a character, those that were taken and those that are
owed are as many as its value needs at most, whatever bits the owed ones bring. -/
def Pending : State → Nat → Prop
  | .ready, taken => taken = 0
  | .owing count value _ high, taken => high ≤ 0xBF ∧
    ((count = 1 ∧ (taken = 1 ∧ value < 32 ∨ taken = 2 ∧ value < 1024 ∨ taken = 3)) ∨
      (count = 2 ∧ (taken = 1 ∧ value < 16 ∨ taken = 2)) ∨ (count = 3 ∧ taken = 1))

theorem begin_pending {b : Nat} (hsome : none ∉ (begin b).2) :
    ∃ taken, Pending (begin b).1 taken ∧ (written (begin b).2).length + taken ≤ 1 := by
  have hpending {count value low high : Nat} (h : Pending (.owing count value low high) 1) :
      ∃ taken, Pending (.owing count value low high) taken ∧
        (written []).length + taken ≤ 1 := ⟨1, h, by simp [written]⟩
  generalize hout : begin b = out at hsome ⊢
  unfold begin at hout
  split_ifs at hout with hone hnone htwo hthree hgap hthree' hfour hfour' hlast <;> subst hout
  · exact ⟨0, rfl, by simpa [written, hone] using length_encodeChar_ofNat_le b⟩
  · exact absurd List.mem_cons_self hsome
  · exact hpending ⟨by omega, by omega⟩
  · exact hpending ⟨by omega, by omega⟩
  · exact hpending ⟨by omega, by omega⟩
  · exact hpending ⟨by omega, by omega⟩
  · exact hpending ⟨by omega, by omega⟩
  · exact hpending ⟨by omega, by omega⟩
  · exact hpending ⟨by omega, by omega⟩
  · exact absurd List.mem_cons_self hsome

theorem step_pending {state : State} {taken b : Nat} (h : Pending state taken)
    (hsome : none ∉ (step state b).2) :
    ∃ taken', Pending (step state b).1 taken' ∧
      (written (step state b).2).length + taken' ≤ taken + 1 := by
  cases state with
  | ready =>
    obtain rfl : taken = 0 := h
    exact begin_pending hsome
  | owing count value low high =>
    obtain ⟨hhigh, hcount⟩ := h
    have hsize := length_encodeChar_ofNat_le (value * 64 + (b - 0x80))
    dsimp only [step] at hsome ⊢
    split_ifs at hsome ⊢ with hb hlast
    · refine ⟨0, rfl, ?_⟩
      simp only [written, List.filterMap_cons, id, List.filterMap_nil, List.flatMap_cons,
        List.flatMap_nil, List.append_nil]
      split_ifs at hsize <;> omega
    · refine ⟨taken + 1, ⟨by omega, by omega⟩, by simp [written]⟩
    · exact absurd List.mem_cons_self hsome

theorem mem_unitsFrom {u : Option Char} (state : State) {seen : List (Option Char)} (h : u ∈ seen)
    (bytes : Bytes) :
    u ∈ unitsFrom state seen bytes := by
  induction bytes generalizing state seen with
  | nil => exact List.mem_append_left _ (List.mem_reverse.2 h)
  | cons b bytes ih => exact ih _ (List.mem_append_right _ h)

theorem length_written_unitsFrom {state : State} {taken : Nat} (h : Pending state taken)
    (seen : List (Option Char)) (bytes : Bytes) (hsome : none ∉ unitsFrom state seen bytes) :
    (written (unitsFrom state seen bytes)).length ≤ (written seen.reverse).length + taken +
      bytes.length := by
  induction bytes generalizing state taken seen with
  | nil =>
    cases state with
    | ready => simp [unitsFrom, finish]
    | owing => exact absurd (List.mem_append_right _ List.mem_cons_self) hsome
  | cons b bytes ih =>
    rw [unitsFrom] at hsome ⊢
    have hstep : none ∉ (step state b.toNat).2 := fun hmem =>
      hsome (mem_unitsFrom _ (List.mem_append_left _ (List.mem_reverse.2 hmem)) bytes)
    obtain ⟨taken', hpending, hsize⟩ := step_pending h hstep
    have hmore := ih hpending _ hsome
    rw [List.reverse_append, List.reverse_reverse, written_append, List.length_append] at hmore
    rw [List.length_cons]
    omega

/-- A text takes no more bytes than it was read from. -/
theorem length_encode_le {bytes : Bytes} {s : String} (h : decode? bytes = some s) :
    (encode s).length ≤ bytes.length := by
  unfold decode? at h
  dsimp only at h
  split at h
  · next hall =>
    cases h
    have hsome : none ∉ units bytes := fun hmem => by simpa using List.all_eq_true.1 hall none hmem
    have hready : Pending .ready 0 := rfl
    have hlength := length_written_unitsFrom hready [] bytes hsome
    rw [encode_ofList]
    simpa [written, units] using hlength
  · cases h

end ControlPlane.Utf8
