import ControlPlane.Toml.Quoted

/-! # TOML strings are read as they were written

A text is read back from whatever form the writer takes for it. An escape reads as the character
it stands for, what stands without an escape is plain, and of the quotes around a long string no
three in a row are in it.
-/
namespace ControlPlane.Toml.Quoted
variable {isLong : Bool} {c q : Char} {cs rest tail : List Char} {n : Nat}

theorem isPlain_of_not_isControl (h : isControl c = false) (hnewline : c ≠ '\n') :
    isPlain c = true := by
  simp only [isControl, Bool.or_eq_false_iff, Bool.and_eq_false_iff, decide_eq_false_iff_not,
    bne_eq_false_iff_eq, beq_eq_false_iff_ne] at h
  simp only [isPlain, Bool.or_eq_true, Bool.and_eq_true, decide_eq_true_eq, beq_iff_eq, bne_iff_ne]
  obtain ⟨(hspace | htab) | hn, hdelete⟩ := h
  · exact .inr ⟨Char.not_lt.1 hspace, hdelete⟩
  · exact .inl htab
  · exact absurd hn hnewline

theorem ne_return_of_not_isControl (h : isControl c = false) : c ≠ '\r' := by
  rintro rfl
  cases h

theorem ne_return_of_isPlain (h : isPlain c = true) : c ≠ '\r' := by
  rintro rfl
  cases h

/-! ## One character of a basic string -/

theorem basicFrom_text (hreturn : c ≠ '\r')
    (hquotes : ∀ tail, c = '"' → rest ≠ '"' :: '"' :: tail) :
    basicFrom isLong .text (c :: rest) =
      if c = '"' then (if isLong then push c (basicFrom isLong .text rest) else some ([], rest))
      else if c = '\\' then basicFrom isLong .escape rest
      else if isPlain c || (isLong && c == '\n') then push c (basicFrom isLong .text rest)
      else none := by
  rw [basicFrom]
  · rfl
  · exact hquotes
  · exact fun _ hc => absurd hc hreturn
  · exact nofun
  · exact nofun

theorem basicFrom_plain (h : isPlain c = true ∨ (isLong = true ∧ c = '\n')) (hquote : c ≠ '"')
    (hback : c ≠ '\\') :
    basicFrom isLong .text (c :: rest) = push c (basicFrom isLong .text rest) := by
  have hreturn : c ≠ '\r' := by
    rcases h with h | ⟨-, rfl⟩
    · exact ne_return_of_isPlain h
    · decide
  rw [basicFrom_text hreturn fun _ hc => absurd hc hquote, if_neg hquote, if_neg hback,
    if_pos (by simpa using h)]

theorem basicFrom_escape :
    basicFrom isLong .text ('\\' :: rest) = basicFrom isLong .escape rest := by
  rw [basicFrom_text (by decide) fun _ hc => absurd hc (by decide), if_neg (by decide), if_pos rfl]

theorem basicFrom_backslash {d : Char} (h : escaped? d = some c) :
    basicFrom isLong .text ('\\' :: d :: rest) = push c (basicFrom isLong .text rest) := by
  have hu : d ≠ 'u' ∧ d ≠ 'U' := by
    constructor <;> rintro rfl <;> cases h
  rw [basicFrom_escape, basicFrom, if_neg hu.1, if_neg hu.2, h]

theorem hexValue?_hexDigit : ∀ n < 16, hexValue? (hexDigit n) = some n := by decide

theorem basicFrom_unicode (h : c.toNat < 0x100) :
    basicFrom isLong .text ('\\' :: 'u' :: '0' :: '0' :: hexDigit (c.toNat / 16) ::
      hexDigit (c.toNat % 16) :: rest) =
      push c (basicFrom isLong .text rest) := by
  have hhigh := hexValue?_hexDigit (c.toNat / 16) (by omega)
  have hlow := hexValue?_hexDigit (c.toNat % 16) (by omega)
  have hzero : hexValue? '0' = some 0 := rfl
  have hvalue :
      (((0 * 16 + 0) * 16 + 0) * 16 + c.toNat / 16) * 16 + c.toNat % 16 = c.toNat := by omega
  have hvalid : c.toNat.isValidChar := c.valid
  rw [basicFrom_escape, basicFrom, if_pos rfl]
  simp only [basicFrom, hzero, hhigh, hlow, hvalue, Nat.reduceSub, Nat.reduceLT, Nat.lt_irrefl,
    if_true, if_false]
  rw [if_pos hvalid, Char.ofNat_toNat]

theorem toNat_lt_of_isControl (h : isControl c = true) : c.toNat < 0x100 := by
  simp only [isControl, Bool.or_eq_true, Bool.and_eq_true, decide_eq_true_eq, beq_iff_eq] at h
  obtain ⟨⟨hspace, -⟩, -⟩ | rfl := h
  · exact Nat.lt_trans (Char.lt_def.1 hspace) (by decide)
  · decide

theorem basicFrom_escapeChar (h : c ≠ '"') :
    basicFrom isLong .text (escapeChar isLong c ++ rest) =
      push c (basicFrom isLong .text rest) := by
  unfold escapeChar
  split
  · next hc => subst hc; exact basicFrom_backslash rfl
  split
  · next hc => subst hc; exact basicFrom_backslash rfl
  split
  · next hc => subst hc; exact basicFrom_backslash rfl
  split
  · next hc =>
    subst hc
    split
    · next hlong => exact basicFrom_plain (.inr ⟨hlong, rfl⟩) (by decide) (by decide)
    · exact basicFrom_backslash rfl
  split
  · next hc => subst hc; exact basicFrom_backslash rfl
  split
  · next hc => subst hc; exact basicFrom_backslash rfl
  split
  · next hcontrol => exact basicFrom_unicode (toNat_lt_of_isControl hcontrol)
  · next hback _ _ hn _ _ hcontrol =>
    exact basicFrom_plain
      (.inl (isPlain_of_not_isControl (Bool.eq_false_iff.2 hcontrol) hn)) h hback

/-! ## Runs of quotes -/

/-- How a reader of a long string takes its quotes: one by one, unless three in a row close it. -/
structure Quotes (f : List Char → Result) (q : Char) : Prop where
  single : ∀ rest, (∀ tail, rest ≠ q :: q :: tail) → f (q :: rest) = push q (f rest)
  close : ∀ rest, f (q :: q :: q :: rest) = closeLong q rest

theorem quotes_basicFrom : Quotes (basicFrom true .text) '"' where
  single rest h := by rw [basicFrom_text (by decide) fun tail _ => h tail, if_pos rfl, if_pos rfl]
  close rest := by
    rw [basicFrom, if_pos rfl]
    · exact nofun
    · exact nofun

theorem quotes_literalFrom : Quotes (literalFrom true) '\'' where
  single rest h := by
    rw [literalFrom]
    · rfl
    · exact fun tail _ => h tail
    · exact fun _ hc => absurd hc (by decide)
  close rest := by rw [literalFrom, if_pos rfl]

variable {f : List Char → Result}

private theorem ne_two_quotes (hn : n ≤ 1) (hhead : rest.head? ≠ some q) :
    ∀ tail, List.replicate n q ++ rest ≠ q :: q :: tail := by
  rintro tail he
  obtain rfl | rfl : n = 0 ∨ n = 1 := by omega
  · rw [List.replicate_zero, List.nil_append] at he
    exact hhead (by rw [he]; rfl)
  · have hrest : rest = q :: tail := List.cons.inj he |>.2
    exact hhead (by rw [hrest]; rfl)

/-- Up to two quotes are of the string if something else follows. -/
theorem Quotes.inside (h : Quotes f q) (hn : n ≤ 2) (hhead : rest.head? ≠ some q)
    (hf : f rest = some (cs, tail)) :
    f (List.replicate n q ++ rest) = some (List.replicate n q ++ cs, tail) := by
  induction n with
  | zero => exact hf
  | succ n ih =>
    rw [List.replicate_succ, List.cons_append, h.single _ (ne_two_quotes (by omega) hhead),
      ih (by omega)]
    rfl

/-- Of a run of quotes at the end the last three close the string. -/
theorem Quotes.ending (h : Quotes f q) (hn : n ≤ 2) (hhead : rest.head? ≠ some q) :
    f (List.replicate n q ++ q :: q :: q :: rest) = some (List.replicate n q, rest) := by
  have hrest : (rest.take (2 - n)).takeWhile (· == q) = [] := by
    cases rest with
    | nil => simp
    | cons d rest =>
      have hne : d ≠ q := fun he => hhead (by rw [he]; rfl)
      cases 2 - n <;> simp [hne]
  have hown : ((List.replicate n q ++ rest).take 2).takeWhile (· == q) = List.replicate n q := by
    rw [List.take_append, List.take_of_length_le (by simpa using hn), List.length_replicate,
      List.takeWhile_append_of_pos (by simp), hrest, List.append_nil]
  have hfront :
      List.replicate n q ++ q :: q :: q :: rest = q :: q :: q :: (List.replicate n q ++ rest) := by
    obtain rfl | rfl | rfl : n = 0 ∨ n = 1 ∨ n = 2 := by omega
    all_goals rfl
  rw [hfront, h.close, closeLong, hown, List.drop_left]

theorem replicate_append_cons (n : Nat) (q : Char) (rest : List Char) :
    List.replicate n q ++ q :: rest = List.replicate (n + 1) q ++ rest := by
  rw [List.replicate_succ', List.append_assoc, List.singleton_append]

/-! ## Basic strings -/

theorem head?_escapeChar (h : c ≠ '"') : (escapeChar isLong c ++ rest).head? ≠ some '"' := by
  unfold escapeChar
  repeat' split
  all_goals simp [h]

theorem basicFrom_long (hn : n ≤ 2) (hhead : rest.head? ≠ some '"') (cs : List Char) :
    basicFrom true .text
      (List.replicate n '"' ++ (escapeFrom true n cs ++ '"' :: '"' :: '"' :: rest)) =
      some (List.replicate n '"' ++ cs, rest) := by
  have hpush {c : Char} {cs : List Char} : push c (some (cs, rest)) = some (c :: cs, rest) := rfl
  induction cs generalizing n with
  | nil =>
    rw [List.append_nil]
    exact quotes_basicFrom.ending hn hhead
  | cons c cs ih =>
    have hfresh := ih (n := 0) (by omega)
    rw [List.replicate_zero, List.nil_append, List.nil_append] at hfresh
    rw [escapeFrom]
    split
    · next hc =>
      subst hc
      split
      · next hroom =>
        have hlt : n < 2 := by simpa using hroom
        rw [List.cons_append, replicate_append_cons, replicate_append_cons]
        exact ih (by omega)
      · -- a third quote in a row is escaped
        refine quotes_basicFrom.inside hn (by simp) ?_
        rw [List.cons_append, List.cons_append, basicFrom_backslash (c := '"') rfl, hfresh, hpush]
    · next hc =>
      rw [List.append_assoc]
      refine quotes_basicFrom.inside hn (head?_escapeChar hc) ?_
      rw [basicFrom_escapeChar hc, hfresh, hpush]

theorem basicFrom_close : basicFrom false .text ('"' :: rest) = some ([], rest) := by
  by_cases h : ∃ tail, rest = '"' :: '"' :: tail
  · obtain ⟨tail, rfl⟩ := h
    rw [basicFrom, if_neg Bool.false_ne_true]
    · exact nofun
    · exact nofun
  · rw [basicFrom_text (by decide) fun tail _ he => h ⟨tail, he⟩, if_pos rfl,
      if_neg Bool.false_ne_true]

theorem basicFrom_short (n : Nat) (cs : List Char) :
    basicFrom false .text (escapeFrom false n cs ++ '"' :: rest) = some (cs, rest) := by
  have hpush {c : Char} {cs : List Char} : push c (some (cs, rest)) = some (c :: cs, rest) := rfl
  induction cs generalizing n with
  | nil => exact basicFrom_close
  | cons c cs ih =>
    rw [escapeFrom]
    split
    · next hc =>
      subst hc
      rw [Bool.false_and, if_neg Bool.false_ne_true, List.cons_append, List.cons_append,
        basicFrom_backslash (c := '"') rfl, ih, hpush]
    · next hc => rw [List.append_assoc, basicFrom_escapeChar hc, ih, hpush]

/-! ## Literal strings -/

theorem literalFrom_plain (h : isPlain c = true ∨ (isLong = true ∧ c = '\n')) (hquote : c ≠ '\'') :
    literalFrom isLong (c :: rest) = push c (literalFrom isLong rest) := by
  have hreturn : c ≠ '\r' := by
    rcases h with h | ⟨-, rfl⟩
    · exact ne_return_of_isPlain h
    · decide
  rw [literalFrom]
  · rw [if_neg (by simp [hquote]), if_pos (by simpa using h)]
  · exact fun _ hc => absurd hc hquote
  · exact fun _ hc => absurd hc hreturn

theorem literalFrom_close : literalFrom false ('\'' :: rest) = some ([], rest) := by
  by_cases h : ∃ tail, rest = '\'' :: '\'' :: tail
  · obtain ⟨tail, rfl⟩ := h
    rw [literalFrom, if_neg Bool.false_ne_true]
  · rw [literalFrom]
    · rfl
    · exact fun tail _ he => h ⟨tail, he⟩
    · exact fun _ hc => absurd hc (by decide)

theorem literalFrom_short (hplain : ∀ c ∈ cs, isPlain c = true) (hquote : '\'' ∉ cs) :
    literalFrom false (cs ++ '\'' :: rest) = some (cs, rest) := by
  induction cs with
  | nil => exact literalFrom_close
  | cons c cs ih =>
    obtain ⟨hc, hcs⟩ := List.forall_mem_cons.1 hplain
    rw [List.mem_cons, not_or] at hquote
    rw [List.cons_append, literalFrom_plain (.inl hc) (Ne.symm hquote.1), ih hcs hquote.2]
    rfl

theorem le_longestRun (c : Char) (n : Nat) (cs : List Char) : n ≤ longestRun c n cs := by
  induction cs generalizing n with
  | nil => exact Nat.le_refl n
  | cons d cs ih =>
    rw [longestRun]
    split
    · exact Nat.le_of_succ_le (ih (n + 1))
    · exact Nat.le_max_left _ _

theorem not_mem_of_longestRun (h : longestRun c n cs = 0) : c ∉ cs := by
  induction cs generalizing n with
  | nil => exact List.not_mem_nil
  | cons d cs ih =>
    rw [longestRun] at h
    split at h
    · have hle := le_longestRun c (n + 1) cs
      omega
    · next hd =>
      have hrest : longestRun c 0 cs = 0 := by omega
      simpa [Ne.symm hd] using ih hrest

theorem literalFrom_long (hcontrol : ∀ c ∈ cs, isControl c = false)
    (hrun : longestRun '\'' n cs ≤ 2) (hhead : rest.head? ≠ some '\'') :
    literalFrom true (List.replicate n '\'' ++ (cs ++ '\'' :: '\'' :: '\'' :: rest)) =
      some (List.replicate n '\'' ++ cs, rest) := by
  have hn : n ≤ 2 := Nat.le_trans (le_longestRun _ n cs) hrun
  induction cs generalizing n with
  | nil =>
    rw [List.append_nil]
    exact quotes_literalFrom.ending hn hhead
  | cons c cs ih =>
    obtain ⟨hc, hcs⟩ := List.forall_mem_cons.1 hcontrol
    rw [longestRun] at hrun
    split at hrun
    · next he =>
      subst he
      have hle := le_longestRun '\'' (n + 1) cs
      rw [List.cons_append, replicate_append_cons, replicate_append_cons]
      exact ih hcs hrun (by omega)
    · next hne =>
      refine quotes_literalFrom.inside hn (by simpa using hne) ?_
      have hfresh := ih (n := 0) hcs (by omega) (by omega)
      rw [List.replicate_zero, List.nil_append, List.nil_append] at hfresh
      have hplain : isPlain c = true ∨ (true = true ∧ c = '\n') := by
        by_cases hnewline : c = '\n'
        · exact .inr ⟨rfl, hnewline⟩
        · exact .inl (isPlain_of_not_isControl hc hnewline)
      rw [List.cons_append, literalFrom_plain hplain hne, hfresh]
      rfl

/-! ## Strings in any form -/

theorem form_literal (h : form cs = .literal) :
    (∀ c ∈ cs, isControl c = false) ∧ longestRun '\'' 0 cs = 0 ∧ '\n' ∉ cs := by
  unfold form at h
  dsimp only at h
  split at h
  · cases h
  split at h
  · next hfits => simpa [and_assoc] using hfits
  split at h
  · cases h
  split at h
  · cases h
  split at h <;> cases h

theorem form_longLiteral (h : form cs = .longLiteral) :
    (∀ c ∈ cs, isControl c = false) ∧ longestRun '\'' 0 cs ≤ 2 := by
  unfold form at h
  dsimp only at h
  split at h
  · cases h
  split at h
  · cases h
  split at h
  · cases h
  split at h
  · next hfits => simpa using hfits
  split at h <;> cases h

/-- A newline stands before a text of several lines, to be passed over; a text of one
line begins with none. -/
theorem dropNewline_begin (h : '\n' ∉ cs → ∀ c ∈ tail.head?, c ≠ '\n' ∧ c ≠ '\r') :
    dropNewline ((if cs.contains '\n' then ['\n'] else []) ++ tail) = tail := by
  by_cases hn : '\n' ∈ cs
  · rw [if_pos (by simpa using hn)]
    rfl
  · rw [if_neg (by simpa using hn), List.nil_append]
    unfold dropNewline
    split <;> simp_all

theorem head?_escapeFrom (h : '\n' ∉ cs) :
    ∀ c ∈ (escapeFrom true 0 cs ++ '"' :: rest).head?, c ≠ '\n' ∧ c ≠ '\r' := by
  cases cs with
  | nil => simp [escapeFrom]
  | cons d cs =>
    have hd : d ≠ '\n' := fun he => h (he ▸ List.mem_cons_self)
    rw [escapeFrom, escapeChar]
    repeat' split
    all_goals simp_all

/-- A string begins with one of its quotes. -/
theorem head?_write (cs tail : List Char) :
    (write cs ++ tail).head? = some '"' ∨ (write cs ++ tail).head? = some '\'' := by
  unfold write
  cases form cs
  · exact .inl rfl
  · exact .inr rfl
  · exact .inl rfl
  · exact .inr rfl

theorem read_basic (h : ∀ more, tail ≠ '"' :: '"' :: more) :
    read ('"' :: tail) = basicFrom false .text tail := by
  rw [read]
  exact h

theorem read_literal (h : ∀ more, tail ≠ '\'' :: '\'' :: more) :
    read ('\'' :: tail) = literalFrom false tail := by
  rw [read]
  exact h

theorem read_write (hdouble : rest.head? ≠ some '"') (hsingle : rest.head? ≠ some '\'')
    (cs : List Char) :
    read (write cs ++ rest) = some (cs, rest) := by
  unfold write
  cases hform : form cs with
  | basic =>
    have hopen : ∀ more, escapeFrom false 0 cs ++ '"' :: rest ≠ '"' :: '"' :: more := by
      intro more he
      cases cs with
      | nil => exact hdouble (by rw [(List.cons.inj he).2]; rfl)
      | cons d cs =>
        rw [escapeFrom] at he
        split at he
        · cases he
        · next hd =>
          rw [List.append_assoc] at he
          exact head?_escapeChar hd (by rw [he]; rfl)
    simp only [List.append_assoc, List.cons_append, List.nil_append]
    rw [read_basic hopen, basicFrom_short]
  | literal =>
    obtain ⟨hcontrol, hnone, hnewline⟩ := form_literal hform
    have hplain : ∀ c ∈ cs, isPlain c = true := fun c hc =>
      isPlain_of_not_isControl (hcontrol c hc) fun he => hnewline (he ▸ hc)
    have hquote := not_mem_of_longestRun hnone
    have hopen : ∀ more, cs ++ '\'' :: rest ≠ '\'' :: '\'' :: more := by
      intro more he
      cases cs with
      | nil => exact hsingle (by rw [(List.cons.inj he).2]; rfl)
      | cons d cs => exact hquote ((List.cons.inj he).1 ▸ List.mem_cons_self)
    simp only [List.append_assoc, List.cons_append, List.nil_append]
    rw [read_literal hopen, literalFrom_short hplain hquote]
  | longBasic =>
    have hbegin : dropNewline ((if cs.contains '\n' then ['\n'] else []) ++
        (escapeFrom true 0 cs ++ '"' :: '"' :: '"' :: rest)) =
          escapeFrom true 0 cs ++ '"' :: '"' :: '"' :: rest :=
      dropNewline_begin head?_escapeFrom
    have hlong := basicFrom_long (n := 0) (by omega) hdouble cs
    simp only [long, List.append_assoc, List.cons_append, List.nil_append]
    rw [read, hbegin]
    exact hlong
  | longLiteral =>
    obtain ⟨hcontrol, hrun⟩ := form_longLiteral hform
    have hbegin : dropNewline ((if cs.contains '\n' then ['\n'] else []) ++
        (cs ++ '\'' :: '\'' :: '\'' :: rest)) = cs ++ '\'' :: '\'' :: '\'' :: rest := by
      refine dropNewline_begin fun hnewline => ?_
      cases cs with
      | nil => simp
      | cons d cs =>
        have hd : d ≠ '\n' := fun he => hnewline (he ▸ List.mem_cons_self)
        simpa using ⟨hd, ne_return_of_not_isControl (hcontrol d List.mem_cons_self)⟩
    have hlong := literalFrom_long hcontrol hrun hsingle
    simp only [long, List.append_assoc, List.cons_append, List.nil_append]
    rw [read, hbegin]
    exact hlong

-- the first of the four quotes at the end is the text's own
example : write "it's \"so\"".toList = "\"\"\"it's \"so\"\"\"\"".toList ∧
    read "\"\"\"it's \"so\"\"\"\"\n".toList = some ("it's \"so\"".toList, ['\n']) := by
  decide

end ControlPlane.Toml.Quoted
