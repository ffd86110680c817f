import ControlPlane.Proofs.Text.Utf8

/-! # Texts in pieces

A text that is cut between its characters is read piece by piece as the same text. A cut that goes
through a character leaves an unfinished one, which reading with replacement shows as one U+FFFD,
and bytes that begin none, each of which it shows as another. So a character that no cut goes
through is kept, and one that is cut comes out as two U+FFFD or more.
-/
namespace ControlPlane.Utf8

/-! ## Reading on -/

/-- Where a reader stands after some bytes, and the units that they complete. -/
def scan (state : State) : Bytes → State × List (Option Char)
  | [] => (state, [])
  | b :: rest =>
    ((scan (step state b.toNat).1 rest).1,
      (step state b.toNat).2 ++ (scan (step state b.toNat).1 rest).2)

theorem unitsFrom_eq (state : State) (seen : List (Option Char)) (bytes : Bytes) :
    unitsFrom state seen bytes =
      seen.reverse ++ ((scan state bytes).2 ++ finish (scan state bytes).1) := by
  induction bytes generalizing state seen with
  | nil => rfl
  | cons b bytes ih =>
    rw [unitsFrom, ih]
    simp [scan]

theorem units_eq (bytes : Bytes) :
    units bytes = (scan .ready bytes).2 ++ finish (scan .ready bytes).1 :=
  unitsFrom_eq .ready [] bytes

theorem scan_append (state : State) (bytes more : Bytes) : scan state (bytes ++ more) =
    ((scan (scan state bytes).1 more).1,
      (scan state bytes).2 ++ (scan (scan state bytes).1 more).2) := by
  induction bytes generalizing state with
  | nil => rfl
  | cons b bytes ih => simp [scan, ih]

/-- A reader that comes to stand between characters has completed a unit on its way. -/
theorem scan_ne_nil {state : State} {bytes : Bytes} (hne : bytes ≠ [])
    (h : (scan state bytes).1 = .ready) :
    (scan state bytes).2 ≠ [] := by
  induction bytes generalizing state with
  | nil => exact absurd rfl hne
  | cons b bytes ih =>
    cases bytes with
    | nil =>
      have hstep (b : Nat) : (step state b).1 = .ready → (step state b).2 ≠ [] := by
        unfold step begin
        grind
      simpa [scan] using hstep b.toNat h
    | cons b' bytes => exact List.append_ne_nil_of_right_ne_nil _ (ih (List.cons_ne_nil b' bytes) h)

theorem scan_encodeChar (c : Char) :
    scan .ready (String.utf8EncodeChar c) = (.ready, [some c]) := by
  have hunits : units (String.utf8EncodeChar c) = [some c] := by
    simpa [units, unitsFrom, finish] using unitsFrom_encodeChar c [] []
  rw [units_eq] at hunits
  cases hstate : (scan .ready (String.utf8EncodeChar c)).1 with
  | ready =>
    rw [hstate] at hunits
    exact Prod.ext hstate (by simpa [finish] using hunits)
  | owing =>
    have hlast := congrArg List.getLast? hunits
    simp [hstate, finish] at hlast

theorem scan_chars (cs : List Char) :
    scan .ready (cs.flatMap String.utf8EncodeChar) = (.ready, cs.map some) := by
  induction cs with
  | nil => rfl
  | cons c cs ih => rw [List.flatMap_cons, scan_append, scan_encodeChar, ih]; rfl

/-! ## Characters that are cut -/

/-- A byte of a character that is not its first. -/
def IsContinuation (b : UInt8) : Prop := 0x80 ≤ b.toNat ∧ b.toNat ≤ 0xBF

theorem isContinuation_tail {c : Char} {b : UInt8} (h : b ∈ (String.utf8EncodeChar c).tail) :
    IsContinuation b := by
  have hbyte (n : Nat) : IsContinuation (UInt8.ofNat (n % 64 + 128)) := by
    rw [IsContinuation, UInt8.toNat_ofNat']
    omega
  unfold String.utf8EncodeChar at h
  dsimp only at h
  split at h
  · cases h
  split at h
  · obtain rfl := List.mem_singleton.1 h
    exact hbyte _
  split at h
  · simp only [List.tail_cons, List.mem_cons, List.not_mem_nil, or_false] at h
    rcases h with rfl | rfl <;> exact hbyte _
  · simp only [List.tail_cons, List.mem_cons, List.not_mem_nil, or_false] at h
    rcases h with rfl | rfl | rfl <;> exact hbyte _

/-- No character begins with a byte that continues one. -/
theorem scan_continuations {bytes : Bytes} (h : ∀ b ∈ bytes, IsContinuation b) :
    scan .ready bytes = (.ready, List.replicate bytes.length none) := by
  induction bytes with
  | nil => rfl
  | cons b bytes ih =>
    obtain ⟨⟨hlow, hhigh⟩, hmore⟩ := List.forall_mem_cons.1 h
    have hstep : step .ready b.toNat = (.ready, [none]) := by
      rw [step, begin, if_neg (by omega), if_pos (by omega)]
    rw [scan, hstep, ih hmore]
    rfl

section Cut
variable {c : Char} {front back : Bytes}

theorem scan_front (h : front ++ back = String.utf8EncodeChar c) (hfront : front ≠ [])
    (hback : back ≠ []) :
    (scan .ready front).1 ≠ .ready ∧ (scan .ready front).2 = [] := by
  have hwhole := scan_encodeChar c
  rw [← h, scan_append, Prod.mk.injEq] at hwhole
  obtain ⟨hready, hunits⟩ := hwhole
  have hsome := scan_ne_nil hback hready
  have hnone : (scan .ready front).2 = [] := by
    have hlength := congrArg List.length hunits
    rw [List.length_append, List.length_singleton] at hlength
    have hpos := List.length_pos_iff.2 hsome
    exact List.eq_nil_of_length_eq_zero (by omega)
  exact ⟨fun hfirst => scan_ne_nil hfront hfirst hnone, hnone⟩

theorem isContinuation_back (h : front ++ back = String.utf8EncodeChar c) (hfront : front ≠ []) :
    ∀ b ∈ back, IsContinuation b := by
  intro b hb
  obtain ⟨first, front, rfl⟩ := List.exists_cons_of_ne_nil hfront
  refine isContinuation_tail (c := c) ?_
  rw [← h]
  exact List.mem_append_right front hb

end Cut

/-- Where the bytes of some characters are cut in two, the cut is between two
characters or goes through one. -/
theorem cut_cases {cs : List Char} {front back : Bytes}
    (h : front ++ back = cs.flatMap String.utf8EncodeChar) :
    (∃ before behind, cs = before ++ behind ∧ front = before.flatMap String.utf8EncodeChar ∧
      back = behind.flatMap String.utf8EncodeChar) ∨
    ∃ before c behind left right, cs = before ++ c :: behind ∧ left ≠ [] ∧ right ≠ [] ∧
      left ++ right = String.utf8EncodeChar c ∧
      front = before.flatMap String.utf8EncodeChar ++ left ∧
      back = right ++ behind.flatMap String.utf8EncodeChar := by
  induction cs generalizing front with
  | nil =>
    obtain ⟨rfl, rfl⟩ := List.append_eq_nil_iff.1 h
    exact .inl ⟨[], [], rfl, rfl, rfl⟩
  | cons c cs ih =>
    rw [List.flatMap_cons, List.append_eq_append_iff] at h
    obtain ⟨right, hc, rfl⟩ | ⟨more, rfl, hmore⟩ := h
    · by_cases hfront : front = []
      · subst hfront
        exact .inl ⟨[], c :: cs, rfl, rfl, by simp [hc]⟩
      by_cases hright : right = []
      · subst hright
        exact .inl ⟨[c], cs, rfl, by simp [hc], by simp⟩
      · exact .inr ⟨[], c, cs, front, right, rfl, hfront, hright, hc.symm, rfl, rfl⟩
    · obtain ⟨before, behind, rfl, rfl, rfl⟩ |
        ⟨before, d, behind, left, right, rfl, hleft, hright, hd, rfl, rfl⟩ :=
        ih hmore.symm
      · exact .inl ⟨c :: before, behind, rfl, rfl, rfl⟩
      · exact .inr ⟨c :: before, d, behind, left, right, rfl, hleft, hright, hd, by simp, rfl⟩

/-! ## Pieces that are read one by one -/

/-- Where pieces end, counted in bytes. -/
def ends (start : Nat) : List Bytes → List Nat
  | [] => []
  | piece :: pieces => (start + piece.length) :: ends (start + piece.length) pieces

/-- The first cut between two places. -/
def cutBetween (cuts : List Nat) (start stop : Nat) : Option Nat :=
  cuts.find? fun cut => start < cut ∧ cut < stop

/-- Characters as they show where their bytes, the first of which stands at `start`, are cut at
some places: one that a cut goes through is one U+FFFD for its bytes up to the first cut, and one
for each byte behind it. -/
def blurred (cuts : List Nat) (start : Nat) : List Char → List Char
  | [] => []
  | c :: cs =>
    (match cutBetween cuts start (start + c.utf8Size) with
      | some cut => List.replicate (1 + (start + c.utf8Size - cut)) '\uFFFD'
      | none => [c]) ++ blurred cuts (start + c.utf8Size) cs

theorem le_of_mem_ends (start : Nat) (pieces : List Bytes) :
    ∀ cut ∈ start :: ends start pieces, start ≤ cut := by
  induction pieces generalizing start with
  | nil => simp [ends]
  | cons piece pieces ih =>
    refine List.forall_mem_cons.2 ⟨Nat.le_refl _, fun cut hcut => ?_⟩
    have hle := ih (start + piece.length) cut hcut
    omega

section Cuts
variable {cuts : List Nat} {start stop cut : Nat} {cs : List Char}

theorem cutBetween_of_le (h : cut ≤ start) :
    cutBetween (cut :: cuts) start stop = cutBetween cuts start stop := by
  rw [cutBetween, List.find?_cons_of_neg]
  · rfl
  · rw [decide_eq_true_eq]
    omega

theorem cutBetween_of_lt (h : start < cut) (h' : cut < stop) :
    cutBetween (cut :: cuts) start stop = some cut := by
  rw [cutBetween, List.find?_cons_of_pos]
  rw [decide_eq_true_eq]
  exact ⟨h, h'⟩

theorem cutBetween_eq_none (h : ∀ cut ∈ cuts, stop ≤ cut) : cutBetween cuts start stop = none := by
  rw [cutBetween, List.find?_eq_none]
  intro cut hcut
  have hle := h cut hcut
  rw [decide_eq_true_eq]
  omega

/-- A cut in front of the characters goes through none of them. -/
theorem blurred_of_le (h : cut ≤ start) :
    blurred (cut :: cuts) start cs = blurred cuts start cs := by
  induction cs generalizing start with
  | nil => rfl
  | cons c cs ih => rw [blurred, blurred, cutBetween_of_le h, ih (by omega)]

/-- Characters in front of all cuts show as they are. -/
theorem blurred_append {before : List Char} (behind : List Char)
    (h : ∀ cut ∈ cuts, start + (before.flatMap String.utf8EncodeChar).length ≤ cut) :
    blurred cuts start (before ++ behind) =
      before ++ blurred cuts (start + (before.flatMap String.utf8EncodeChar).length) behind := by
  induction before generalizing start with
  | nil => rfl
  | cons c before ih =>
    rw [List.flatMap_cons, List.length_append, String.length_utf8EncodeChar, ← Nat.add_assoc] at h ⊢
    have hnone : cutBetween cuts start (start + c.utf8Size) = none :=
      cutBetween_eq_none fun cut hcut => Nat.le_trans (Nat.le_add_right _ _) (h cut hcut)
    rw [List.cons_append, blurred, hnone, ih h]
    rfl

/-- A cut goes through the first character. -/
theorem blurred_cut {c : Char} {front back : Bytes} (h : front ++ back = String.utf8EncodeChar c)
    (hfront : front ≠ []) (hback : back ≠ []) :
    blurred ((start + front.length) :: cuts) start (c :: cs) =
      '\uFFFD' :: List.replicate back.length '\uFFFD' ++
        blurred cuts (start + front.length + back.length) cs := by
  have hwidth : front.length + back.length = c.utf8Size := by
    rw [← String.length_utf8EncodeChar, ← h, List.length_append]
  have hpos := List.length_pos_iff.2 hfront
  have hpos' := List.length_pos_iff.2 hback
  have hcount : 1 + (start + c.utf8Size - (start + front.length)) = back.length + 1 := by omega
  have hstop : start + c.utf8Size = start + front.length + back.length := by omega
  rw [blurred, cutBetween_of_lt (by omega) (by omega), blurred_of_le (by omega)]
  dsimp only
  rw [hcount, hstop, List.replicate_succ]

theorem length_le_blurred (cuts : List Nat) (start : Nat) (cs : List Char) :
    cs.length ≤ (blurred cuts start cs).length := by
  induction cs generalizing start with
  | nil => exact Nat.le_refl _
  | cons c cs ih =>
    have hmore := ih (start + c.utf8Size)
    rw [blurred, List.length_append, List.length_cons]
    split
    · rw [List.length_replicate]
      omega
    · rw [List.length_singleton]
      omega

end Cuts

theorem toList_decodeLossy (bytes : Bytes) : (decodeLossy bytes).toList =
    ((scan .ready bytes).2 ++ finish (scan .ready bytes).1).map (·.getD '\uFFFD') := by
  rw [decodeLossy, String.toList_ofList, units_eq]

@[simp] theorem toList_decodeLossy_nil : (decodeLossy []).toList = [] := rfl

theorem decodeLossy_continuations {bytes : Bytes} (h : ∀ b ∈ bytes, IsContinuation b)
    (more : Bytes) :
    (decodeLossy (bytes ++ more)).toList =
      List.replicate bytes.length '\uFFFD' ++ (decodeLossy more).toList := by
  rw [toList_decodeLossy, scan_append, scan_continuations h, toList_decodeLossy]
  simp

theorem decodeLossy_chars (cs : List Char) (more : Bytes) :
    (decodeLossy (cs.flatMap String.utf8EncodeChar ++ more)).toList =
      cs ++ (decodeLossy more).toList := by
  have hkept : (cs.map some).map (fun u : Option Char => u.getD '\uFFFD') = cs := by
    rw [List.map_map]
    exact List.map_id cs
  rw [toList_decodeLossy, scan_append, scan_chars, toList_decodeLossy, List.append_assoc,
    List.map_append, hkept]

/-- What is owed to a character that was cut is read byte by byte, and the characters behind it
are read as they are. -/
theorem decodeLossy_whole {owed : Bytes} (h : ∀ b ∈ owed, IsContinuation b) (cs : List Char) :
    (decodeLossy (owed ++ cs.flatMap String.utf8EncodeChar)).toList =
      List.replicate owed.length '\uFFFD' ++ cs := by
  have hchars := decodeLossy_chars cs []
  rw [List.append_nil, toList_decodeLossy_nil, List.append_nil] at hchars
  rw [decodeLossy_continuations h, hchars]

/-- A character that is not finished is one more U+FFFD. -/
theorem decodeLossy_torn {owed : Bytes} (h : ∀ b ∈ owed, IsContinuation b) (cs : List Char)
    {c : Char} {front back : Bytes} (hc : front ++ back = String.utf8EncodeChar c)
    (hfront : front ≠ []) (hback : back ≠ []) :
    (decodeLossy (owed ++ (cs.flatMap String.utf8EncodeChar ++ front))).toList =
      List.replicate owed.length '\uFFFD' ++ (cs ++ ['\uFFFD']) := by
  have hlast : (decodeLossy front).toList = ['\uFFFD'] := by
    obtain ⟨hstate, hunits⟩ := scan_front hc hfront hback
    rw [toList_decodeLossy, hunits]
    cases hlast : (scan .ready front).1 with
    | ready => exact absurd hlast hstate
    | owing => rfl
  rw [decodeLossy_continuations h, decodeLossy_chars, hlast]

/-- Pieces behind a cut: `owed` are the bytes of the character that it went through. -/
theorem flatMap_decodeLossy {pieces : List Bytes} {owed : Bytes} {cs : List Char} (start : Nat)
    (howed : ∀ b ∈ owed, IsContinuation b)
    (h : pieces.flatten = owed ++ cs.flatMap String.utf8EncodeChar) :
    pieces.flatMap (fun piece => (decodeLossy piece).toList) =
      List.replicate owed.length '\uFFFD' ++
        blurred (ends start pieces) (start + owed.length) cs := by
  induction pieces generalizing owed cs start with
  | nil =>
    obtain ⟨rfl, hcs⟩ := List.append_eq_nil_iff.1 h.symm
    cases cs with
    | nil => rfl
    | cons c cs => exact absurd (List.append_eq_nil_iff.1 hcs).1 String.utf8EncodeChar_ne_nil
  | cons piece pieces ih =>
    rw [List.flatten_cons, List.append_eq_append_iff] at h
    rw [List.flatMap_cons, ends]
    obtain ⟨owed', rfl, hmore⟩ | ⟨rest, rfl, hmore⟩ := h
    -- The piece ends in the character that was cut.
    · obtain ⟨hpiece, howed'⟩ := List.forall_mem_append.1 howed
      have hlossy := decodeLossy_whole hpiece []
      rw [List.flatMap_nil, List.append_nil, List.append_nil] at hlossy
      rw [hlossy, ih (start + piece.length) howed' hmore, List.length_append,
        ← List.replicate_append_replicate, ← Nat.add_assoc, blurred_of_le (Nat.le_add_right _ _),
        List.append_assoc]
    obtain ⟨before, behind, rfl, rfl, hbehind⟩ |
      ⟨before, c, behind, left, right, rfl, hleft, hright, hc, rfl, hbehind⟩ :=
      cut_cases hmore.symm
    -- It ends between two characters.
    · have hnone : ∀ b ∈ ([] : Bytes), IsContinuation b := fun _ hb => absurd hb List.not_mem_nil
      have hstop : start + (owed ++ before.flatMap String.utf8EncodeChar).length =
          start + owed.length + (before.flatMap String.utf8EncodeChar).length := by
        rw [List.length_append, Nat.add_assoc]
      rw [hstop, decodeLossy_whole howed, blurred_append behind (le_of_mem_ends _ pieces),
        blurred_of_le (Nat.le_refl _), ih _ hnone hbehind, List.append_assoc]
      rfl
    -- What is left of the character is owed to the pieces behind this one.
    · have hstop : start + (owed ++ (before.flatMap String.utf8EncodeChar ++ left)).length =
          start + owed.length + (before.flatMap String.utf8EncodeChar).length + left.length := by
        simp only [List.length_append, Nat.add_assoc]
      have hlate :=
        le_of_mem_ends (start + owed.length + (before.flatMap String.utf8EncodeChar).length +
          left.length) pieces
      have hshown := ih
        (start + owed.length + (before.flatMap String.utf8EncodeChar).length + left.length)
          (isContinuation_back hc hleft) hbehind
      rw [hstop, decodeLossy_torn howed before hc hleft hright, hshown,
        blurred_append _ fun cut hcut =>
          Nat.le_trans (Nat.le_add_right _ _) (hlate cut hcut), blurred_cut hc hleft hright]
      simp only [List.append_assoc, List.cons_append, List.nil_append]

/-- Pieces that show no more characters than there are cut none. -/
theorem exists_encode_of_length {pieces : List Bytes} {cs : List Char}
    (h : pieces.flatten = cs.flatMap String.utf8EncodeChar)
    (hlength : (pieces.flatMap fun piece => (decodeLossy piece).toList).length ≤ cs.length) :
    ∀ piece ∈ pieces, ∃ s, piece = encode s := by
  have hnone : ∀ b ∈ ([] : Bytes), IsContinuation b := fun _ hb => absurd hb List.not_mem_nil
  induction pieces generalizing cs with
  | nil => exact fun _ hmem => absurd hmem List.not_mem_nil
  | cons piece pieces ih =>
    rw [List.flatten_cons] at h
    rw [List.flatMap_cons, List.length_append] at hlength
    obtain ⟨before, behind, rfl, rfl, hbehind⟩ |
      ⟨before, c, behind, left, right, rfl, hleft, hright, hc, rfl, hbehind⟩ :=
      cut_cases h
    · have hshown := congrArg List.length (decodeLossy_whole hnone before)
      simp only [List.nil_append, List.length_append, List.length_nil, List.length_replicate]
        at hshown hlength
      exact List.forall_mem_cons.2 ⟨⟨String.ofList before, (encode_ofList before).symm⟩,
        ih hbehind (by omega)⟩
    · have hshown := congrArg List.length (decodeLossy_torn hnone before hc hleft hright)
      have hmore :=
        congrArg List.length (flatMap_decodeLossy 0 (isContinuation_back hc hleft) hbehind)
      have hle := length_le_blurred (ends 0 pieces) (0 + right.length) behind
      have hpos := List.length_pos_iff.2 hright
      simp only [List.nil_append, List.length_append, List.length_cons, List.length_nil,
        List.length_replicate] at hshown hmore hlength
      omega

theorem encode_join {pieces : List Bytes} (h : ∀ piece ∈ pieces, ∃ s, piece = encode s) :
    encode (String.join (pieces.map decodeLossy)) = pieces.flatten := by
  rw [encode, String.toList_join]
  induction pieces with
  | nil => rfl
  | cons piece pieces ih =>
    obtain ⟨⟨s, rfl⟩, hmore⟩ := List.forall_mem_cons.1 h
    rw [List.map_cons, List.flatMap_cons, List.flatMap_append, ih hmore, decodeLossy_encode]
    rfl

/-- What pieces of a text are read as, one by one, is that text with each character that a piece
ends in blurred, and it is the text itself if and only if every piece is a text. -/
theorem toList_join_decodeLossy {pieces : List Bytes} {text : String}
    (h : pieces.flatten = encode text) :
    (String.join (pieces.map decodeLossy)).toList = blurred (ends 0 pieces) 0 text.toList ∧
      (String.join (pieces.map decodeLossy) = text ↔ ∀ piece ∈ pieces, ∃ s, piece = encode s) := by
  have hnone : ∀ b ∈ ([] : Bytes), IsContinuation b := fun _ hb => absurd hb List.not_mem_nil
  have hjoin : (String.join (pieces.map decodeLossy)).toList = pieces.flatMap fun piece =>
      (decodeLossy piece).toList := by
    rw [String.toList_join, List.flatMap_map]
  refine ⟨hjoin.trans (flatMap_decodeLossy 0 hnone h), fun heq => exists_encode_of_length h ?_,
    fun hall => ?_⟩
  · exact Nat.le_of_eq (by rw [← hjoin, heq])
  · exact encode_inj.1 ((encode_join hall).trans h)

end ControlPlane.Utf8
