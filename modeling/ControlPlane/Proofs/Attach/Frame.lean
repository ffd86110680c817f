import ControlPlane.Attach.Frame
import ControlPlane.Proofs.Incremental

/-! # The grammar of log frames

`parse` reads a whole byte string at once, frame by frame. The decoder reads the same frames and
ends in the same way however the bytes are cut into chunks: it decides on a frame as soon as all of
it is there, looks at nothing behind it, and tells a frame that is cut short only from the end.
-/
namespace ControlPlane.LogFrame

/-- The number that bytes write, the most significant first. -/
def ofBigEndian (bytes : Bytes) : Nat := bytes.foldl (fun n b => n * 256 + b.toNat) 0

/-- The length of the payload, as the last four bytes of a header write it. -/
def payloadSize (bytes : Bytes) : Nat := ofBigEndian ((bytes.drop 4).take 4)

/-- The frames that a byte string is made of, and what is wrong behind the last of
them, if anything is. -/
def parse (bytes : Bytes) : List LogFrame × Option FrameError :=
  if bytes.isEmpty then ([], none)
  else if bytes.length < headerSize then ([], some (.truncated headerSize bytes.length))
  else
    match StreamKind.ofTag? (bytes.headD 0) with
    | none => ([], some (.invalidStream (bytes.headD 0)))
    | some stream =>
      if maxPayload < payloadSize bytes then ([], some (.tooLarge (payloadSize bytes) maxPayload))
      else if bytes.length < headerSize + payloadSize bytes then
        ([], some (.truncated (headerSize + payloadSize bytes) bytes.length))
      else
        let (frames, failure) := parse (bytes.drop (headerSize + payloadSize bytes))
        (⟨stream, (bytes.drop headerSize).take (payloadSize bytes)⟩ :: frames, failure)
termination_by bytes.length
decreasing_by
  simp only [headerSize, List.length_drop] at *
  omega

/-- A step by the lengths alone. -/
theorem step_eq (atEnd : Bool) (bytes : Bytes) :
    step atEnd () bytes =
      if bytes.isEmpty then .wait
      else if bytes.length < headerSize then
        if atEnd then .fail (.truncated headerSize bytes.length) () bytes else .wait
      else
        match StreamKind.ofTag? (bytes.headD 0) with
        | none => .fail (.invalidStream (bytes.headD 0)) () bytes
        | some stream =>
          if maxPayload < payloadSize bytes
            then .fail (.tooLarge (payloadSize bytes) maxPayload) () bytes
          else if bytes.length < headerSize + payloadSize bytes then
            if atEnd then
              .fail (.truncated (headerSize + payloadSize bytes) bytes.length) () bytes else .wait
          else .item ⟨stream, (bytes.drop headerSize).take (payloadSize bytes)⟩ ()
            (bytes.drop (headerSize + payloadSize bytes)) := by
  rcases bytes with _ |
    ⟨tag, _ | ⟨r, _ | ⟨r', _ | ⟨r'', _ | ⟨a, _ | ⟨b, _ | ⟨c, _ | ⟨d, rest⟩⟩⟩⟩⟩⟩⟩⟩
  case cons.cons.cons.cons.cons.cons.cons.cons =>
    have hsize :
        payloadSize (tag :: r :: r' :: r'' :: a :: b :: c :: d :: rest) = bigEndian a b c d := by
      simp [payloadSize, ofBigEndian, bigEndian]
    have hlong : ¬ (tag :: r :: r' :: r'' :: a :: b :: c :: d :: rest).length < headerSize := by
      simp [headerSize]
    rw [hsize, if_neg hlong, step]
    simp only [List.isEmpty_cons, Bool.false_eq_true, if_false, List.headD_cons]
    generalize bigEndian a b c d = size
    have hshort : (tag :: r :: r' :: r'' :: a :: b :: c :: d :: rest).length < headerSize + size ↔
        ¬ (rest.take size).length = size := by
      simp only [List.length_cons, List.length_take, headerSize]
      omega
    have hdrop : (tag :: r :: r' :: r'' :: a :: b :: c :: d :: rest).drop (headerSize + size) =
        rest.drop size := by
      rw [headerSize, Nat.add_comm]
      rfl
    simp only [hshort, ite_not, hdrop]
    rfl
  all_goals simp [step, headerSize]

/-! ## What a step decides -/

section Decisions
variable {atEnd : Bool} {bytes rest : Bytes}

theorem step_item_iff {frame : LogFrame} :
    step atEnd () bytes = .item frame () rest ↔ headerSize ≤ bytes.length ∧
      StreamKind.ofTag? (bytes.headD 0) = some frame.stream ∧ payloadSize bytes ≤ maxPayload ∧
      headerSize + payloadSize bytes ≤ bytes.length ∧
      frame.payload = (bytes.drop headerSize).take (payloadSize bytes) ∧
      rest = bytes.drop (headerSize + payloadSize bytes) := by
  obtain ⟨stream, payload⟩ := frame
  have hempty : bytes.isEmpty = true → ¬ headerSize ≤ bytes.length := by
    intro h
    rw [List.isEmpty_iff.1 h]
    decide
  rw [step_eq]
  grind

/-- Before the end, only a header is ever wrong. -/
theorem step_fail_iff {e : FrameError} :
    step false () bytes = .fail e () rest ↔ headerSize ≤ bytes.length ∧ rest = bytes ∧
      match StreamKind.ofTag? (bytes.headD 0) with
      | none => e = .invalidStream (bytes.headD 0)
      | some _ => maxPayload < payloadSize bytes ∧
      e = .tooLarge (payloadSize bytes) maxPayload := by
  have hempty : bytes.isEmpty = true → ¬ headerSize ≤ bytes.length := by
    intro h
    rw [List.isEmpty_iff.1 h]
    decide
  rw [step_eq]
  grind

theorem step_ne_pass : step atEnd () bytes ≠ .pass () rest := by
  rw [step_eq]
  grind

theorem headD_append (h : headerSize ≤ bytes.length) (late : Bytes) :
    (bytes ++ late).headD 0 = bytes.headD 0 := by
  cases bytes with
  | nil => cases h
  | cons => rfl

theorem payloadSize_append (h : headerSize ≤ bytes.length) (late : Bytes) :
    payloadSize (bytes ++ late) = payloadSize bytes := by
  rw [headerSize] at h
  rw [payloadSize, payloadSize, List.drop_append_of_le_length (by omega),
    List.take_append_of_le_length]
  rw [List.length_drop]
  omega

end Decisions

theorem shrinking_decoder : decoder.Shrinking where
  item {_ _ buffer _ _ rest} h := by
    obtain ⟨hheader, -, -, -, -, rfl⟩ := step_item_iff.1 h
    rw [headerSize] at hheader ⊢
    rw [List.length_drop]
    omega
  pass h := absurd h step_ne_pass

theorem steady_decoder : decoder.Steady where
  item {_ buffer frame _ rest} h atEnd late := by
    obtain ⟨hheader, hstream, hsize, hwhole, hpayload, rfl⟩ := step_item_iff.1 h
    refine step_item_iff.2 ?_
    rw [headD_append hheader, payloadSize_append hheader, List.length_append,
      List.drop_append_of_le_length hheader, List.drop_append_of_le_length hwhole,
      List.take_append_of_le_length]
    · exact ⟨by omega, hstream, hsize, by omega, hpayload, rfl⟩
    · rw [List.length_drop]
      omega
  pass h := absurd h step_ne_pass
  fail {_ buffer e _ rest} h atEnd late := by
    obtain ⟨hheader, rfl, hwrong⟩ := step_fail_iff.1 h
    have hlong : ¬ (rest ++ late).length < headerSize := by
      rw [List.length_append]
      omega
    have hempty : (rest ++ late).isEmpty = false := by
      rw [Bool.eq_false_iff]
      intro h
      rw [List.isEmpty_iff.1 h] at hlong
      exact hlong (by decide)
    change step atEnd () (rest ++ late) = _
    rw [step_eq, if_neg (by simp [hempty]), if_neg hlong, headD_append hheader,
      payloadSize_append hheader]
    grind

/-! ## The decoder and the grammar -/

theorem reads_parse (bytes : Bytes) :
    ∃ q : Decoder.Progress Unit FrameError,
      decoder.Reads true () bytes (parse bytes).1 q ∧ q.failure = (parse bytes).2 := by
  fun_induction parse bytes with
  | case1 bytes hempty =>
    have hstep : step true () bytes = .wait := by rw [step_eq, if_pos hempty]
    exact ⟨_, .wait hstep, rfl⟩
  | case2 bytes hempty hshort =>
    have hstep : step true () bytes = .fail (.truncated headerSize bytes.length) () bytes := by
      rw [step_eq, if_neg hempty, if_pos hshort]
      rfl
    exact ⟨_, .fail hstep, rfl⟩
  | case3 bytes hempty hshort htag =>
    have hstep : step true () bytes = .fail (.invalidStream (bytes.headD 0)) () bytes := by
      rw [step_eq, if_neg hempty, if_neg hshort, htag]
    exact ⟨_, .fail hstep, rfl⟩
  | case4 bytes hempty hshort stream htag hlarge =>
    have hstep :
        step true () bytes = .fail (.tooLarge (payloadSize bytes) maxPayload) () bytes := by
      rw [step_eq, if_neg hempty, if_neg hshort, htag]
      exact if_pos hlarge
    exact ⟨_, .fail hstep, rfl⟩
  | case5 bytes hempty hshort stream htag hlarge hcut =>
    have hstep : step true () bytes =
        .fail (.truncated (headerSize + payloadSize bytes) bytes.length) () bytes := by
      rw [step_eq, if_neg hempty, if_neg hshort, htag]
      exact (if_neg hlarge).trans (if_pos hcut)
    exact ⟨_, .fail hstep, rfl⟩
  | case6 bytes hempty hshort stream htag hlarge hcut frames failure hrest ih =>
    have hstep :
        step true () bytes = .item ⟨stream, (bytes.drop headerSize).take (payloadSize bytes)⟩ ()
          (bytes.drop (headerSize + payloadSize bytes)) :=
      step_item_iff.2 ⟨by omega, htag, by omega, by omega, rfl, rfl⟩
    obtain ⟨q, hreads, hfail⟩ := ih
    rw [hrest] at hreads hfail
    exact ⟨q, .item hstep hreads, hfail⟩

/-- Draining a buffer, before the end or at it, comes to a point where the decoder waits or fails;
and however a byte string is cut into chunks, the frames that the decoder takes and the failure that
stops it, if any, are those of the whole string. -/
theorem run_eq_parse :
    (∀ atEnd buffer, ∃ frames p, decoder.drainAll atEnd () buffer = (frames, p) ∧
      decoder.Reads atEnd () buffer frames p) ∧
    ∀ chunks : List Bytes, decoder.run chunks = parse chunks.flatten := by
  constructor
  · exact fun atEnd buffer => ⟨_, _, rfl, Decoder.reads_drainAll shrinking_decoder atEnd () buffer⟩
  · intro chunks
    obtain ⟨q, hrun, hfail⟩ := Decoder.reads_run shrinking_decoder steady_decoder chunks
    obtain ⟨q', hparse, hfail'⟩ := reads_parse chunks.flatten
    obtain ⟨hitems, rfl⟩ := hrun.unique hparse
    exact Prod.ext hitems (hfail.symm.trans hfail')

-- A header in two chunks, and another that ends too early.
example : decoder.run [[1, 0, 0], [0, 0, 0, 0, 1, 104, 2], [], [0]] =
    ([⟨.stdout, [104]⟩], some (.truncated 8 2)) := by
  decide

end ControlPlane.LogFrame
