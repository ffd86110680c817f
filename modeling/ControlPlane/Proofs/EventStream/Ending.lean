import ControlPlane.Proofs.EventStream.Grammar

/-! # What the end of an event stream completes

At the end of the bytes what no line feed has ended is a line too, so it may be the blank line
of an event. It is one only where it is made of carriage returns, and of two of them at least,
for a lone one is left alone. All else that stands behind the last line feed is dropped with the
event that it belongs to.
-/
namespace ControlPlane.EventStream

/-- The longest front of a text that ends in a line feed, or nothing where there is none. -/
def complete (text : String) : String := String.ofList (text.toList.rdropWhile (· != '\n'))

/-- What stands behind the last line feed. -/
def remainder (text : String) : List Char := text.toList.rtakeWhile (· != '\n')

/-- Two carriage returns or more, and nothing else. -/
def IsReturns (cs : List Char) : Prop := 2 ≤ cs.length ∧ ∀ c ∈ cs, c = '\r'

instance (cs : List Char) : Decidable (IsReturns cs) :=
  decidable_of_iff (2 ≤ cs.length ∧ cs.all (· == '\r') = true) (by simp [IsReturns])

/-! ## Fronts and remainders -/

theorem newline_not_mem_remainder (text : String) : '\n' ∉ remainder text := by
  intro hmem
  simpa using List.mem_rtakeWhile_imp hmem

/-- A text and its complete front have the same lines, and behind them what no line feed has
ended. -/
theorem exists_parts (text : String) :
    ∃ parts, Text.splitOn '\n' (complete text).toList = parts ++ [[]] ∧
    Text.splitOn '\n' text.toList = parts ++ [remainder text] := by
  have htext : (complete text).toList ++ remainder text = text.toList := by
    rw [complete, String.toList_ofList]
    exact List.rdropWhile_append_rtakeWhile
  have hlast := Text.splitOn_of_not_mem (newline_not_mem_remainder text)
  by_cases hnil : (complete text).toList = []
  · rw [hnil, List.nil_append] at htext
    exact ⟨[], by rw [hnil]; rfl, by rw [← htext, hlast]; rfl⟩
  · have hfeed : (complete text).toList.getLast hnil = '\n' := by
      have hend :=
        List.rdropWhile_last_not (p := (· != '\n')) (l := text.toList)
          (by simpa [complete] using hnil)
      simpa [complete] using hend
    obtain ⟨front, hfront⟩ : ∃ front, (complete text).toList = front ++ ['\n'] :=
      ⟨_, hfeed ▸ (List.dropLast_append_getLast hnil).symm⟩
    refine ⟨Text.splitOn '\n' front, ?_, ?_⟩
    · rw [hfront, Text.splitOn_append]
      rfl
    · rw [← htext, hfront, List.append_assoc, List.singleton_append, Text.splitOn_append, hlast]

theorem linesOf_complete (text : String) : linesOf (complete text) = linesOf text := by
  obtain ⟨parts, hcomplete, htext⟩ := exists_parts text
  rw [linesOf, linesOf, hcomplete, htext, List.dropLast_concat, List.dropLast_concat]

theorem run_complete (text : String) :
    decoder.run [Utf8.encode (complete text)] = (eventsOf text, none) := by
  obtain ⟨parts, hcomplete, -⟩ := exists_parts text
  have hrun : decoder.run [Utf8.encode (complete text)] = (eventsOf (complete text), none) :=
    run_of_complete (by rw [hcomplete, List.getLast?_concat])
  rwa [eventsOf, linesOf_complete] at hrun

/-! ## At the end -/

theorem isReturns_iff {cs : List Char} :
    IsReturns cs ↔ cs ≠ [] ∧ cs ≠ ['\r'] ∧ dropReturns cs = [] := by
  have hall : dropReturns cs = [] ↔ ∀ c ∈ cs, c = '\r' :=
    (List.rdropWhile_eq_nil_iff (p := (· == '\r'))).trans (by simp)
  rw [hall, IsReturns]
  rcases cs with _ | ⟨c, _ | ⟨d, cs⟩⟩ <;> simp

theorem take?_at_end {buffer : Bytes} (h : 0x0A ∉ buffer) :
    Lines.take? true buffer = if buffer = [] ∨
    buffer = [0x0D] then none else some (buffer, []) := by
  have hdrop : buffer.dropWhile (· != 0x0A) = [] := by
    rw [List.dropWhile_eq_nil_iff]
    intro b hb
    simpa using fun he : b = 0x0A => h (he ▸ hb)
  rw [Lines.take?, hdrop]
  simp

theorem eventOf?_eq_none_iff {block : List (List Char)} :
    eventOf? block = none ↔ valuesOf "data" block = [] := by
  rw [eventOf?, Option.map_eq_none_iff]
  cases valuesOf "data" block <;> simp [joined]

/-- At the end the remainder is taken as a line, unless it is nothing or a lone carriage return; and
then an event comes of it exactly if it is a blank line. -/
theorem reads_remainder {cs : List Char} (h : '\n' ∉ cs) (block : List (List Char)) :
    ∃ q : Decoder.Progress Pending LineError, q.failure = none ∧
      decoder.Reads true (pendingOf block) (Utf8.encode (String.ofList cs))
        (if IsReturns cs then (eventOf? block).toList else []) q := by
  have htake : Lines.take? true (Utf8.encode (String.ofList cs)) =
      if Utf8.encode (String.ofList cs) = Utf8.encode (String.ofList []) ∨
        Utf8.encode (String.ofList cs) = Utf8.encode (String.ofList ['\r']) then none
      else some (Utf8.encode (String.ofList cs), []) :=
    take?_at_end (Utf8.newline_not_mem_encode (by rwa [String.toList_ofList]))
  simp only [Utf8.encode_inj, String.ofList_inj] at htake
  by_cases hshort : cs = [] ∨ cs = ['\r']
  · have hnot : ¬ IsReturns cs := by
      rw [isReturns_iff]
      tauto
    rw [if_neg hnot]
    refine ⟨_, rfl, .wait ?_⟩
    rcases hshort with rfl | rfl <;> rfl
  · rw [if_neg hshort] at htake
    have hstrip : dropReturns (String.ofList cs).toList = dropReturns cs := by
      rw [String.toList_ofList]
    cases hline : dropReturns cs with
    | nil =>
      have hreturns : IsReturns cs :=
        isReturns_iff.2 ⟨fun h => hshort (.inl h), fun h => hshort (.inr h), hline⟩
      have hread : decoder.Reads true (pendingOf block) _ ((eventOf? block).toList ++ []) _ :=
        reads_of_take htake (by rw [hstrip, hline, line_blank]) (.wait rfl)
      rw [if_pos hreturns]
      exact ⟨_, rfl, by rwa [List.append_nil] at hread⟩
    | cons c line =>
      have hnot : ¬ IsReturns cs := by
        rw [isReturns_iff, hline]
        simp
      rw [if_neg hnot]
      exact ⟨_, rfl, reads_of_take (e := none) htake
        (by rw [hstrip, hline, line_pendingOf block (List.cons_ne_nil c line)]) (.wait rfl)⟩

/-- What is read of a text to its end is what is read of its longest front that ends in a line feed,
except where two carriage returns or more, and nothing else, stand behind that front: these are a
blank line, which ends the event of the lines before it if they hold data. -/
theorem run_of_remainder {text : String} {chunks : List Bytes}
    (h : chunks.flatten = Utf8.encode text) :
    decoder.run chunks = ((decoder.run [Utf8.encode (complete text)]).1 ++
      (if IsReturns (remainder text) then (eventOf? (openBlock (linesOf text))).toList else []),
        none) ∧
    (decoder.run chunks = decoder.run [Utf8.encode (complete text)] ↔
      ¬ (IsReturns (remainder text) ∧ valuesOf "data" (openBlock (linesOf text)) ≠ [])) := by
  obtain ⟨parts, -, htext⟩ := exists_parts text
  obtain ⟨q, hq, hlast⟩ :=
    reads_remainder (newline_not_mem_remainder text) (openBlock (linesOf text))
  have hread := reads_text (by rw [htext, List.getLast?_concat]) hlast
  rw [← h] at hread
  have hrun := Decoder.run_eq_of_reads shrinking_decoder steady_decoder hread
  rw [run_complete, hrun, hq]
  refine ⟨rfl, ?_⟩
  rw [ne_eq, ← eventOf?_eq_none_iff]
  by_cases hreturns : IsReturns (remainder text)
  · cases eventOf? (openBlock (linesOf text)) <;> simp [hreturns]
  · simp [hreturns]

/-- A value that a lone carriage return ends and no line feed, cut inside its field. -/
theorem run_of_remainder_of_value :
    [Utf8.encode "data: x\n\nda", Utf8.encode "ta: y\r"].flatten =
      Utf8.encode "data: x\n\ndata: y\r" ∧
      decoder.run [Utf8.encode "data: x\n\nda", Utf8.encode "ta: y\r"] =
        decoder.run [Utf8.encode (complete "data: x\n\ndata: y\r")] := by
  have hcut : [Utf8.encode "data: x\n\nda", Utf8.encode "ta: y\r"].flatten =
      Utf8.encode "data: x\n\ndata: y\r" := by
    decide
  exact ⟨hcut, (run_of_remainder hcut).2.2 (by decide)⟩

/-- Two carriage returns that no line feed ends complete the event of the line before them. -/
theorem returns_complete_event :
    complete "data: x\n\r\r" = "data: x\n" ∧ decoder.run [Utf8.encode "data: x\n"] = ([], none) ∧
      decoder.run [Utf8.encode "data: x\n\r\r"] = ([⟨"message", "x"⟩], none) := by
  decide

end ControlPlane.EventStream
