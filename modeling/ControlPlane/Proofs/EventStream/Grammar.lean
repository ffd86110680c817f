import ControlPlane.Proofs.EventStream
import ControlPlane.Proofs.Text.Split
import Mathlib.Data.List.DropRight

/-! # The grammar of event streams

`eventsOf` reads a whole text at once: its lines, the blocks of lines that a blank line ends, and an
event for each block with data. The decoder gives the same events however the bytes of the text are
cut. What it holds between two lines is what the lines since the last blank one say, and the line
that no line feed has ended yet waits in its buffer.
-/
namespace ControlPlane.EventStream

/-! ## Texts at once -/

/-- The lines that a line feed ends, without the carriage returns at their ends. -/
def linesOf (text : String) : List (List Char) :=
  (Text.splitOn '\n' text.toList).dropLast.map (List.rdropWhile (· == '\r'))

/-- A line's field is what stands before its first colon, and the value what stands behind it, less
one blank. Without a colon there is no value. -/
def fieldOf (line : List Char) : String × String :=
  let (name, behind) := Text.cut ':' line
  (String.ofList name, match behind with
    | some (' ' :: value) => String.ofList value
    | some value => String.ofList value
    | none => "")

/-- The values of a field in a block, in their order. Lines that begin with a colon are comments. -/
def valuesOf (name : String) (block : List (List Char)) : List String :=
  (((block.filter (·.head? != some ':')).map fieldOf).filter (·.1 == name)).map (·.2)

def joined : List String → Option String
  | [] => none
  | values => some ("\n".intercalate values)

/-- A block without data is no event; the last name counts. -/
def eventOf? (block : List (List Char)) : Option Event :=
  (joined (valuesOf "data" block)).map fun data =>
    ⟨(valuesOf "event" block).getLastD "message", data⟩

/-- The blocks that a blank line ends. -/
def blocksOf (lines : List (List Char)) : List (List (List Char)) :=
  (lines.splitOnP List.isEmpty).dropLast

/-- The lines behind the last blank one. -/
def openBlock (lines : List (List Char)) : List (List Char) :=
  (lines.splitOnP List.isEmpty).getLastD []

def eventsOf (text : String) : List Event := (blocksOf (linesOf text)).filterMap eventOf?

/-! ## Line by line -/

/-- What the lines of an open block say. -/
def pendingOf (block : List (List Char)) : Pending where
  name := (valuesOf "event" block).getLast?
  data := joined (valuesOf "data" block)

section Line
variable {block : List (List Char)} {line : List Char}

theorem joined_concat (values : List String) (value : String) :
    joined (values ++ [value]) = some (match joined values with
      | some data => data ++ "\n" ++ value
      | none => value) := by
  cases values with
  | nil => simp [joined]
  | cons first values =>
    have hjoin := String.intercalate_append_of_ne_nil (s := "\n") (List.cons_ne_nil first values)
      (List.cons_ne_nil value [])
    rw [String.intercalate_singleton] at hjoin
    simpa only [joined, List.cons_append] using congrArg some hjoin

theorem valuesOf_comment (name : String) (block : List (List Char)) (rest : List Char) :
    valuesOf name (block ++ [':' :: rest]) = valuesOf name block := by
  simp [valuesOf]

theorem valuesOf_field (name : String) (block : List (List Char)) (h : line.head? ≠ some ':') :
    valuesOf name (block ++ [line]) =
      valuesOf name block ++ if (fieldOf line).1 = name then [(fieldOf line).2] else [] := by
  have hfield : (line.head? != some ':') = true := bne_iff_ne.2 h
  by_cases hname : (fieldOf line).1 = name <;> simp [valuesOf, hfield, hname]

/-- The decoder takes a line apart in the same way. -/
theorem fieldOf_eq (line : List Char) :
    fieldOf line = (String.ofList (field line).1, String.ofList (field line).2) := by
  cases hdrop : line.dropWhile (· != ':') with
  | nil =>
    have hline : line.takeWhile (· != ':') = line := by
      simpa [hdrop] using List.takeWhile_append_dropWhile (p := (· != ':')) (l := line)
    simp [fieldOf, field, Text.cut, hdrop, hline]
  | cons colon behind =>
    rcases behind with _ | ⟨c, value⟩
    · simp [fieldOf, field, Text.cut, hdrop]
    · by_cases hc : c = ' '
      · subst hc
        simp [fieldOf, field, Text.cut, hdrop]
      · simp [fieldOf, field, Text.cut, hdrop, hc]

theorem set_eq (p : Pending) (line : List Char) : p.set (field line).1 (field line).2 =
    if (fieldOf line).1 = "event" then { p with name := some (fieldOf line).2 }
    else if (fieldOf line).1 = "data" then
      { p with data := some (match p.data with
        | some data => data ++ "\n" ++ (fieldOf line).2
        | none => (fieldOf line).2) }
    else p := by
  have hname (name : String) : (field line).1 = name.toList ↔ (fieldOf line).1 = name := by
    rw [fieldOf_eq, ← String.toList_inj, String.toList_ofList]
  have hvalue : String.ofList (field line).2 = (fieldOf line).2 := by rw [fieldOf_eq]
  rw [Pending.set, hvalue]
  by_cases hevent : (fieldOf line).1 = "event"
  · rw [if_pos hevent, if_pos ((hname "event").2 hevent)]
  · rw [if_neg hevent, if_neg (mt (hname "event").1 hevent)]
    by_cases hdata : (fieldOf line).1 = "data"
    · exact (if_pos ((hname "data").2 hdata)).trans (if_pos hdata).symm
    · rw [if_neg hdata, if_neg (mt (hname "data").1 hdata)]

/-- A line that is not blank joins the block. -/
theorem line_pendingOf (block : List (List Char)) (h : line ≠ []) :
    (pendingOf block).line line = (none, pendingOf (block ++ [line])) := by
  obtain ⟨c, rest, rfl⟩ := List.exists_cons_of_ne_nil h
  by_cases hc : c = ':'
  · subst hc
    simp [Pending.line, pendingOf, valuesOf_comment]
  · have hhead : (c :: rest).head? ≠ some ':' := by simpa using hc
    have hline : (pendingOf block).line (c :: rest) =
        (none, (pendingOf block).set (field (c :: rest)).1 (field (c :: rest)).2) := by
      rw [Pending.line]
      · simp
      · exact fun _ he => hc (List.cons.inj he).1
    rw [hline, set_eq]
    generalize c :: rest = line at hhead
    simp only [pendingOf, valuesOf_field _ block hhead]
    by_cases hevent : (fieldOf line).1 = "event"
    · simp [hevent]
    by_cases hdata : (fieldOf line).1 = "data"
    · simp [hdata, joined_concat]
    · simp [hevent, hdata]

/-- A blank line makes the block an event, if it has data, and begins another. -/
theorem line_blank (block : List (List Char)) :
    (pendingOf block).line [] = (eventOf? block, pendingOf []) := by
  simp only [Pending.line, pendingOf, eventOf?, List.getLastD_eq_getLast?]
  rfl

end Line

/-! ## All lines -/

section Lines
variable {block lines : List (List Char)} {atEnd : Bool} {rest : Bytes} {items : List Event}
  {q : Decoder.Progress Pending LineError}

private theorem isEmpty_eq_false (hblock : [] ∉ block) : ∀ line ∈ block, line.isEmpty = false := by
  rintro (_ | ⟨c, cs⟩) hline
  · exact absurd hline hblock
  · rfl

theorem blocksOf_of_no_blank (hblock : [] ∉ block) : blocksOf block = [] := by
  rw [blocksOf, List.splitOnP_eq_singleton (isEmpty_eq_false hblock), List.dropLast_singleton]

theorem openBlock_of_no_blank (hblock : [] ∉ block) : openBlock block = block := by
  rw [openBlock, List.splitOnP_eq_singleton (isEmpty_eq_false hblock)]
  rfl

theorem splitOnP_blank (hblock : [] ∉ block) (lines : List (List Char)) :
    (block ++ [] :: lines).splitOnP List.isEmpty = block :: lines.splitOnP List.isEmpty :=
  List.splitOnP_append_cons_of_forall_mem (isEmpty_eq_false hblock) [] rfl lines

theorem blocksOf_blank (hblock : [] ∉ block) (lines : List (List Char)) :
    blocksOf (block ++ [] :: lines) = block :: blocksOf lines := by
  rw [blocksOf, splitOnP_blank hblock, List.dropLast_cons_of_ne_nil (List.splitOnP_ne_nil _ _)]
  rfl

theorem openBlock_blank (hblock : [] ∉ block) (lines : List (List Char)) :
    openBlock (block ++ [] :: lines) = openBlock lines := by
  rw [openBlock, openBlock, splitOnP_blank hblock]
  obtain ⟨first, blocks, hsplit⟩ :=
    List.exists_cons_of_ne_nil (List.splitOnP_ne_nil List.isEmpty lines)
  rw [hsplit, List.getLastD_cons]
  rfl

theorem encode_line (line more : List Char) : Utf8.encode (String.ofList (line ++ '\n' :: more)) =
    Utf8.encode (String.ofList line) ++ 0x0A :: Utf8.encode (String.ofList more) := by
  rw [Utf8.encode_ofList, Utf8.encode_ofList, Utf8.encode_ofList, List.flatMap_append]
  rfl

/-- The decoder reads the events of the blocks, the first of which may have begun before, and goes
on with the last block, which no blank line has ended. -/
theorem reads_lines (hlines : ∀ line ∈ lines, '\n' ∉ line) (hblock : [] ∉ block)
    (more : decoder.Reads atEnd
      (pendingOf (openBlock (block ++ lines.map (List.rdropWhile (· == '\r'))))) rest items q) :
    decoder.Reads atEnd (pendingOf block)
      (Utf8.encode (String.ofList (lines.flatMap (· ++ ['\n']))) ++ rest)
      ((blocksOf (block ++ lines.map (List.rdropWhile (· == '\r')))).filterMap eventOf? ++
        items) q := by
  induction lines generalizing block with
  | nil =>
    rw [List.map_nil, List.append_nil] at more ⊢
    rw [openBlock_of_no_blank hblock] at more
    rw [blocksOf_of_no_blank hblock]
    exact more
  | cons line lines ih =>
    obtain ⟨hline, hlines⟩ := List.forall_mem_cons.1 hlines
    have hfeed : '\n' ∉ (String.ofList line).toList := by rwa [String.toList_ofList]
    have hreturns : dropReturns (String.ofList line).toList = line.rdropWhile (· == '\r') := by
      rw [String.toList_ofList]
      rfl
    rw [List.flatMap_cons, List.append_assoc, List.singleton_append, encode_line, List.append_assoc,
      List.cons_append]
    rw [List.map_cons] at more ⊢
    cases hstrip : line.rdropWhile (· == '\r') with
    | nil =>
      rw [hstrip, openBlock_blank hblock] at more
      rw [blocksOf_blank hblock, List.filterMap_cons]
      have hread :=
        reads_line hfeed (hreturns ▸ hstrip ▸ line_blank block) (ih hlines List.not_mem_nil more)
      cases hevent : eventOf? block <;> simpa [hevent] using hread
    | cons c cs =>
      have hjoin := List.append_cons block (c :: cs) (lines.map (List.rdropWhile (· == '\r')))
      rw [hstrip, hjoin] at more
      rw [hjoin]
      have hnext : [] ∉ block ++ [c :: cs] := by simp [hblock]
      exact reads_line (e := none) hfeed
        (by rw [hreturns, hstrip, line_pendingOf _ (List.cons_ne_nil c cs)]) (ih hlines hnext more)

/-- Behind the lines of a text the decoder stands before what no line feed ends. -/
theorem reads_text {text : String} {last : List Char}
    (hlast : (Text.splitOn '\n' text.toList).getLast? = some last)
    (more : decoder.Reads atEnd (pendingOf (openBlock (linesOf text)))
      (Utf8.encode (String.ofList last)) items q) :
    decoder.Reads atEnd {} (Utf8.encode text) (eventsOf text ++ items) q := by
  have hne := Text.splitOn_ne_nil '\n' text.toList
  have htext := Text.intercalate_splitOn '\n' text.toList
  have hfeeds : ∀ line ∈ (Text.splitOn '\n' text.toList).dropLast, '\n' ∉ line := fun line hline =>
    Text.not_mem_of_mem_splitOn (List.dropLast_subset _ hline)
  obtain rfl : (Text.splitOn '\n' text.toList).getLast hne = last := by
    rwa [List.getLast?_eq_some_getLast hne, Option.some.injEq] at hlast
  rw [Text.intercalate_eq_flatMap hne] at htext
  have hblock : [] ∉ ([] : List (List Char)) := List.not_mem_nil
  have hread := reads_lines hfeeds hblock more
  rwa [List.nil_append, ← Utf8.encode_append, ← String.ofList_append, htext, String.ofList_toList]
    at hread

/-- Of a text that ends in a line feed nothing is left over. -/
theorem run_of_complete {text : String}
    (hlast : (Text.splitOn '\n' text.toList).getLast? = some []) :
    decoder.run [Utf8.encode text] = (eventsOf text, none) := by
  have hread : decoder.Reads true {} (Utf8.encode text) (eventsOf text ++ []) _ :=
    reads_text hlast (.wait rfl)
  rw [List.append_nil, ← List.flatten_singleton (l := Utf8.encode text)] at hread
  exact Decoder.run_eq_of_reads shrinking_decoder steady_decoder hread

end Lines

/-- Draining a buffer, before the end or at it, comes to a point where the decoder waits or
fails. However a byte string is cut into chunks, the events and the failure that stops them,
if any, are those of the whole string; and of a text that ends in a line feed the events are
those of the grammar. -/
theorem run_eq_eventsOf :
    (∀ atEnd p buffer, ∃ events q, decoder.drainAll atEnd p buffer = (events, q) ∧
      decoder.Reads atEnd p buffer events q) ∧
    (∀ chunks : List Bytes, decoder.run chunks = decoder.run [chunks.flatten]) ∧
    ∀ text :
    String, decoder.run [Utf8.encode (text ++ "\n")] = (eventsOf (text ++ "\n"), none) := by
  refine ⟨fun atEnd p buffer =>
    ⟨_, _, rfl, Decoder.reads_drainAll shrinking_decoder atEnd p buffer⟩,
    fun chunks => (Decoder.run_flatten shrinking_decoder steady_decoder chunks).symm,
    fun text => ?_⟩
  refine run_of_complete ?_
  rw [String.toList_append]
  exact (congrArg List.getLast? (Text.splitOn_append text.toList [])).trans List.getLast?_concat

-- A comment, a field of no meaning, two names and two values; behind them an event whose blank line
-- is missing.
example : eventsOf ":x\nevent: a\nevent:ready\r\ndata: one\ndata\nid: 7\n\r\ndata: two\n" =
    [⟨"ready", "one\n"⟩] := by
  cbv

end ControlPlane.EventStream
