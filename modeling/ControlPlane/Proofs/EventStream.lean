import ControlPlane.EventStream
import ControlPlane.Proofs.Incremental
import ControlPlane.Proofs.Json.Text
import Mathlib.Data.List.TakeWhile

/-! # Events that are written are read

The reader takes a line at a time and looks at nothing behind it, so it does not matter how the
bytes are cut. A block with one line of data is read as its event, and comments between blocks
are read as nothing, so what is written of a list of events is read as that list, and the reader
then stands where it began.
-/
namespace ControlPlane

namespace Lines
variable {atEnd : Bool} {line buffer rest : Bytes}

theorem take?_line (h : 0x0A ∉ line) (rest : Bytes) (atEnd : Bool) :
    take? atEnd (line ++ 0x0A :: rest) = some (line, rest) := by
  have hline : ∀ b ∈ line, (b != 0x0A) = true := by
    intro b hb
    simpa using fun he : b = 0x0A => h (he ▸ hb)
  rw [take?, List.dropWhile_append_of_pos hline, List.takeWhile_append_of_pos hline]
  simp

/-- Before the end a line is one that a line feed ends. -/
theorem take?_false_iff :
    take? false buffer = some (line, rest) ↔ buffer = line ++ 0x0A :: rest ∧ 0x0A ∉ line := by
  constructor
  · intro h
    have hline : 0x0A ∉ buffer.takeWhile (· != 0x0A) := by
      intro hmem
      simpa using List.mem_takeWhile_imp hmem
    rw [take?] at h
    split at h
    · next b rest' hdrop =>
      have hb : b = 0x0A := by
        have hhead := List.head?_dropWhile_not (· != 0x0A) buffer
        rw [hdrop] at hhead
        simpa using hhead
      have hbuffer := List.takeWhile_append_dropWhile (p := (· != 0x0A)) (l := buffer)
      rw [hdrop, hb] at hbuffer
      cases h
      exact ⟨hbuffer.symm, hline⟩
    · simp at h
  · rintro ⟨rfl, h⟩
    exact take?_line h rest false

theorem take?_append (h : take? false buffer = some (line, rest)) (atEnd : Bool) (late : Bytes) :
    take? atEnd (buffer ++ late) = some (line, rest ++ late) := by
  obtain ⟨rfl, hline⟩ := take?_false_iff.1 h
  rw [List.append_assoc, List.cons_append]
  exact take?_line hline (rest ++ late) atEnd

theorem length_lt_of_take? (h : take? atEnd buffer = some (line, rest)) :
    rest.length < buffer.length := by
  rw [take?] at h
  split at h
  · next b rest' hdrop =>
    cases h
    have hsuffix := (List.dropWhile_suffix (l := buffer) (· != 0x0A)).length_le
    rw [hdrop, List.length_cons] at hsuffix
    exact hsuffix
  · split at h
    · cases h
    · next hsome =>
      cases h
      refine List.length_pos_of_ne_nil fun hnil => hsome ?_
      simp [hnil]

end Lines

namespace EventStream
variable {atEnd : Bool} {p p' : Pending} {line buffer rest : Bytes} {event : Event}

/-! ## Steps -/

theorem step_eq_takeLine (h : Lines.take? atEnd buffer = some (line, rest)) :
    step atEnd p buffer = takeLine p line rest := by
  rw [step, h]

/-- What a line does, it does whatever follows it. -/
theorem takeLine_cases {taken : Step Pending Event LineError} (h : takeLine p line rest = taken) :
    (∃ event p', taken = .item event p' rest ∧ ∀ more, takeLine p line more = .item event p' more) ∨
      (∃ p', taken = .pass p' rest ∧ ∀ more, takeLine p line more = .pass p' more) ∨
      taken = .fail .notText p rest ∧ ∀ more, takeLine p line more = .fail .notText p more := by
  subst h
  unfold takeLine
  split
  · exact .inr (.inr ⟨rfl, fun _ => rfl⟩)
  · split
    · exact .inl ⟨_, _, rfl, fun _ => rfl⟩
    · exact .inr (.inl ⟨_, rfl, fun _ => rfl⟩)

theorem exists_line {taken : Step Pending Event LineError} (h : step atEnd p buffer = taken)
    (hne : taken ≠ .wait) :
    ∃ line rest, Lines.take? atEnd buffer = some (line, rest) ∧ takeLine p line rest = taken := by
  unfold step at h
  split at h
  · next line rest htake => exact ⟨line, rest, htake, h⟩
  · exact absurd h.symm hne

theorem shrinking_decoder : decoder.Shrinking where
  item h := by
    obtain ⟨line, rest, htake, hline⟩ := exists_line h (by simp)
    obtain ⟨_, _, ⟨⟩, -⟩ | ⟨_, ⟨⟩, -⟩ | ⟨⟨⟩, -⟩ := takeLine_cases hline
    exact Lines.length_lt_of_take? htake
  pass h := by
    obtain ⟨line, rest, htake, hline⟩ := exists_line h (by simp)
    obtain ⟨_, _, ⟨⟩, -⟩ | ⟨_, ⟨⟩, -⟩ | ⟨⟨⟩, -⟩ := takeLine_cases hline
    exact Lines.length_lt_of_take? htake

/-- The line at hand is the same whatever comes behind it. -/
private theorem step_append (h : Lines.take? false buffer = some (line, rest)) (p : Pending)
    (atEnd : Bool) (late : Bytes) :
    decoder.step atEnd p (buffer ++ late) = takeLine p line (rest ++ late) :=
  step_eq_takeLine (Lines.take?_append h atEnd late)

theorem steady_decoder : decoder.Steady where
  item {p _ _ _ _} h atEnd late := by
    obtain ⟨line, rest, htake, hline⟩ := exists_line h (by simp)
    obtain ⟨_, _, ⟨⟩, hall⟩ | ⟨_, ⟨⟩, -⟩ | ⟨⟨⟩, -⟩ := takeLine_cases hline
    exact (step_append htake p atEnd late).trans (hall _)
  pass {p _ _ _} h atEnd late := by
    obtain ⟨line, rest, htake, hline⟩ := exists_line h (by simp)
    obtain ⟨_, _, ⟨⟩, -⟩ | ⟨_, ⟨⟩, hall⟩ | ⟨⟨⟩, -⟩ := takeLine_cases hline
    exact (step_append htake p atEnd late).trans (hall _)
  fail {p _ _ _ _} h atEnd late := by
    obtain ⟨line, rest, htake, hline⟩ := exists_line h (by simp)
    obtain ⟨_, _, ⟨⟩, -⟩ | ⟨_, ⟨⟩, -⟩ | ⟨⟨⟩, hall⟩ := takeLine_cases hline
    exact (step_append htake p atEnd late).trans (hall _)

/-! ## Lines -/

section Lines
variable {s : String} {items : List Event} {q : Decoder.Progress Pending LineError}

/-- A line that is a text does to the event what it says. -/
theorem reads_of_take {e : Option Event}
    (htake : Lines.take? atEnd buffer = some (Utf8.encode s, rest))
    (hline : p.line (dropReturns s.toList) = (e, p')) (more : decoder.Reads atEnd p' rest items q) :
    decoder.Reads atEnd p buffer (e.toList ++ items) q := by
  have hstep : decoder.step atEnd p buffer = takeLine p (Utf8.encode s) rest :=
    step_eq_takeLine htake
  rw [takeLine, Utf8.decode?_encode] at hstep
  dsimp only at hstep
  rw [hline] at hstep
  cases e with
  | none => exact .pass hstep more
  | some event => exact .item hstep more

theorem reads_line {e : Option Event} (h : '\n' ∉ s.toList)
    (hline : p.line (dropReturns s.toList) = (e, p')) (more : decoder.Reads atEnd p' rest items q) :
    decoder.Reads atEnd p (Utf8.encode s ++ 0x0A :: rest) (e.toList ++ items) q :=
  reads_of_take (Lines.take?_line (Utf8.newline_not_mem_encode h) rest atEnd) hline more

/-- A blank line ends an event if there is data before it. -/
theorem reads_blank (more : decoder.Reads atEnd {} rest items q) :
    decoder.Reads atEnd p (0x0A :: rest)
    ((p.data.map fun data => (⟨p.name.getD "message", data⟩ : Event)).toList ++ items) q :=
  reads_line (s := "") (by simp) rfl more

theorem newline_not_mem (h : Json.OneLine s) : '\n' ∉ s.toList :=
  fun hmem => absurd (h '\n' hmem) (by decide)

theorem dropReturns_eq {line : List Char} (h : ∀ c ∈ line, 0x20 ≤ c.toNat) :
    dropReturns line = line := by
  cases hrev : line.reverse with
  | nil =>
    rw [List.reverse_eq_nil_iff.1 hrev]
    rfl
  | cons c cs =>
    have hc : c ≠ '\r' := by
      rintro rfl
      exact absurd (h '\r' (List.mem_reverse.1 (hrev ▸ List.mem_cons_self))) (by decide)
    rw [dropReturns, hrev, List.dropWhile_cons_of_neg (by simpa using hc), ← hrev,
      List.reverse_reverse]

/-- A field's name ends at the first colon, and of the blanks behind it one belongs to the colon. -/
theorem line_field {name value : List Char} (hname : ':' ∉ name) (hne : name ≠ []) (p : Pending) :
    p.line (name ++ ':' :: ' ' :: value) = (none, p.set name value) := by
  have hall : ∀ c ∈ name, (c != ':') = true := by
    intro c hc
    rw [bne_iff_ne]
    rintro rfl
    exact hname hc
  have hfield : field (name ++ ':' :: ' ' :: value) = (name, value) := by
    rw [field, List.dropWhile_append_of_pos hall, List.takeWhile_append_of_pos hall]
    simp
  obtain ⟨c, cs, rfl⟩ := List.exists_cons_of_ne_nil hne
  have hcolon : c ≠ ':' := fun he => hname (he ▸ List.mem_cons_self)
  rw [List.cons_append] at hfield ⊢
  rw [Pending.line, hfield]
  · simp
  · exact fun _ he => hcolon (List.cons.inj he).1

end Lines

/-! ## Blocks -/

/-- Comment lines, which begin with a colon, and the blank line after them. -/
structure Comment where
  lines : List String
  newline_not_mem : ∀ s ∈ lines, '\n' ∉ s.toList

def Comment.bytes (c : Comment) : Bytes :=
  (c.lines.flatMap fun s => 0x3A :: Utf8.encode s ++ [0x0A]) ++ [0x0A]

/-- The bytes are the events' blocks, with comments between them. -/
inductive Writes : Bytes → List Event → Prop
  | nil : Writes [] []
  | comment (c : Comment) {bytes : Bytes} {events : List Event} (more : Writes bytes events) :
    Writes (c.bytes ++ bytes) events
  | block {name : Option String} {text : String} (hname : ∀ n ∈ name, Json.OneLine n)
      (htext : Json.OneLine text)
    {bytes : Bytes} {events : List Event} (more : Writes bytes events) :
    Writes (block name (Utf8.encode text) ++ bytes) (⟨name.getD "message", text⟩ :: events)

section Blocks
variable {bytes : Bytes} {events items : List Event} {q : Decoder.Progress Pending LineError}

theorem reads_comment (c : Comment) (more : decoder.Reads atEnd {} rest items q) :
    decoder.Reads atEnd {} (c.bytes ++ rest) items q := by
  obtain ⟨lines, hlines⟩ := c
  simp only [Comment.bytes]
  induction lines with
  | nil => exact reads_blank more
  | cons s lines ih =>
    obtain ⟨hs, hmore⟩ := List.forall_mem_cons.1 hlines
    have hnewline : '\n' ∉ (":" ++ s).toList := by simpa using hs
    have hreturn : ∃ cs, dropReturns (":" ++ s).toList = ':' :: cs := by
      have hcs : (":" ++ s).toList = ':' :: s.toList := by simp
      rw [hcs, dropReturns, List.reverse_cons, List.dropWhile_append]
      split
      · exact ⟨[], rfl⟩
      · exact ⟨(s.toList.reverse.dropWhile (· == '\r')).reverse, by simp⟩
    obtain ⟨cs, hcs⟩ := hreturn
    have hread := reads_line (p := {}) hnewline (by rw [hcs]; rfl) (ih hmore)
    have hcolon : Utf8.encode ":" = [0x3A] := rfl
    rw [Utf8.encode_append, hcolon] at hread
    simpa using hread

theorem oneLine_append {s t : String} (hs : Json.OneLine s) (ht : Json.OneLine t) :
    Json.OneLine (s ++ t) := by
  intro c hc
  rcases List.mem_append.1 (String.toList_append ▸ hc) with hc | hc
  · exact hs c hc
  · exact ht c hc

/-- A field of one line is taken into the event. -/
theorem reads_field {name value : String} (hname : ':' ∉ name.toList) (hne : name.toList ≠ [])
    (hline : Json.OneLine name) (hvalue : Json.OneLine value)
    (more : decoder.Reads atEnd (p.set name.toList value.toList) rest items q) :
    decoder.Reads atEnd p (Utf8.encode (name ++ ": " ++ value) ++ 0x0A :: rest) items q := by
  have hall : Json.OneLine (name ++ ": " ++ value) :=
    oneLine_append (oneLine_append hline (by decide)) hvalue
  have htext : (name ++ ": " ++ value).toList = name.toList ++ ':' :: ' ' :: value.toList := by simp
  refine reads_line (e := none) (newline_not_mem hall) ?_ more
  rw [dropReturns_eq hall, htext]
  exact line_field hname hne p

theorem reads_block {name : Option String} {text : String} (hname : ∀ n ∈ name, Json.OneLine n)
    (htext : Json.OneLine text) (more : decoder.Reads atEnd {} rest items q) :
    decoder.Reads atEnd {} (block name (Utf8.encode text) ++ rest)
      (⟨name.getD "message", text⟩ :: items) q := by
  have hdata (p : Pending) (hp : p.data = none) :
      decoder.Reads atEnd p (Utf8.encode ("data" ++ ": " ++ text) ++ 0x0A :: 0x0A :: rest)
        (⟨p.name.getD "message", text⟩ :: items) q := by
    have hset : (p.set "data".toList text.toList).data = some text := by simp [Pending.set, hp]
    have hsame : (p.set "data".toList text.toList).name = p.name := by simp [Pending.set]
    refine reads_field (by decide) (by decide) (by decide) htext ?_
    rw [← hsame]
    have hread := reads_blank (p := p.set "data".toList text.toList) more
    rw [hset] at hread
    exact hread
  cases name with
  | none =>
    have hread := hdata {} rfl
    simpa [block] using hread
  | some n =>
    have hset : ({} : Pending).set "event".toList n.toList = { name := some n } := by
      simp [Pending.set]
    have hmore : decoder.Reads atEnd (({} : Pending).set "event".toList n.toList)
        (Utf8.encode ("data" ++ ": " ++ text) ++ 0x0A :: 0x0A :: rest) (⟨n, text⟩ :: items) q := by
      rw [hset]
      exact hdata { name := some n } rfl
    have hread := reads_field (by decide) (by decide) (by decide) (hname n rfl) hmore
    simpa [block] using hread

theorem reads_of_writes (h : Writes bytes events) :
    decoder.Reads atEnd {} bytes events decoder.initial := by
  induction h with
  | nil =>
    refine .wait ?_
    cases atEnd <;> rfl
  | comment c _ ih => exact reads_comment c ih
  | block hname htext _ ih => exact reads_block hname htext ih

/-- However the bytes are cut, the events are read as they come, and at the end
nothing is left over. -/
theorem feedAll_of_writes {chunks : List Bytes} (h : Writes chunks.flatten events) :
    decoder.feedAll chunks ([], decoder.initial) = (events, decoder.initial) :=
  Decoder.feedAll_of_reads shrinking_decoder steady_decoder rfl rfl (reads_of_writes h) rfl []

theorem run_of_writes {chunks : List Bytes} (h : Writes chunks.flatten events) :
    decoder.run chunks = (events, none) :=
  Decoder.run_of_reads shrinking_decoder steady_decoder rfl (reads_of_writes h) rfl rfl

end Blocks
end EventStream
end ControlPlane
