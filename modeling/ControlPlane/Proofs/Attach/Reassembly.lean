import ControlPlane.Proofs.Attach.Transcript
import ControlPlane.Proofs.Text.Pieces

/-! # Putting a log together again

A client joins the texts of the events of one stream. Each is what the payload of a frame is read as
by itself, so the result is what the job has written exactly if no frame ends inside a character. A
character that is cut comes out as two U+FFFD or more, and all others as they are; frames of the
other stream in between change nothing.
-/
namespace ControlPlane.Transcript
open Json

/-- What an event tells of a stream: the text in its data, if it is the event of one
of the stream's frames. -/
def told? (stream : StreamKind) (event : Event) : Option String :=
  match Reader.document (Reader.value Reader.maxDepth) (Utf8.encode event.data) with
  | .ok (.object members) =>
    match members.lookup "stream", members.lookup "data" with
    | some (.string name), some (.string text) => if name = stream.name then some text else none
    | _, _ => none
  | _ => none

/-- The texts of a stream's events, one behind the other. -/
def reassemble (stream : StreamKind) (events : List Event) : String :=
  String.join (events.filterMap (told? stream))

/-- The payloads of a stream's frames. -/
def payloads (stream : StreamKind) (frames : List LogFrame) : List Bytes :=
  (frames.filter (·.stream = stream)).map (·.payload)

theorem told?_of_tells {event : Event} {frame : LogFrame} (h : Tells event frame)
    (stream : StreamKind) :
    told? stream event =
      if frame.stream = stream then some (Utf8.decodeLossy frame.payload) else none := by
  have hname : frame.stream.name = stream.name ↔ frame.stream = stream := by
    cases frame.stream <;> cases stream <;> decide
  rw [told?, h.data]
  simp [List.lookup_cons, hname]

theorem filterMap_told? {events : List Event} {frames : List LogFrame}
    (h : List.Forall₂ Tells events frames) (stream : StreamKind) :
    events.filterMap (told? stream) = (payloads stream frames).map Utf8.decodeLossy := by
  induction h with
  | nil => rfl
  | @cons event frame events frames htells _ ih =>
    rw [List.filterMap_cons, told?_of_tells htells]
    by_cases hstream : frame.stream = stream <;> simp [hstream, payloads, ih]

theorem told?_end (stream : StreamKind) : told? stream ⟨"eof", "{}"⟩ = none := by
  cases stream <;> rfl

theorem reassemble_append (stream : StreamKind) (events more : List Event) :
    reassemble stream (events ++ more) = reassemble stream events ++ reassemble stream more := by
  rw [reassemble, List.filterMap_append, String.join_append]
  rfl

/-- Each payload is read by itself. -/
theorem reassemble_run (stream : StreamKind) (output : Bytes) {chunks : List Bytes}
    (hcut : chunks.flatten = (blocks output true).1.flatten) :
    reassemble stream (EventStream.decoder.run chunks).1 =
      String.join ((payloads stream (LogFrame.parse output).1).map Utf8.decodeLossy) := by
  obtain ⟨events, htells, hblocks⟩ := exists_events (LogFrame.parse output).1
  -- The event of the end tells of no stream.
  have hlast : ∃ more,
      EventStream.Writes
        (if (LogFrame.parse output).2 = none then [endBlock] else []).flatten more ∧
      reassemble stream more = "" := by
    split
    · refine ⟨_, writes_end, ?_⟩
      rw [reassemble, List.filterMap_cons_none (told?_end stream)]
      rfl
    · exact ⟨[], .nil, rfl⟩
  obtain ⟨more, hmore, hnothing⟩ := hlast
  have hall := hblocks hmore
  rw [blocks_eq, List.flatten_append] at hcut
  rw [← hcut] at hall
  rw [EventStream.run_of_writes hall, reassemble_append, hnothing, String.append_empty, reassemble,
    filterMap_told? htells]

/-- Where what a job has written to a stream is a text, the texts of the stream's events make that
text with the characters blurred that the stream's frames cut, and with all others as they are. They
make the text itself if and only if every frame of the stream carries whole characters. -/
theorem reassemble_eq_blurred (stream : StreamKind) {output : Bytes} {text : String}
    (htext : (payloads stream (LogFrame.parse output).1).flatten = Utf8.encode text)
    {chunks : List Bytes} (hcut : chunks.flatten = (blocks output true).1.flatten) :
    (reassemble stream (EventStream.decoder.run chunks).1).toList =
        Utf8.blurred (Utf8.ends 0 (payloads stream (LogFrame.parse output).1)) 0 text.toList ∧
      (reassemble stream (EventStream.decoder.run chunks).1 = text ↔
        ∀ frame ∈ (LogFrame.parse output).1, frame.stream = stream →
          ∃ s, frame.payload = Utf8.encode s) := by
  obtain ⟨hblurred, hwhole⟩ := Utf8.toList_join_decodeLossy htext
  rw [← reassemble_run stream output hcut] at hblurred hwhole
  refine ⟨hblurred, hwhole.trans ?_⟩
  simp only [payloads, List.forall_mem_map, List.mem_filter, decide_eq_true_eq, and_imp]

/-- Two texts in turns: the frames of the first carry whole characters, those
of the second cut one. -/
theorem reassemble_eq_blurred_of_turns :
    let frames : List LogFrame :=
      [⟨.stdout, [0x68]⟩, ⟨.stderr, [0x61, 0xC3]⟩, ⟨.stdout, [0xC3, 0xA9]⟩, ⟨.stderr, [0xA9, 0x62]⟩]
    let output : Bytes := [1, 0, 0, 0, 0, 0, 0, 1, 0x68, 2, 0, 0, 0, 0, 0, 0, 2, 0x61, 0xC3,
      1, 0, 0, 0, 0, 0, 0, 2, 0xC3, 0xA9, 2, 0, 0, 0, 0, 0, 0, 2, 0xA9, 0x62]
    let chunks := [(blocks output true).1.flatten]
    LogFrame.parse output = (frames, none) ∧ (payloads .stdout frames).flatten = Utf8.encode "hé" ∧
      (payloads .stderr frames).flatten = Utf8.encode "aéb" ∧
      chunks.flatten = (blocks output true).1.flatten ∧
      reassemble .stdout (EventStream.decoder.run chunks).1 = "hé" ∧
      (reassemble .stderr (EventStream.decoder.run chunks).1).toList =
        ['a', '\uFFFD', '\uFFFD', 'b'] := by
  intro frames output chunks
  have hparse : LogFrame.parse output = (frames, none) := by
    cbv
  have hout : (payloads .stdout frames).flatten = Utf8.encode "hé" := by decide
  have herr : (payloads .stderr frames).flatten = Utf8.encode "aéb" := by decide
  have hcut : chunks.flatten = (blocks output true).1.flatten := List.flatten_singleton
  obtain ⟨-, hwhole⟩ := reassemble_eq_blurred .stdout (by rwa [hparse]) hcut
  obtain ⟨hblurred, -⟩ := reassemble_eq_blurred .stderr (by rwa [hparse]) hcut
  rw [hparse] at hwhole hblurred
  refine ⟨hparse, hout, herr, hcut, hwhole.2 ?_, hblurred.trans (by decide)⟩
  simp only [frames, List.forall_mem_cons]
  exact ⟨fun _ => ⟨"h", rfl⟩, (fun h => by cases h), fun _ => ⟨"é", rfl⟩, (fun h => by cases h),
    fun _ hmem => absurd hmem List.not_mem_nil⟩

/-- The two bytes of a character in two frames make two characters. -/
theorem reassemble_cut_character :
    let output : Bytes := [1, 0, 0, 0, 0, 0, 0, 1, 0xC3, 1, 0, 0, 0, 0, 0, 0, 1, 0xA9]
    LogFrame.parse output = ([⟨.stdout, [0xC3]⟩, ⟨.stdout, [0xA9]⟩], none) ∧
      (payloads .stdout (LogFrame.parse output).1).flatten = Utf8.encode "é" ∧
      (payloads .stderr (LogFrame.parse output).1).flatten = Utf8.encode "" ∧
      reassemble .stdout (EventStream.decoder.run (blocks output true).1).1 = "\uFFFD\uFFFD" := by
  intro output
  have hparse : LogFrame.parse output = ([⟨.stdout, [0xC3]⟩, ⟨.stdout, [0xA9]⟩], none) := by
    cbv
  rw [reassemble_run .stdout output rfl, hparse]
  decide

end ControlPlane.Transcript
