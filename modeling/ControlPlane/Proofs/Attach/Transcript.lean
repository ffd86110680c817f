import ControlPlane.Attach.Transcript
import ControlPlane.Proofs.Attach.Frame
import ControlPlane.Proofs.EventStream
import ControlPlane.Proofs.Json.Value

/-! # A transcript is read as the frames it was made of

The blocks of a job's output are those of its frames, and a last one exactly if the output ends
where a frame ends. What a client reads of them is one event per frame, in order, whatever bytes
the frames carry and however the blocks are cut on their way: the text of a payload is escaped,
so it never ends a line.
-/
namespace ControlPlane

namespace LogFrame

/-- At the end no frame is left that was not taken before. -/
theorem reads_at_end {state : Unit} {buffer : Bytes} {frames : List LogFrame}
    {q : Decoder.Progress Unit FrameError} (hwait : decoder.step false state buffer = .wait)
    (h : decoder.Reads true state buffer frames q) : frames = [] := by
  cases h with
  | wait => rfl
  | fail => rfl
  | pass h => exact absurd h step_ne_pass
  | @item _ _ _ _ frame _ _ h _ =>
    have hitem : decoder.step false state buffer = .item frame () _ :=
      step_item_iff.2 (step_item_iff.1 h)
    rw [hwait] at hitem
    cases hitem

/-- All frames are taken before the end is known; only whether the last of them is
whole is told at the end. -/
theorem feed_eq_parse (output : Bytes) :
    ∃ p, decoder.feed decoder.initial output = ((parse output).1, p) ∧
    (∀ e, p.failure = some e → (parse output).2 = some e) ∧
    (p.failure = none → (decoder.finish p).2.failure = (parse output).2) := by
  obtain ⟨q, hparse, hfail⟩ := reads_parse output
  have hfirst := Decoder.reads_drainAll shrinking_decoder false () output
  have hfeed : decoder.feed decoder.initial output = decoder.drainAll false () output := rfl
  rw [hfeed]
  generalize decoder.drainAll false () output = r at hfirst
  cases hp : r.2.failure with
  | some e =>
    have hall := hfirst.append_of_failure steady_decoder hp [] true
    rw [List.append_nil] at hall
    obtain ⟨hframes, rfl⟩ := hparse.unique hall
    exact ⟨r.2, Prod.ext hframes.symm rfl, fun e' he' => by rw [← hfail, ← he'],
      fun hnone => by simp [hp] at hnone⟩
  | none =>
    have hlast := Decoder.reads_drainAll shrinking_decoder true r.2.state r.2.buffer
    have hnothing := reads_at_end (hfirst.step_eq_wait hp) hlast
    have hfinish : decoder.finish r.2 = decoder.drainAll true r.2.state r.2.buffer :=
      if_neg (by simp [hp])
    rw [← hfinish] at hlast hnothing
    rw [← List.append_nil r.2.buffer] at hlast
    have hall := hfirst.append steady_decoder hp hlast
    rw [List.append_nil, hnothing, List.append_nil] at hall
    obtain ⟨hframes, rfl⟩ := hparse.unique hall
    exact ⟨r.2, Prod.ext hframes.symm rfl, fun e' he' => by simp [hp] at he', fun _ => hfail⟩

end LogFrame

namespace Transcript
open Json

/-- The blocks of the frames, and a last block or a failure. -/
theorem blocks_eq (output : Bytes) : blocks output true =
    ((LogFrame.parse output).1.map frameBlock ++ if (LogFrame.parse output).2 = none
      then [endBlock] else [], (LogFrame.parse output).2) := by
  obtain ⟨p, hfeed, hsome, hnone⟩ := LogFrame.feed_eq_parse output
  rw [blocks, hfeed]
  cases hp : p.failure with
  | some e => simp [hp, hsome e hp]
  | none =>
    have hlast := hnone hp
    cases hparse : (LogFrame.parse output).2 with
    | some e => simp [hp, hlast, hparse]
    | none => simp [hp, hlast, hparse]

/-- An event tells the frame: its data is an object with the name of the stream and the text of the
payload, which is the payload itself where that is a text. -/
structure Tells (event : Event) (frame : LogFrame) : Prop where
  name : event.name = "message"
  data : Reader.document (Reader.value Reader.maxDepth) (Utf8.encode event.data) =
    .ok (.object [("stream", .string frame.stream.name),
      ("data", .string (Utf8.decodeLossy frame.payload))])
  text : ∀ text, frame.payload = Utf8.encode text → Utf8.decodeLossy frame.payload = text

theorem isLine_frameData (frame : LogFrame) : IsLine (Json.render (frameData frame)) := by
  refine IsLine.object fun m hm => ?_
  rcases List.mem_pair.1 hm with rfl | rfl
  · exact IsLine.renderString _
  · exact IsLine.renderString _

theorem exists_tells (frame : LogFrame) :
    ∃ event, Tells event frame ∧ ∀ {bytes : Bytes} {events : List Event},
    EventStream.Writes bytes events →
    EventStream.Writes (frameBlock frame ++ bytes) (event :: events) := by
  obtain ⟨text, htext, hline⟩ := isLine_frameData frame
  refine ⟨⟨"message", text⟩, ⟨rfl, ?_, ?_⟩, fun more => ?_⟩
  · have hwritten : (frameData frame).Written Reader.maxDepth := by
      refine .object fun m hm => ?_
      rcases List.mem_pair.1 hm with rfl | rfl
      · exact .string _ _
      · exact .string _ _
    rw [htext]
    exact (Reader.takes_value hwritten).document
  · rintro payload hpayload
    rw [hpayload, Utf8.decodeLossy_encode]
  · rw [frameBlock, ← htext]
    exact .block (fun _ h => by cases h) hline more

/-- Event by event, the frames' blocks are in front of what else is written. -/
theorem exists_events (frames : List LogFrame) : ∃ events, List.Forall₂ Tells events frames ∧
    ∀ {bytes : Bytes} {more : List Event}, EventStream.Writes bytes more →
      EventStream.Writes ((frames.map frameBlock).flatten ++ bytes) (events ++ more) := by
  induction frames with
  | nil => exact ⟨[], .nil, fun h => h⟩
  | cons frame frames ih =>
    obtain ⟨event, htells, hblock⟩ := exists_tells frame
    obtain ⟨events, hevents, hblocks⟩ := ih
    refine ⟨event :: events, .cons htells hevents, fun h => ?_⟩
    rw [List.map_cons, List.flatten_cons, List.append_assoc]
    exact hblock (hblocks h)

theorem writes_end : EventStream.Writes ([endBlock].flatten) [⟨"eof", "{}"⟩] := by
  have hend : [endBlock].flatten = EventStream.block (some "eof") (Utf8.encode "{}") ++ [] := by
    rw [List.flatten_singleton, List.append_nil]
    rfl
  rw [hend]
  exact .block (fun n hn => by obtain rfl := Option.some.inj hn; decide) (by decide) .nil

end Transcript
end ControlPlane
