import ControlPlane.Proofs.Attach.Frame
import Mathlib.Data.List.Forall2
import Mathlib.Data.List.TakeWhile

/-! # Encoded frames that are decoded

A frame is written with any payload whose length fits four bytes, and a reader takes payloads up to
its own limit only. So frames that were written one after the other are read in their order as far
as the limit allows: the first frame whose payload is larger stops the reader, which names the size,
and nothing from there on is read.
-/
namespace ControlPlane

@[simp] theorem StreamKind.ofTag?_tag (stream : StreamKind) : ofTag? stream.tag = some stream := by
  cases stream <;> rfl

namespace LogFrame

/-- Whether a reader takes the frame. -/
def fits (frame : LogFrame) : Bool := frame.payload.length ≤ maxPayload

/-- Four bytes hold every length that has an encoding. -/
theorem bigEndian_sizeBytes {n : Nat} (h : n < UInt32.size) :
    bigEndian (UInt8.ofNat (n / 16777216)) (UInt8.ofNat (n / 65536)) (UInt8.ofNat (n / 256))
      (UInt8.ofNat n) = n := by
  rw [UInt32.size] at h
  simp only [bigEndian, UInt8.toNat_ofNat']
  omega

theorem encode_eq_ok {frame : LogFrame} {part : Bytes} : frame.encode = .ok part ↔
    frame.payload.length < UInt32.size ∧
      frame.stream.tag :: 0 :: 0 :: 0 :: sizeBytes frame.payload.length ++
        frame.payload = part := by
  rw [encode]
  split
  · next h => simp only [h, true_and, Except.ok.injEq]
  · next h => simp [h]

/-- The frame at the front is taken whole, or refused for its size, whatever comes behind it. -/
theorem step_encode {frame : LogFrame} {part : Bytes} (h : frame.encode = .ok part) (atEnd : Bool)
    (rest : Bytes) :
    step atEnd () (part ++ rest) =
      if frame.fits then .item frame () rest
      else .fail (.tooLarge frame.payload.length maxPayload) () (part ++ rest) := by
  obtain ⟨hsize, rfl⟩ := encode_eq_ok.1 h
  have hsame := bigEndian_sizeBytes hsize
  simp only [sizeBytes, List.cons_append, List.nil_append, step, StreamKind.ofTag?_tag, hsame]
  by_cases hfits : maxPayload < frame.payload.length
  · have hlarge : frame.fits = false := by simpa [fits] using hfits
    rw [if_pos hfits, hlarge]
    rfl
  · have hsmall : frame.fits = true := by simpa [fits] using hfits
    rw [if_neg hfits, hsmall, List.take_left, List.drop_left]
    simp

/-- The encodings of frames, one after the other, are read up to the first
frame that is too large. -/
theorem reads_encoded {frames : List LogFrame} {parts : List Bytes}
    (h : List.Forall₂ (fun frame part => encode frame = .ok part) frames parts) :
    ∃ q : Decoder.Progress Unit FrameError,
      decoder.Reads true () parts.flatten (frames.takeWhile fits) q ∧
      q.failure = (frames.find? (!·.fits)).map fun frame =>
        .tooLarge frame.payload.length maxPayload := by
  induction h with
  | nil => exact ⟨_, .wait rfl, rfl⟩
  | @cons frame part frames parts hpart _ ih =>
    have hstep := step_encode hpart true parts.flatten
    rw [List.flatten_cons]
    cases hfits : frame.fits with
    | true =>
      obtain ⟨q, hreads, hfail⟩ := ih
      rw [hfits] at hstep
      refine ⟨q, ?_, ?_⟩
      · rw [List.takeWhile_cons_of_pos hfits]
        exact .item hstep hreads
      · rw [hfail, List.find?_cons_of_neg (by simp [hfits])]
    | false =>
      rw [hfits] at hstep
      refine ⟨⟨(), part ++ parts.flatten, some (.tooLarge frame.payload.length maxPayload)⟩, ?_, ?_⟩
      · rw [List.takeWhile_cons_of_neg (by simp [hfits])]
        exact .fail hstep
      · rw [List.find?_cons_of_pos (by simp [hfits])]
        rfl

theorem run_of_encoded {frames : List LogFrame} {parts : List Bytes}
    (h : List.Forall₂ (fun frame part => encode frame = .ok part) frames parts)
    {chunks : List Bytes} (hcut : chunks.flatten = parts.flatten) :
    decoder.run chunks = (frames.takeWhile fits,
      (frames.find? (!·.fits)).map fun frame => .tooLarge frame.payload.length maxPayload) := by
  obtain ⟨q, hreads, hfail⟩ := reads_encoded h
  rw [← hcut] at hreads
  rw [Decoder.run_eq_of_reads shrinking_decoder steady_decoder hreads, hfail]

/-- However the encodings of frames are cut into chunks, the reader takes the frames before the
first whose payload is above its limit, and then fails for the size of that one. So it takes all of
them, and ends cleanly, if and only if no payload is above the limit. -/
theorem encoded_are_read {frames : List LogFrame} {parts : List Bytes}
    (h : List.Forall₂ (fun frame part => encode frame = .ok part) frames parts)
    {chunks : List Bytes} (hcut : chunks.flatten = parts.flatten) :
    decoder.run chunks = (frames.takeWhile fits,
      (frames.find? (!·.fits)).map fun frame => .tooLarge frame.payload.length maxPayload) ∧
    (decoder.run chunks = (frames, none) ↔
      ∀ frame ∈ frames, frame.payload.length ≤ maxPayload) := by
  have hrun := run_of_encoded h hcut
  refine ⟨hrun, ?_⟩
  rw [hrun, Prod.mk.injEq, Option.map_eq_none_iff, List.find?_eq_none]
  constructor
  · intro hall frame hframe
    simpa [fits] using hall.2 frame hframe
  · intro hall
    have hfits : ∀ frame ∈ frames, frame.fits = true :=
      fun frame hframe => by simpa [fits] using hall frame hframe
    exact ⟨List.takeWhile_eq_self_iff.2 hfits, fun frame hframe => by simp [hfits frame hframe]⟩

/-- An empty payload and one of two bytes, cut inside both headers and inside the second payload. -/
theorem encoded_are_read_of_two :
    let frames : List LogFrame := [⟨.stderr, []⟩, ⟨.stdout, [104, 105]⟩]
    let parts : List Bytes := [[2, 0, 0, 0, 0, 0, 0, 0], [1, 0, 0, 0, 0, 0, 0, 2, 104, 105]]
    let chunks : List Bytes :=
      [[2, 0, 0], [0, 0, 0, 0, 0, 1], [], [0, 0, 0, 0, 0, 0, 2, 104], [105]]
    List.Forall₂ (fun frame part => encode frame = .ok part) frames parts ∧
      chunks.flatten = parts.flatten ∧
      decoder.run chunks = (frames, none) := by
  intro frames parts chunks
  have hparts : List.Forall₂ (fun frame part => encode frame = .ok part) frames parts :=
    .cons rfl (.cons rfl .nil)
  have hcut : chunks.flatten = parts.flatten := by decide
  exact ⟨hparts, hcut, (encoded_are_read hparts hcut).2.2 (by decide)⟩

/-- A payload of one byte above the limit is encoded, and no reader takes the frame,
however its bytes are cut. -/
theorem encoded_frame_refused :
    let frame : LogFrame := ⟨.stdout, List.replicate (maxPayload + 1) 0x78⟩
    ∃ part, frame.encode = .ok part ∧ ∀ chunks : List Bytes, chunks.flatten = part →
      decoder.run chunks = ([], some (.tooLarge (maxPayload + 1) maxPayload)) ∧
      decoder.run chunks ≠ ([frame], none) := by
  intro frame
  have hlength : frame.payload.length = maxPayload + 1 := List.length_replicate
  have hlarge : frame.fits = false := by simp [fits, hlength]
  have hencode : frame.encode =
      .ok (frame.stream.tag :: 0 :: 0 :: 0 :: sizeBytes frame.payload.length ++ frame.payload) :=
    encode_eq_ok.2 ⟨by rw [hlength]; decide, rfl⟩
  refine ⟨_, hencode, fun chunks hcut => ?_⟩
  rw [← List.flatten_singleton (l := frame.stream.tag :: 0 :: 0 :: 0 :: _ ++ frame.payload)] at hcut
  have hrun := run_of_encoded (.cons hencode .nil) hcut
  rw [List.takeWhile_cons_of_neg (by simp [hlarge]), List.find?_cons_of_pos (by simp [hlarge]),
    Option.map_some, hlength] at hrun
  rw [hrun]
  exact ⟨rfl, fun h => by cases h⟩

end LogFrame
end ControlPlane
