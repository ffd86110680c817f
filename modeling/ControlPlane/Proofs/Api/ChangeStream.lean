import ControlPlane.Client.Calls
import ControlPlane.Proofs.EventStream
import ControlPlane.Proofs.Formation

/-! # A stream of changes says at its far end what it said at the near one

Each formation change, and the end of the replay, is written as one block whose data is a text of
one line, and the data of a block is read as what it was written for, in whatever order the members
of its objects stand. So the client gets the changes that were written, each with all it holds,
wherever the bytes are cut and whatever comments stand between the blocks.
-/
namespace ControlPlane
open Json

namespace ChangeStream

/-- The blocks a change may be written as. A formation is written as an object, and neither its
members nor those of its maps have an order of their own. -/
inductive IsBlock : FeedEvent → Bytes → Prop
  | formation {f : ExpandedFormation} {w : Value}
      (hw : (ExpandedFormation.codec.write f).Reordered w) :
    IsBlock (.formation f) (EventStream.block (some formationName) (render w))
  | replayComplete :
    IsBlock .replayComplete (EventStream.block (some readyName) (Utf8.encode "{}"))

theorem isBlock_block (change : FeedEvent) : IsBlock change (block change) := by
  cases change with
  | formation f => exact .formation (.refl _)
  | replayComplete => exact .replayComplete

/-- The bytes are blocks of the changes, one after the other, with comments between them. -/
inductive Carries : Bytes → List FeedEvent → Prop
  | nil : Carries [] []
  | comment (c : EventStream.Comment) {bytes : Bytes} {changes : List FeedEvent}
    (more : Carries bytes changes) : Carries (c.bytes ++ bytes) changes
  | change {change : FeedEvent} {text : Bytes} (htext : IsBlock change text) {bytes : Bytes}
    {changes : List FeedEvent} (more : Carries bytes changes) :
    Carries (text ++ bytes) (change :: changes)

theorem carries_blocks (changes : List FeedEvent) : Carries (changes.flatMap block) changes := by
  induction changes with
  | nil => exact .nil
  | cons change changes ih => exact .change (isBlock_block change) ih

variable {change : FeedEvent} {changes : List FeedEvent} {bytes : Bytes}

/-- A block of a change is an event of one line, which is read as the change. -/
theorem IsBlock.exists_event (h : IsBlock change bytes) :
    ∃ name text, bytes = EventStream.block (some name) (Utf8.encode text) ∧
      OneLine name ∧ OneLine text ∧ read ⟨name, text⟩ = .ok (some change) := by
  cases h with
  | replayComplete => exact ⟨readyName, "{}", rfl, by decide, by decide, rfl⟩
  | @formation f w hw =>
    obtain ⟨text, htext, hline⟩ := ExpandedFormation.faithful.line hw
    refine ⟨formationName, text, by rw [htext], by decide, hline, ?_⟩
    have hdecode : ExpandedFormation.codec.decode (Utf8.encode text) = .ok f := by
      rw [htext]
      exact ExpandedFormation.faithful.decode_reordered hw
    have hname : ¬ formationName = readyName := by decide
    rw [read, if_neg hname, if_pos rfl, hdecode]
    rfl

/-- What is written are events that a client takes for the changes. -/
theorem Carries.exists_writes (h : Carries bytes changes) :
    ∃ events, EventStream.Writes bytes events ∧
      events.filterMap (fun event => Client.readChange (.ok event)) = changes.map .ok := by
  induction h with
  | nil => exact ⟨[], .nil, rfl⟩
  | comment c _ ih =>
    obtain ⟨events, hwrites, hread⟩ := ih
    exact ⟨events, hwrites.comment c, hread⟩
  | @change change _ htext _ _ _ ih =>
    obtain ⟨events, hwrites, hread⟩ := ih
    obtain ⟨name, text, rfl, hname, hline, hchange⟩ := htext.exists_event
    have hnames : ∀ n ∈ some name, OneLine n := fun n hn => Option.some.inj hn ▸ hname
    have hclient : Client.readChange (.ok ⟨name, text⟩) = some (.ok change) := by
      rw [Client.readChange, hchange]
    refine ⟨⟨name, text⟩ :: events, hwrites.block hnames hline, ?_⟩
    rw [List.filterMap_cons, hclient, hread]
    rfl

/-- Changes are carried by the blocks that are written of them, one after the other. Whatever bytes
carry them, with the members of the formations in any order and comments between the blocks, and
however the bytes are cut, a client that has read them has been told those changes in their order,
and nothing else; no byte is left over, and the end of the stream adds nothing. -/
theorem changes_received :
    (∀ changes, Carries (changes.flatMap block) changes) ∧
    ∀ {changes : List FeedEvent} {chunks : List Bytes}, Carries chunks.flatten changes →
      ∃ events, EventStream.decoder.feedAll chunks ([], EventStream.decoder.initial) =
          (events, EventStream.decoder.initial) ∧
        EventStream.decoder.run chunks = (events, none) ∧
        (events.map .ok).filterMap Client.readChange = changes.map .ok := by
  refine ⟨carries_blocks, fun hcarries => ?_⟩
  obtain ⟨events, hwrites, hread⟩ := hcarries.exists_writes
  refine ⟨events, EventStream.feedAll_of_writes hwrites, EventStream.run_of_writes hwrites, ?_⟩
  rw [List.filterMap_map]
  exact hread

/-- A formation with two processes; its names hold a line feed, a quote and a
character of four bytes. -/
def sampleFormation : ExpandedFormation where
  app := { id := "a", name := "line\nfeed" }
  release :=
    { id := "r"
      env := Dict.ofList [("\"", "😀"), ("B", "2")]
      processes := Dict.ofList [("web", {})] }
  artifact := { id := "i", kind := "docker", uri := "x" }
  processes := some (Dict.ofList [("db", 2), ("web", 1)])
  updatedAt := .epoch

def fallingEnv : Value := .object [("B", .string "2"), ("\"", .string "😀")]

def fallingProcesses : Value := .object [("web", .integer 1), ("db", .integer 2)]

/-- The sample with the members of its maps in falling order. -/
def fallingSample : Value :=
  .object [
    ("app", .object [("id", .string "a"), ("name", .string "line\nfeed"),
      ("protected", .bool false)]),
    ("release", .object [("id", .string "r"), ("artifact", .string ""), ("env", fallingEnv),
      ("processes", .object [("web", .object [("cmd", .array [])])])]),
    ("artifact", .object [("id", .string "i"), ("type", .string "docker"), ("uri", .string "x")]),
    ("processes", fallingProcesses), ("updated_at", .string "1970-01-01T00:00:00Z")]

theorem reordered_sample :
    (ExpandedFormation.codec.write sampleFormation).Reordered fallingSample := by
  have henv : (Codec.string.dict.write sampleFormation.release.env).Reordered fallingEnv :=
    .object rfl (.cons (.refl _) (.cons (.refl _) .nil)) (.swap _ _ _)
  have hprocesses :
      (Codec.int32.dict.write (Dict.ofList [("db", 2), ("web", 1)])).Reordered fallingProcesses :=
    .object rfl (.cons (.refl _) (.cons (.refl _) .nil)) (.swap _ _ _)
  have hrelease :
      (Release.codec.write sampleFormation.release).Reordered (.object [("id", .string "r"),
      ("artifact", .string ""), ("env", fallingEnv),
      ("processes", .object [("web", .object [("cmd", .array [])])])]) := by
    refine .object ?names ?values (.refl _)
    case names => rfl
    case values => exact .cons (.refl _) (.cons (.refl _) (.cons henv (.cons (.refl _) .nil)))
  refine .object ?names ?values (.refl _)
  case names => rfl
  case values =>
    exact .cons (.refl _)
      (.cons hrelease (.cons (.refl _) (.cons hprocesses (.cons (.refl _) .nil))))

/-- A formation whose maps come in falling order, a comment, then a deletion, a formation without
processes and the end of the replay, cut within the first block. -/
theorem changes_received_of_sample :
    let deletion := { sampleFormation with processes := none }
    let empty := { sampleFormation with processes := some {} }
    let comment : EventStream.Comment := ⟨["keep-alive"], by decide⟩
    let bytes := EventStream.block (some formationName) (render fallingSample) ++
      (comment.bytes ++ [.formation deletion, .formation empty, .replayComplete].flatMap block)
    let changes := [.formation sampleFormation, .formation deletion, .formation empty,
      .replayComplete]
    Carries [bytes.take 50, [], bytes.drop 50].flatten changes ∧
      render fallingSample ≠ ExpandedFormation.codec.encode sampleFormation ∧
      ∃ events, EventStream.decoder.run [bytes.take 50, [], bytes.drop 50] = (events, none) ∧
        (events.map .ok).filterMap Client.readChange = changes.map .ok := by
  intro deletion empty comment bytes changes
  have hcarries : Carries bytes changes :=
    .change (.formation reordered_sample) (.comment comment (changes_received.1 _))
  have hcut : [bytes.take 50, [], bytes.drop 50].flatten = bytes := by simp
  rw [← hcut] at hcarries
  obtain ⟨events, -, hrun, hread⟩ := changes_received.2 hcarries
  exact ⟨hcarries, by decide +kernel, events, hrun, hread⟩

end ChangeStream
end ControlPlane
