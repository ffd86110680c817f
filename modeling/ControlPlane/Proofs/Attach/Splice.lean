import ControlPlane.Attach.Session
import ControlPlane.Cluster.Memory

/-! # Splices lose nothing, repeat nothing and keep the order

Client, host and forwarders move in any order. Whatever they do, each direction is a queue in three
parts: what has been delivered, what its forwarder holds and what waits at the source are together
what was written. A forwarder that ends well has passed all of it on, and where the input is not
carried there is no forwarder that could pass anything.
-/
namespace ControlPlane
namespace Forward
variable {isCarried : Bool} {f f' : Forward}

/-- All that has come to the reader: what it has read, and what it can read. -/
def delivered (f : Forward) : Bytes := f.received ++ f.sink

/-- What may happen to one direction. There is a forwarder only where the direction is carried. -/
inductive Next (isCarried : Bool) (f : Forward) : Forward → Prop
  | write (bytes : Bytes) : Next isCarried f (f.write bytes)
  | close : Next isCarried f f.close
  | read (n : Nat) : Next isCarried f (f.read n)
  | leave : Next isCarried f f.leave
  | take (n : Nat) (hcarried : isCarried = true) : Next isCarried f (f.take n)
  | pass (n : Nat) (hcarried : isCarried = true) : Next isCarried f (f.pass n)
  | finish (hcarried : isCarried = true) : Next isCarried f f.finish
  | breakOff (failure : Failure) (hcarried : isCarried = true) :
      Next isCarried f (f.breakOff failure)

/-- A forwarder comes to an end once. -/
theorem outcome_of_next {o : Except Failure Nat} (hnext : Next isCarried f f')
    (ho : f.outcome = some o) :
    f'.outcome = some o := by
  have hrunning : f.isRunning = false := by simp [isRunning, ho]
  cases hnext with
  | write bytes => rw [write]; split <;> exact ho
  | close => exact ho
  | read n => rw [read]; split <;> exact ho
  | leave => exact ho
  | take n => simpa [take, hrunning] using ho
  | pass n => simpa [pass, hrunning] using ho
  | finish => simpa [finish, hrunning] using ho
  | breakOff failure => simpa [breakOff, hrunning] using ho

/-- Every byte that was written is in its place: delivered, held or still at the source. -/
structure Conserves (isCarried : Bool) (f : Forward) : Prop where
  written : f.delivered ++ (f.held ++ f.source) = f.written
  counted : f.passed = f.delivered.length
  ended : ∀ n, f.outcome = some (.ok n) → f.isClosed = true ∧ f.held ++ f.source = [] ∧ n = f.passed
  silent : isCarried = false → f.delivered = [] ∧ f.held = []

theorem conserves_empty (isCarried : Bool) : Conserves isCarried {} where
  written := rfl
  counted := rfl
  ended _ h := by cases h
  silent _ := ⟨rfl, rfl⟩

namespace Conserves

theorem write (h : Conserves isCarried f) (bytes : Bytes) :
    Conserves isCarried (f.write bytes) := by
  rw [Forward.write]
  split
  · exact h
  next hopen =>
    refine ⟨?_, h.counted, fun n hn => absurd (h.ended n hn).1 hopen, h.silent⟩
    change f.delivered ++ (f.held ++ (f.source ++ bytes)) = f.written ++ bytes
    rw [← h.written]
    simp only [List.append_assoc]

theorem close (h : Conserves isCarried f) : Conserves isCarried f.close :=
  ⟨h.written, h.counted, fun n hn => ⟨rfl, (h.ended n hn).2⟩, h.silent⟩

theorem leave (h : Conserves isCarried f) : Conserves isCarried f.leave :=
  ⟨h.written, h.counted, h.ended, h.silent⟩

/-- To read moves bytes that were delivered before. -/
theorem read (h : Conserves isCarried f) (n : Nat) : Conserves isCarried (f.read n) := by
  rw [Forward.read]
  split
  · exact h
  · have hsame : (f.received ++ f.sink.take n) ++ f.sink.drop n = f.delivered := by
      rw [List.append_assoc, List.take_append_drop, delivered]
    refine ⟨?_, ?_, h.ended, fun hs => ⟨hsame.trans (h.silent hs).1, (h.silent hs).2⟩⟩
    · change (f.received ++ f.sink.take n) ++ f.sink.drop n ++ (f.held ++ f.source) = f.written
      rw [hsame, h.written]
    · change f.passed = ((f.received ++ f.sink.take n) ++ f.sink.drop n).length
      rw [hsame, h.counted]

theorem take (h : Conserves true f) (n : Nat) : Conserves true (f.take n) := by
  rw [Forward.take]
  split
  next hrunning =>
    refine ⟨?_, h.counted, fun m hm => ?_, nofun⟩
    · change f.delivered ++ ((f.held ++ f.source.take n) ++ f.source.drop n) = f.written
      rw [List.append_assoc, List.take_append_drop, h.written]
    · have hnone : f.outcome = none := by simpa [isRunning] using hrunning
      cases hnone.symm.trans hm
  · exact h

theorem breakOff (h : Conserves true f) (failure : Failure) :
    Conserves true (f.breakOff failure) := by
  rw [Forward.breakOff]
  split
  · exact ⟨h.written, h.counted, nofun, nofun⟩
  · exact h

theorem pass (h : Conserves true f) (n : Nat) : Conserves true (f.pass n) := by
  rw [Forward.pass]
  split
  · exact h
  next hbusy =>
    split
    · exact h.breakOff _
    · have hnone : f.outcome = none := by
        rw [Bool.or_eq_true, not_or] at hbusy
        simpa [isRunning] using hbusy.1
      let k := min n (pipeSize - f.sink.length)
      have hdrop : f.held.drop (f.held.take k).length = f.held.drop k := by
        rw [List.length_take, List.drop_eq_drop_iff]
        omega
      refine ⟨?_, ?_, fun m hm => ?_, nofun⟩
      · change f.received ++ (f.sink ++ f.held.take k) ++
          (f.held.drop (f.held.take k).length ++ f.source) = f.written
        have hheld : f.held.take k ++ (f.held.drop k ++ f.source) = f.held ++ f.source := by
          rw [← List.append_assoc, List.take_append_drop]
        rw [hdrop, ← h.written, delivered, ← hheld]
        simp only [List.append_assoc]
      · change f.passed + (f.held.take k).length = (f.received ++ (f.sink ++ f.held.take k)).length
        rw [h.counted, delivered]
        simp only [List.length_append]
        omega
      · cases hnone.symm.trans hm

theorem finish (h : Conserves true f) : Conserves true f.finish := by
  rw [Forward.finish]
  split
  next hdone =>
    simp only [Bool.and_eq_true, List.isEmpty_iff] at hdone
    obtain ⟨⟨⟨-, hclosed⟩, hsource⟩, hheld⟩ := hdone
    refine ⟨h.written, h.counted, fun n hn => ?_, nofun⟩
    cases hn
    exact ⟨hclosed, by simp [hheld, hsource], rfl⟩
  · exact h

theorem next (h : Conserves isCarried f) (hnext : Next isCarried f f') :
    Conserves isCarried f' := by
  cases hnext with
  | write bytes => exact h.write bytes
  | close => exact h.close
  | read n => exact h.read n
  | leave => exact h.leave
  | take n hcarried => subst hcarried; exact h.take n
  | pass n hcarried => subst hcarried; exact h.pass n
  | finish hcarried => subst hcarried; exact h.finish
  | breakOff failure hcarried => subst hcarried; exact h.breakOff failure

/-- What has come is the front of what was written. -/
theorem delivered_prefix (h : Conserves isCarried f) : f.delivered <+: f.written := ⟨_, h.written⟩

/-- A forwarder that has ended well has passed on all that was written, and counted it. -/
theorem complete (h : Conserves isCarried f) {n : Nat} (hn : f.outcome = some (.ok n)) :
    f.isClosed = true ∧ f.delivered = f.written ∧ n = f.written.length := by
  obtain ⟨hclosed, hrest, rfl⟩ := h.ended n hn
  have hall : f.delivered = f.written := by
    rw [← h.written, hrest, List.append_nil]
  exact ⟨hclosed, hall, by rw [h.counted, hall]⟩

end Conserves
end Forward

namespace Splice
variable {s s' : Splice} {r : Except Forward.Failure AttachStats}

/-- What a move may do: nothing, something to one of the directions, or settle
what is not settled yet. -/
inductive Next (s : Splice) : Splice → Prop
  | idle : Next s s
  | input {f : Forward} (hnext : Forward.Next s.carriesInput s.input f) :
      Next s { s with input := f }
  | output {f : Forward} (hnext : Forward.Next true s.output f) : Next s { s with output := f }
  | settle (hopen : s.result = none) : Next s { s with result := s.settled }

theorem next_step (s : Splice) (move : Move) : Next s (s.step move) := by
  cases move with
  | clientWrites bytes => exact .input (.write bytes)
  | clientCloses => exact .input .close
  | clientReads n => exact .output (.read n)
  | clientLeaves => exact .output .leave
  | hostWrites bytes => exact .output (.write bytes)
  | hostCloses => exact .output .close
  | hostReads n => exact .input (.read n)
  | hostLeaves => exact .input .leave
  | takeInput n =>
    rw [step]
    split
    next hcarried => exact .input (.take n hcarried)
    · exact .idle
  | passInput n =>
    rw [step]
    split
    next hcarried => exact .input (.pass n hcarried)
    · exact .idle
  | endInput =>
    rw [step]
    split
    next hcarried => exact .input (.finish hcarried)
    · exact .idle
  | breakInput failure =>
    rw [step]
    split
    next hcarried => exact .input (.breakOff failure hcarried)
    · exact .idle
  | takeOutput n => exact .output (.take n rfl)
  | passOutput n => exact .output (.pass n rfl)
  | endOutput => exact .output (.finish rfl)
  | breakOutput failure => exact .output (.breakOff failure rfl)
  | settle =>
    rw [step]
    split
    · exact .idle
    next hopen => exact .settle (by simpa using hopen)

/-- Both directions keep their bytes, and the counts of a result are those that the
forwarders ended with. -/
structure Conserves (s : Splice) : Prop where
  input : s.input.Conserves s.carriesInput
  output : s.output.Conserves true
  result : ∀ stats, s.result = some (.ok stats) → s.output.outcome = some (.ok stats.bytesOut) ∧
    (stats.bytesIn = 0 ∨ s.input.outcome = some (.ok stats.bytesIn))

theorem conserves_begin (carriesInput : Bool) : Conserves { carriesInput } where
  input := Forward.conserves_empty carriesInput
  output := Forward.conserves_empty true
  result _ h := by cases h

theorem of_settled_eq_ok {stats : AttachStats} (h : s.settled = some (.ok stats)) :
    s.output.outcome = some (.ok stats.bytesOut) ∧
      (stats.bytesIn = 0 ∨ s.input.outcome = some (.ok stats.bytesIn)) := by
  rw [settled, Option.map_eq_some_iff] at h
  obtain ⟨count, hcount, hstats⟩ := h
  cases count with
  | error failure => cases hstats
  | ok bytesOut =>
    cases hstats
    refine ⟨hcount, ?_⟩
    dsimp only
    split
    · rcases hinput : s.input.outcome with _ | failure | bytesIn
      · exact .inl rfl
      · exact .inl rfl
      · exact .inr rfl
    · exact .inl rfl

namespace Conserves

theorem next (h : Conserves s) (hnext : Next s s') : Conserves s' := by
  cases hnext with
  | idle => exact h
  | input hf =>
    refine ⟨h.input.next hf, h.output, fun stats hr => ?_⟩
    obtain ⟨hout, hin⟩ := h.result stats hr
    exact ⟨hout, hin.imp_right (Forward.outcome_of_next hf)⟩
  | output hf =>
    refine ⟨h.input, h.output.next hf, fun stats hr => ?_⟩
    obtain ⟨hout, hin⟩ := h.result stats hr
    exact ⟨Forward.outcome_of_next hf hout, hin⟩
  | settle => exact ⟨h.input, h.output, fun stats hr => of_settled_eq_ok hr⟩

theorem steps (h : Conserves s) (moves : List Move) : Conserves (s.steps moves) :=
  List.foldlRecOn moves step h fun s hs move _ => hs.next (s.next_step move)

end Conserves

theorem result_of_next (hnext : Next s s') (hr : s.result = some r) : s'.result = some r := by
  cases hnext with
  | idle => exact hr
  | input => exact hr
  | output => exact hr
  | settle hopen => cases hopen.symm.trans hr

/-- A result stands, whatever still moves. -/
theorem result_steps (hr : s.result = some r) (moves : List Move) :
    (s.steps moves).result = some r :=
  List.foldlRecOn moves step hr fun s hs move _ => result_of_next (s.next_step move) hs

theorem carriesInput_of_next (hnext : Next s s') : s'.carriesInput = s.carriesInput := by
  cases hnext <;> rfl

theorem carriesInput_steps (s : Splice) (moves : List Move) :
    (s.steps moves).carriesInput = s.carriesInput :=
  List.foldlRecOn (motive := fun s' => s'.carriesInput = s.carriesInput) moves step rfl
    fun s' hs move _ => (carriesInput_of_next (s'.next_step move)).trans hs

/-! ## The run of a client and a far end is one of the orders -/

theorem steps_append (s : Splice) (moves moves' : List Move) :
    s.steps (moves ++ moves') = (s.steps moves).steps moves' :=
  List.foldl_append

theorem exists_round (peer : Peer) (s : Splice) : ∃ moves, round peer s = s.steps moves := by
  rw [round]
  split
  · exact ⟨_, (steps_append ..).symm⟩
  · exact ⟨_, by rw [← steps_append, ← steps_append]⟩

theorem exists_rounds (peer : Peer) (fuel : Nat) (s : Splice) :
    ∃ moves, rounds peer fuel s = s.steps moves := by
  induction fuel generalizing s with
  | zero => exact ⟨[], rfl⟩
  | succ fuel ih =>
    rw [rounds]
    split
    · exact ⟨[], rfl⟩
    · obtain ⟨first, hfirst⟩ := exists_round peer s
      obtain ⟨rest, hrest⟩ := ih (round peer s)
      exact ⟨first ++ rest, by rw [hrest, hfirst, steps_append]⟩

theorem exists_run (s : Splice) (peer : Peer) (client : Client) :
    ∃ moves, s.run peer client = s.steps moves := by
  obtain ⟨moves, hmoves⟩ := exists_rounds peer (roundsFor peer client) (s.steps client.moves)
  exact ⟨client.moves ++ moves, by rw [run, hmoves, steps_append]⟩

end Splice

namespace AttachSession
variable {σ : Type}

/-- However client, host and forwarders take turns in the run of a session: what the client has
got, and what the host has got, is at every time the front of what the other side has written,
and the host gets nothing where the attach carries no input. A run returns once, and leaves the
session closed or failed as it ends well or not. One that ends well has brought all that the
host wrote before it closed its side into the client's pipe, and counts it; of the input it
counts all that the client wrote before it closed its side, or nothing. The run of a client and
a far end is one of these runs. -/
theorem run_lossless {session taken : AttachSession σ} {peer : Peer}
    (htaken : session.takePeer = .ok (peer, taken)) :
    (∀ client, ∃ moves, session.run client = taken.runSoFar (taken.splice.steps moves)) ∧
    ∀ moves,
      let s := taken.splice.steps moves
      let result := (taken.runSoFar s).1.result
      (s.output.received <+: s.output.delivered ∧ s.output.delivered <+: s.output.written) ∧
      (s.input.received <+: s.input.delivered ∧ s.input.delivered <+: s.input.written) ∧
      (session.request.flags.contains .stdin = false → s.input.delivered = []) ∧
      (∀ stats, result = some (.ok stats) →
        s.output.isClosed = true ∧ s.output.delivered = s.output.written ∧
        (s.output.sink = [] → s.output.received = s.output.written) ∧
        stats.bytesOut = s.output.written.length ∧
        (stats.bytesIn = 0 ∨ s.input.isClosed = true ∧ stats.bytesIn = s.input.written.length)) ∧
      ∀ answer, result = some answer →
        (taken.runSoFar s).2.state = (if answer.isOk then .closed else .failed) ∧
        ∀ more, (taken.runSoFar (s.steps more)).1.result = some answer := by
  have hrequest : taken.request = session.request := by
    rw [takePeer] at htaken
    split at htaken <;> cases htaken
    rfl
  constructor
  · intro client
    obtain ⟨moves, hmoves⟩ := Splice.exists_run taken.splice peer client
    exact ⟨moves, by rw [run, htaken, ← hmoves]⟩
  intro moves s result
  have hs : s.Conserves := (Splice.conserves_begin _).steps moves
  have hcarries : s.carriesInput = session.request.flags.contains .stdin := by
    rw [← hrequest]
    exact Splice.carriesInput_steps taken.splice moves
  refine ⟨⟨List.prefix_append .., hs.output.delivered_prefix⟩,
    ⟨List.prefix_append .., hs.input.delivered_prefix⟩,
    fun hmute => (hs.input.silent (hcarries.trans hmute)).1, fun stats hresult =>
      ?_, fun answer hresult => ?_⟩
  · obtain ⟨r, hr, hstats⟩ := Option.map_eq_some_iff.1 hresult
    cases r with
    | error failure => cases hstats
    | ok counts =>
      cases hstats
      obtain ⟨hout, hin⟩ := hs.result stats hr
      obtain ⟨hclosed, hall, hcount⟩ := hs.output.complete hout
      refine ⟨hclosed, hall, fun hread => ?_, hcount, hin.imp_right fun hin => ?_⟩
      · rw [← hall, Forward.delivered, hread, List.append_nil]
      · exact ⟨(hs.input.complete hin).1, (hs.input.complete hin).2.2⟩
  · obtain ⟨r, hr, rfl⟩ := Option.map_eq_some_iff.1 hresult
    refine ⟨?_, fun more => congrArg (Option.map _) (Splice.result_steps hr more)⟩
    rw [runSoFar, hr]
    cases r <;> rfl

/-- A session with a job that reads its input. -/
def sampleSession : AttachSession MemoryCluster where
  host := MemoryCluster.client .epoch { id := "host0", incarnation := 0 }
  request := { job := "job0", flags := .stdin ||| .stdout }
  hasControl := true
  peer := some .holds

/-- The output comes in two parts. It ends while a byte of the input is still on its way,
and is read afterwards. -/
def sampleMoves : List Splice.Move :=
  [.clientWrites [0x69, 0x6E], .hostWrites [0x6F], .takeOutput 5, .takeInput 1,
    .hostWrites [0x75, 0x74], .passOutput 5,
    .clientReads 5, .hostCloses, .passInput 5, .clientCloses, .takeOutput 5, .hostReads 5,
    .passOutput 5, .endOutput, .settle, .clientReads 5, .takeInput 5]

theorem run_lossless_of_interleaving :
    ∃ taken, sampleSession.takePeer = .ok (.holds, taken) ∧
      let s := taken.splice.steps sampleMoves
      (taken.runSoFar s).1.result = some (.ok { bytesIn := 0, bytesOut := 3 }) ∧
      s.output.received = [0x6F, 0x75, 0x74] ∧ s.output.received = s.output.written ∧
      s.input.received = [0x69] ∧ s.input.received <+: s.input.written ∧
      (taken.runSoFar s).2.state = .closed := by
  have htaken : sampleSession.takePeer =
      .ok (.holds, { sampleSession with peer := none, state := .streaming }) := rfl
  obtain ⟨-, hruns⟩ := run_lossless htaken
  obtain ⟨-, ⟨hin, hin'⟩, -, hok, hend⟩ := hruns sampleMoves
  obtain ⟨-, -, hread, -, -⟩ := hok _ rfl
  exact ⟨_, rfl, rfl, rfl, hread rfl, rfl, hin.trans hin', (hend _ rfl).1⟩

end AttachSession
end ControlPlane
