import ControlPlane.Proofs.Attach.Splice

/-! # A splice comes to its result when its far end closes

Once the far end has written and closed, each round takes all that waits in the output, passes
on what a pipe holds, and has it read. What is still to be passed on shrinks by a pipe, until
nothing is left and the output ends, or its reader is gone and it breaks off. The rounds of a
run are enough for that.
-/
namespace ControlPlane
namespace Forward
variable {f : Forward}

/-- One round of a direction. -/
def pump (f : Forward) : Forward :=
  (((f.take f.source.length).pass pipeSize).read pipeSize).finish

/-- What is still to be passed on. -/
def due (f : Forward) : Bytes := f.held ++ f.source

/-- A direction between two rounds, with nothing more to come: what was passed on has been read. -/
structure Draining (f : Forward) : Prop where
  outcome : f.outcome = none
  isClosed : f.isClosed = true
  sink : f.sink = []

namespace Draining

theorem take_all (h : f.Draining) :
    f.take f.source.length = { f with held := f.due, source := [] } := by
  have hrunning : f.isRunning = true := by simp [isRunning, h.outcome]
  rw [take, if_pos hrunning, List.take_length, List.drop_length]
  rfl

/-- With nothing left to pass on, the direction ends well. -/
theorem pump_of_nil (h : f.Draining) (hdue : f.due = []) :
    f.pump.outcome = some (.ok f.passed) ∧ f.pump.sink = [] := by
  rw [pump, h.take_all, hdue]
  cases hgone : f.readerGone <;>
    simp [pass, read, finish, isRunning, h.outcome, h.isClosed, h.sink]

/-- Without a reader, the first byte that is passed on breaks the direction off. -/
theorem pump_of_gone (h : f.Draining) (hdue : f.due ≠ []) (hgone : f.readerGone = true) :
    f.pump.outcome = some (.error (.io "broken pipe")) := by
  rw [pump, h.take_all]
  simp [pass, read, finish, breakOff, isRunning, h.outcome, hgone, hdue]

/-- With a reader, a pipe full of bytes is passed on and read. -/
theorem pump_of_present (h : f.Draining) (hdue : f.due ≠ []) (hpresent : f.readerGone = false) :
    f.pump = { f with
      held := f.due.drop pipeSize
      source := []
      passed := f.passed + (f.due.take pipeSize).length
      received := f.received ++ f.due.take pipeSize : Forward }.finish := by
  have hdrop : f.due.drop (min pipeSize f.due.length) = f.due.drop pipeSize := by
    rw [List.drop_eq_drop_iff]
    omega
  rw [pump, h.take_all]
  simp [pass, read, isRunning, h.outcome, h.sink, hdue, hpresent, hdrop, List.take_take]

/-- A round brings a direction to its end, or a pipe nearer to it. -/
theorem pump_cases (h : f.Draining) :
    (∃ o, f.pump.outcome = some o ∧ (f.readerGone = false → o.isOk ∧ f.pump.sink = [])) ∨
      f.pump.Draining ∧ f.pump.readerGone = false ∧
      f.pump.due.length + pipeSize = f.due.length := by
  by_cases hdue : f.due = []
  · exact .inl ⟨_, (h.pump_of_nil hdue).1, fun _ => ⟨rfl, (h.pump_of_nil hdue).2⟩⟩
  cases hgone : f.readerGone with
  | true => exact .inl ⟨_, h.pump_of_gone hdue hgone, nofun⟩
  | false =>
    rw [h.pump_of_present hdue hgone]
    by_cases hlast : f.due.drop pipeSize = []
    · refine .inl ⟨.ok (f.passed + (f.due.take pipeSize).length), ?_, fun _ => ⟨rfl, ?_⟩⟩
      · simp [finish, isRunning, h.outcome, h.isClosed, hlast]
      · simp [finish, isRunning, h.outcome, h.isClosed, hlast, h.sink]
    · rw [finish, if_neg (by simpa using fun _ _ => hlast)]
      have hmore : pipeSize < f.due.length := by simpa using hlast
      have hdue' : (f.due.drop pipeSize ++ []).length + pipeSize = f.due.length := by
        rw [List.append_nil, List.length_drop]
        omega
      exact .inr ⟨⟨h.outcome, h.isClosed, h.sink⟩, hgone, hdue'⟩

end Draining

/-- Nothing is written once the writer has closed. -/
theorem written_of_next {isCarried : Bool} {f' : Forward} (hnext : Next isCarried f f')
    (hclosed : f.isClosed = true) : f'.isClosed = true ∧ f'.written = f.written := by
  cases hnext with
  | write bytes => rw [write, if_pos hclosed]; exact ⟨hclosed, rfl⟩
  | close => exact ⟨rfl, rfl⟩
  | read n => rw [read]; split <;> exact ⟨hclosed, rfl⟩
  | leave => exact ⟨hclosed, rfl⟩
  | take n => rw [take]; split <;> exact ⟨hclosed, rfl⟩
  | pass n =>
    simp only [pass, breakOff]
    repeat' split
    all_goals exact ⟨hclosed, rfl⟩
  | finish => rw [finish]; split <;> exact ⟨hclosed, rfl⟩
  | breakOff failure => rw [breakOff]; split <;> exact ⟨hclosed, rfl⟩

theorem written_pump (hclosed : f.isClosed = true) :
    f.pump.isClosed = true ∧ f.pump.written = f.written := by
  have hnext {g g' : Forward} (hstep : Next true g g') (hg : g.isClosed = true ∧
      g.written = f.written) : g'.isClosed = true ∧ g'.written = f.written :=
    ⟨(written_of_next hstep hg.1).1, (written_of_next hstep hg.1).2.trans hg.2⟩
  exact hnext (.finish rfl) (hnext (.read pipeSize) (hnext (.pass pipeSize rfl)
    (hnext (.take f.source.length rfl) ⟨hclosed, rfl⟩)))

theorem received_pump_input (f : Forward) (n m : Nat) :
    ((f.take n).pass m).finish.received = f.received := by
  have htake : (f.take n).received = f.received := by
    rw [take]
    split <;> rfl
  have hpass (f : Forward) : (f.pass m).received = f.received := by
    simp only [pass, breakOff]
    repeat' split
    all_goals rfl
  have hfinish (f : Forward) : f.finish.received = f.received := by
    rw [finish]
    split <;> rfl
  rw [hfinish, hpass, htake]

end Forward

namespace Splice
variable {s : Splice} {peer : Peer} {output : Bytes} {answer : Except Forward.Failure AttachStats}

/-- The moves of the input in a round. -/
def inputMoves (s : Splice) : List Move :=
  [.takeInput s.input.source.length, .passInput Forward.pipeSize, .endInput]

/-- The moves of the output in a round. -/
def outputMoves (s : Splice) : List Move :=
  [.takeOutput s.output.source.length, .passOutput Forward.pipeSize, .clientReads Forward.pipeSize,
    .endOutput, .settle]

theorem round_eq (peer : Peer) (s : Splice) :
    let s₁ := s.steps s.inputMoves
    let s₂ := if s₁.output.isClosed then s₁ else s₁.steps (s₁.movesOf peer)
    round peer s = s₂.steps s₂.outputMoves := rfl

theorem steps_inputMoves (s : Splice) :
    (s.steps s.inputMoves).output = s.output ∧ (s.steps s.inputMoves).result = s.result ∧
      (s.steps s.inputMoves).input.received = s.input.received := by
  cases hcarried : s.carriesInput with
  | false => simp [inputMoves, steps, step, hcarried]
  | true => simp [inputMoves, steps, step, hcarried, Forward.received_pump_input]

theorem steps_outputMoves (hopen : s.result = none) :
    (s.steps s.outputMoves).output = s.output.pump ∧
      (s.steps s.outputMoves).result = (s.steps s.outputMoves).settled := by
  simp [outputMoves, steps, step, hopen, Forward.pump, settled]

/-- A round once the far end has closed. -/
theorem round_of_isClosed (peer : Peer) (hclosed : s.output.isClosed = true)
    (hopen : s.result = none) :
    (round peer s).output = s.output.pump ∧ (round peer s).result = (round peer s).settled := by
  obtain ⟨hout, hresult, -⟩ := s.steps_inputMoves
  rw [round_eq, hout, if_pos hclosed, ← hout]
  exact steps_outputMoves (hresult.trans hopen)

/-- The round in which the far end writes and closes. -/
theorem round_of_unprompted (hpeer : peer.unprompted = (output, true))
    (hclosed : s.output.isClosed = false) (hreceived : s.input.received = [])
    (hopen : s.result = none) :
    (round peer s).output = (s.output.write output).close.pump ∧
      (round peer s).result = (round peer s).settled := by
  obtain ⟨hout, hresult, hin⟩ := s.steps_inputMoves
  have hmoves : (s.steps s.inputMoves).movesOf peer = partWith output := by
    cases peer with
    | writes o => cases hpeer; rfl
    | holds => cases hpeer
    | answers count o =>
      obtain _ | _ | n := count <;> cases hpeer
      simp [movesOf, hin, hreceived]
  rw [round_eq, hout, if_neg (by simp [hclosed]), hmoves]
  have hwritten :
      ((s.steps s.inputMoves).steps (partWith output)).output = (s.output.write output).close := by
    rw [← hout]
    rfl
  rw [← hwritten]
  exact steps_outputMoves (hresult.trans hopen)

/-- A splice is settled with a result as good as that of its output. -/
theorem exists_settled {o : Except Forward.Failure Nat} (ho : s.output.outcome = some o) :
    ∃ answer, s.settled = some answer ∧ answer.isOk = o.isOk := by
  rw [settled, ho]
  cases o with
  | error failure => exact ⟨_, rfl, rfl⟩
  | ok count => exact ⟨_, rfl, rfl⟩

theorem rounds_of_result (hr : s.result = some answer) (fuel : Nat) : rounds peer fuel s = s := by
  cases fuel with
  | zero => rfl
  | succ fuel => rw [rounds, if_pos (by simp [hr])]

/-- The rounds that follow one in which an output that drains was moved. That one has brought it to
its end, or else the next is a pipe nearer to it. -/
theorem rounds_of_pump {fuel : Nat} {f : Forward} (hf : f.Draining) (hout : s.output = f.pump)
    (hresult : s.result = s.settled) (hfuel : f.due.length < (fuel + 1) * Forward.pipeSize) :
    ∃ answer, (rounds peer fuel s).result = some answer ∧
      (f.readerGone = false → answer.isOk ∧ (rounds peer fuel s).output.sink = []) := by
  induction fuel generalizing s f with
  | zero =>
    rcases hf.pump_cases with ⟨o, ho, hend⟩ | ⟨-, -, hdue⟩
    · obtain ⟨answer, hanswer, hok⟩ := exists_settled (hout ▸ ho)
      exact ⟨answer, hresult.trans hanswer, hok ▸ hout ▸ hend⟩
    · omega
  | succ fuel ih =>
    rcases hf.pump_cases with ⟨o, ho, hend⟩ | ⟨hmore, hpresent, hdue⟩
    · obtain ⟨answer, hanswer, hok⟩ := exists_settled (hout ▸ ho)
      rw [rounds_of_result (hresult.trans hanswer)]
      exact ⟨answer, hresult.trans hanswer, hok ▸ hout ▸ hend⟩
    · rw [← hout] at hmore hpresent hdue
      have hopen : s.result = none := by
        rw [hresult, settled, hmore.outcome]
        rfl
      obtain ⟨hout', hresult'⟩ := round_of_isClosed peer hmore.isClosed hopen
      rw [Nat.succ_mul] at hfuel
      obtain ⟨answer, hanswer, hend⟩ := ih hmore hout' hresult' (by omega)
      rw [rounds, if_neg (by simp [hopen])]
      exact ⟨answer, hanswer, fun _ => hend hpresent⟩

theorem written_steps (hclosed : s.output.isClosed = true) (moves : List Move) :
    (s.steps moves).output.isClosed = true ∧ (s.steps moves).output.written = s.output.written := by
  refine List.foldlRecOn (motive := fun s' => s'.output.isClosed = true ∧
    s'.output.written = s.output.written)
      moves step ⟨hclosed, rfl⟩ fun s' ⟨hclosed', hwritten⟩ move _ => ?_
  have hnext := s'.next_step move
  generalize s'.step move = t at hnext ⊢
  cases hnext with
  | idle => exact ⟨hclosed', hwritten⟩
  | input => exact ⟨hclosed', hwritten⟩
  | settle => exact ⟨hclosed', hwritten⟩
  | output hf =>
    obtain ⟨hstill, hsame⟩ := Forward.written_of_next hf hclosed'
    exact ⟨hstill, hsame.trans hwritten⟩

/-- Before the first round, nothing has come through. -/
theorem steps_clientMoves (carriesInput : Bool) (client : Client) :
    let s := ({ carriesInput } : Splice).steps client.moves
    s.result = none ∧ s.output = { readerGone := client.leaves } ∧ s.input.received = [] := by
  obtain ⟨written, halfCloses, leaves⟩ := client
  cases halfCloses <;> cases leaves <;> exact ⟨rfl, rfl, rfl⟩

theorem exists_roundsFor (hpeer : peer.unprompted = (output, true)) (client : Client) :
    ∃ fuel, roundsFor peer client = fuel + 1 ∧ output.length < (fuel + 1) * Forward.pipeSize := by
  have hrounds : roundsFor peer client =
      2 * (client.written.length + output.length) / Forward.pipeSize + 8 := by
    cases peer with
    | writes o => cases hpeer; rfl
    | holds => cases hpeer
    | answers count o => obtain _ | _ | n := count <;> cases hpeer; rfl
  refine ⟨_, hrounds, ?_⟩
  simp only [Forward.pipeSize]
  omega

/-- A splice whose far end writes and closes without being asked comes to a result. If the client
stays, the splice ends well, and the client has read what the far end wrote. -/
theorem run_of_unprompted (hpeer : peer.unprompted = (output, true)) (carriesInput : Bool)
    (client : Client) :
    let s := ({ carriesInput } : Splice).run peer client
    ∃ answer, s.result = some answer ∧
      (client.leaves = false →
        ∃ bytesIn, answer = .ok { bytesIn, bytesOut := output.length } ∧
          s.output.received = output) := by
  intro s
  have hs : s.Conserves := by
    obtain ⟨moves, hmoves⟩ := exists_run { carriesInput } peer client
    exact (congrArg Conserves hmoves).mpr ((conserves_begin carriesInput).steps moves)
  obtain ⟨hopen, hout, hin⟩ := steps_clientMoves carriesInput client
  obtain ⟨fuel, hfuel, henough⟩ := exists_roundsFor hpeer client
  let s₀ := ({ carriesInput } : Splice).steps client.moves
  let f := (s₀.output.write output).close
  have hrun : s = rounds peer fuel (round peer s₀) := by
    change rounds peer (roundsFor peer client) s₀ = _
    rw [hfuel, rounds, if_neg (by simp [s₀, hopen])]
  have hf : f =
      { written := output, isClosed := true, source := output, readerGone := client.leaves } := by
    simp only [f, s₀, hout]
    rfl
  obtain ⟨hround, hresult⟩ := round_of_unprompted hpeer (by rw [hout]) hin hopen
  have hdraining : f.Draining := by
    rw [hf]
    exact ⟨rfl, rfl, rfl⟩
  have hdue : f.due = output := by
    rw [hf]
    rfl
  obtain ⟨answer, hanswer, hend⟩ := rounds_of_pump hdraining hround hresult (hdue.symm ▸ henough)
  rw [← hrun] at hanswer hend
  refine ⟨answer, hanswer, fun hstays => ?_⟩
  obtain ⟨hok, hsink⟩ := hend (by rw [hf]; exact hstays)
  obtain _ | stats := answer
  · cases hok
  have hwritten : s.output.written = output := by
    obtain ⟨hclosed, hpump⟩ := Forward.written_pump hdraining.isClosed
    obtain ⟨moves, hmoves⟩ := exists_rounds peer fuel (round peer s₀)
    rw [← hround] at hclosed hpump
    rw [hrun, hmoves, (written_steps hclosed moves).2, hpump, hf]
  obtain ⟨-, hall, hcount⟩ := hs.output.complete (hs.result stats hanswer).1
  rw [hwritten] at hall hcount
  refine ⟨stats.bytesIn, by rw [← hcount], ?_⟩
  rw [← hall, Forward.delivered, hsink, List.append_nil]

end Splice

/-- A session whose far end writes and closes without being asked returns from its run,
whatever the client does. If the client stays, it has read all that the far end wrote when
the session is closed. -/
theorem AttachSession.run_returns {σ : Type} {session taken : AttachSession σ} {peer : Peer}
    {output : Bytes} (htaken : session.takePeer = .ok (peer, taken))
    (hpeer : peer.unprompted = (output, true)) (client : Splice.Client) :
    ∃ answer, (session.run client).1.result = some answer ∧
      (client.leaves = false → (session.run client).2.state = .closed ∧
        (session.run client).1.received = output ∧
        ∃ bytesIn, answer = .ok { bytesIn, bytesOut := output.length }) := by
  obtain ⟨answer, hanswer, hstays⟩ :=
    Splice.run_of_unprompted hpeer (taken.request.flags.contains .stdin) client
  have hrun : session.run client = taken.runSoFar (taken.splice.run peer client) := by
    rw [run, htaken]
  refine ⟨answer.mapError errorOf, ?_, fun hclient => ?_⟩
  · rw [hrun]
    exact congrArg (Option.map _) hanswer
  · obtain ⟨bytesIn, rfl, hreceived⟩ := hstays hclient
    rw [hrun]
    exact ⟨congrArg stateAfter hanswer, hreceived, bytesIn, rfl⟩

end ControlPlane
