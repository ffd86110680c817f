import ControlPlane.Proofs.Attach.Splice
import ControlPlane.Proofs.Cluster.Act

/-! # The states of an attach session, from its beginning to its end

The owner of a session resizes it, and then runs it, hands over its output or lets go of it.
Its state only ever moves forward. A session that was run to the end or let go of is closed
or failed for good. One whose output was handed over stays streaming, also when the output
has ended and nobody has anything of it any more, and so does one whose run was given up:
nobody is left to close it.
-/
namespace ControlPlane

namespace SessionState

def rank : SessionState → Nat
  | requested => 0
  | connected => 1
  | streaming => 2
  | closed | failed => 3

def isFinal : SessionState → Bool
  | closed | failed => true
  | _ => false

/-- A watcher that saw the first state may see the second later. -/
def LeadsTo (a b : SessionState) : Prop := a = b ∨ a.rank < b.rank

theorem LeadsTo.trans {a b c : SessionState} (hab : a.LeadsTo b) (hbc : b.LeadsTo c) :
    a.LeadsTo c := by
  rcases hab with rfl | hab
  · exact hbc
  rcases hbc with rfl | hbc
  · exact .inr hab
  · exact .inr (Nat.lt_trans hab hbc)

end SessionState

namespace AttachSession
variable {σ : Type}

/-- What has become of a session. -/
inductive Stage
  | held
  /-- A run has it, and its splice has come so far. -/
  | spliced (splice : Splice)
  /-- Its output was handed over; so much of it is unread, and it has ended or not. -/
  | handedOver (unread : Bytes) (hasEnded : Bool)
  | letGo
  /-- Its run was given up before it returned. -/
  | abandoned
  /-- Its output was handed over and let go of, at the end or before. -/
  | readOut (atEnd : Bool)

namespace Stage

/-- Nobody has anything of the session any more. -/
def isOver : Stage → Bool
  | held | handedOver .. => false
  | spliced splice => splice.result.isSome
  | letGo | abandoned | readOut _ => true

/-- The session was let go of, or its run has returned. -/
def isSettled : Stage → Bool
  | spliced splice => splice.result.isSome
  | letGo => true
  | _ => false

def state : Stage → SessionState
  | held => .connected
  | spliced splice => stateAfter splice.result
  | letGo => .closed
  | handedOver .. | abandoned | readOut _ => .streaming

end Stage

/-- What is done with a session, and what happens in the meantime. -/
inductive Event
  | resize (width height : UInt16)
  | run
  | move (move : Splice.Move)
  | abandon
  | handOver
  | hostWrites (bytes : Bytes)
  | hostCloses
  | read (n : Nat)
  | endReading
  | letGo

/-- A session in the world of its host. -/
structure Life (σ : Type) where
  world : σ
  session : AttachSession σ
  stage : Stage := .held

namespace Life

/-- What is not possible at a stage changes nothing. Whoever consumes a session
lets go of it in the end. -/
def step (l : Life σ) (event : Event) : Life σ :=
  match l.stage, event with
  | .held, .resize width height => { l with world := (l.session.resize width height l.world).2 }
  | .held, .run =>
    match l.session.takePeer with
    | .ok (_, session) => { l with session, stage := .spliced session.splice }
    | .error _ => { l with session := l.session.drop, stage := .letGo }
  | .held, .handOver =>
    match l.session.intoOutput with
    | .ok (_, session) => { l with session := session.drop, stage := .handedOver [] false }
    | .error _ => { l with session := l.session.drop, stage := .letGo }
  | .held, .letGo => { l with session := l.session.drop, stage := .letGo }
  | .spliced splice, .move move =>
    { l with
      session := (l.session.runSoFar (splice.step move)).2
      stage := .spliced (splice.step move) }
  | .spliced splice, .abandon =>
    if splice.result.isSome then l else { l with session := l.session.drop, stage := .abandoned }
  | .handedOver unread hasEnded, .hostWrites bytes =>
    { l with stage := .handedOver (if hasEnded then unread else unread ++ bytes) hasEnded }
  | .handedOver unread _, .hostCloses => { l with stage := .handedOver unread true }
  | .handedOver unread hasEnded, .read n => { l with stage := .handedOver (unread.drop n) hasEnded }
  | .handedOver unread hasEnded, .endReading =>
    { l with stage := .readOut (unread.isEmpty && hasEnded) }
  | _, _ => l

def steps (l : Life σ) (events : List Event) : Life σ := events.foldl step l

/-- The state of a session is that of its stage, and it has its pipe as long as its owner has it. -/
structure Follows (l : Life σ) : Prop where
  state : l.session.state = l.stage.state
  held : l.stage = .held → l.session.peer.isSome = true
  taken : l.stage ≠ .held → l.session.peer = none

end Life

/-! ## One event -/

/-- What an event may make of a stage. -/
inductive Stage.Next : Stage → Stage → Prop
  | stay (a : Stage) : Next a a
  | run (splice : Splice) (hopen : splice.result = none) : Next .held (.spliced splice)
  | move (splice : Splice) (move : Splice.Move) :
      Next (.spliced splice) (.spliced (splice.step move))
  | abandon (splice : Splice) (hopen : splice.result = none) : Next (.spliced splice) .abandoned
  | handOver : Next .held (.handedOver [] false)
  | letGo : Next .held .letGo
  | goOn (unread unread' : Bytes) (hasEnded hasEnded' : Bool) :
      Next (.handedOver unread hasEnded) (.handedOver unread' hasEnded')
  | endReading (unread : Bytes) (hasEnded atEnd : Bool) :
      Next (.handedOver unread hasEnded) (.readOut atEnd)

namespace Stage
variable {a b : Stage}

theorem isFinal_state (a : Stage) : a.state.isFinal = a.isSettled := by
  cases a with
  | spliced splice =>
    rcases h : splice.result with _ | _ | _ <;> simp [state, isSettled, stateAfter, h] <;> rfl
  | _ => rfl

theorem Next.leadsTo (hnext : Next a b) : a.state.LeadsTo b.state := by
  cases hnext with
  | stay => exact .inl rfl
  | run splice hopen => exact .inr (by simp [state, hopen, stateAfter, SessionState.rank])
  | move splice move =>
    rcases hr : splice.result with _ | r
    · rw [state, state, hr]
      rcases (splice.step move).result with _ | _ | _
      · exact .inl rfl
      · exact .inr (Nat.lt_succ_self _)
      · exact .inr (Nat.lt_succ_self _)
    · exact .inl (by rw [state, state, hr, Splice.result_of_next (splice.next_step move) hr])
  | abandon splice hopen => exact .inl (by simp [state, hopen, stateAfter])
  | handOver => exact .inr (by decide)
  | letGo => exact .inr (by decide)
  | goOn => exact .inl rfl
  | endReading => exact .inl rfl

/-- What nobody has anything of stays as it is. -/
theorem Next.of_isOver (hnext : Next a b) (ha : a.isOver = true) :
    b.isOver = true ∧ b.state = a.state := by
  cases hnext with
  | stay => exact ⟨ha, rfl⟩
  | move splice move =>
    obtain ⟨r, hr⟩ := Option.isSome_iff_exists.1 ha
    have hr' := Splice.result_of_next (splice.next_step move) hr
    exact ⟨Option.isSome_iff_exists.2 ⟨r, hr'⟩, by rw [state, state, hr, hr']⟩
  | abandon splice hopen => simp [isOver, hopen] at ha
  | _ => cases ha

end Stage

namespace Life
variable {l : Life σ} {session : AttachSession σ} {world : σ} {stage : Stage}

theorem takePeer_of_isSome (hpeer : session.peer.isSome = true) :
    ∃ peer, session.takePeer = .ok (peer, { session with peer := none, state := .streaming }) := by
  obtain ⟨peer, hpeer⟩ := Option.isSome_iff_exists.1 hpeer
  exact ⟨peer, by rw [takePeer, hpeer]⟩

theorem follows_taken (hstate : session.state = stage.state) (htaken : session.peer = none)
    (hstage : stage ≠ .held) :
    Follows ⟨world, session, stage⟩ :=
  ⟨hstate, fun h => absurd h hstage, fun _ => htaken⟩

theorem Follows.letGo (h : l.Follows) (hheld : l.stage = .held) :
    Follows { l with session := l.session.drop, stage := .letGo } := by
  have hdrop : l.session.drop = { l.session with state := .closed, peer := none } :=
    if_pos (h.held hheld)
  rw [hdrop]
  exact follows_taken rfl rfl nofun

/-- A session that has given its pipe away keeps its state when it is let go of. -/
theorem Follows.drop_eq (h : l.Follows) (hstage : l.stage ≠ .held) : l.session.drop = l.session :=
  if_neg (by simp [h.taken hstage])

/-- What an event does to a life, by what it makes of its stage. -/
theorem Follows.step (h : l.Follows) (event : Event) :
    (l.step event).Follows ∧ l.stage.Next (l.step event).stage := by
  obtain ⟨world, session, stage⟩ := l
  cases stage with
  | held =>
    obtain ⟨peer, hpeer⟩ := takePeer_of_isSome (h.held rfl)
    cases event with
    | resize width height => exact ⟨⟨h.state, h.held, h.taken⟩, .stay _⟩
    | run =>
      simp only [Life.step, hpeer]
      exact ⟨follows_taken rfl rfl nofun, .run _ rfl⟩
    | handOver =>
      simp only [Life.step, intoOutput, hpeer]
      exact ⟨follows_taken rfl rfl nofun, .handOver⟩
    | letGo => exact ⟨h.letGo rfl, .letGo⟩
    | _ => exact ⟨h, .stay _⟩
  | spliced splice =>
    have htaken : session.peer = none := h.taken nofun
    cases event with
    | move move => exact ⟨follows_taken rfl htaken nofun, .move splice move⟩
    | abandon =>
      simp only [Life.step]
      split
      · exact ⟨h, .stay _⟩
      next hopen =>
        have hopen : splice.result = none := by simpa using hopen
        have hstate : session.state = .streaming := by rw [h.state, Stage.state, hopen, stateAfter]
        rw [h.drop_eq nofun]
        exact ⟨follows_taken hstate htaken nofun, .abandon splice hopen⟩
    | _ => exact ⟨h, .stay _⟩
  | handedOver unread hasEnded =>
    have htaken : session.peer = none := h.taken nofun
    have hstate : session.state = .streaming := h.state
    cases event with
    | hostWrites bytes => exact ⟨follows_taken hstate htaken nofun, .goOn ..⟩
    | hostCloses => exact ⟨follows_taken hstate htaken nofun, .goOn ..⟩
    | read n => exact ⟨follows_taken hstate htaken nofun, .goOn ..⟩
    | endReading => exact ⟨follows_taken hstate htaken nofun, .endReading ..⟩
    | _ => exact ⟨h, .stay _⟩
  | letGo => cases event <;> exact ⟨h, .stay _⟩
  | abandoned => cases event <;> exact ⟨h, .stay _⟩
  | readOut => cases event <;> exact ⟨h, .stay _⟩

/-! ## A whole life -/

theorem Follows.steps (h : l.Follows) (events : List Event) : (l.steps events).Follows :=
  List.foldlRecOn events Life.step h fun _ hl event _ => (hl.step event).1

theorem Follows.leadsTo (h : l.Follows) (events : List Event) :
    l.session.state.LeadsTo (l.steps events).session.state := by
  induction events generalizing l with
  | nil => exact .inl rfl
  | cons event events ih =>
    obtain ⟨hnext, hstage⟩ := h.step event
    have hfirst : l.session.state.LeadsTo (l.step event).session.state := by
      rw [h.state, hnext.state]
      exact hstage.leadsTo
    exact hfirst.trans (ih hnext)

theorem Follows.of_isOver (h : l.Follows) (hover : l.stage.isOver = true) (events : List Event) :
    (l.steps events).stage.isOver = true ∧ (l.steps events).session.state = l.session.state := by
  induction events generalizing l with
  | nil => exact ⟨hover, rfl⟩
  | cons event events ih =>
    obtain ⟨hnext, hstage⟩ := h.step event
    obtain ⟨hover', hsame⟩ := hstage.of_isOver hover
    obtain ⟨hrest, hstate⟩ := ih hnext hover'
    exact ⟨hrest, hstate.trans (by rw [hnext.state, hsame, h.state])⟩

end Life

/-- A session that was just opened is connected and has its pipe. -/
theorem answers_connect_connected (host : HostClient σ) (request : AttachRequest) (wait : Bool) :
    Answers (fun session => session.state = .connected ∧ session.peer.isSome = true)
      (connect host request wait) :=
  .bind fun _ => .bind fun _ => .pure ⟨rfl, rfl⟩

/-- Whatever is done with a session that was opened, its states follow one another from connected
over streaming to closed or failed, and each is that of the stage which the session has come to.
Once nobody has anything of it, its state never changes again. It is closed or failed by then if and
only if its run has returned or it was let go of itself: where its output was handed over, read to
the end and let go of, or its run given up, it stays streaming for good. -/
theorem session_states {host : HostClient σ} {request : AttachRequest} {wait : Bool}
    {world world' : σ} {session : AttachSession σ}
    (hopen : connect host request wait world = (.ok session, world')) (before after : List Event) :
    let l := (Life.mk world' session .held).steps before
    let l' := l.steps after
    session.state = .connected ∧ l.session.state = l.stage.state ∧
    l.session.state.LeadsTo l'.session.state ∧
    (l.stage.isOver = true → l'.stage.isOver = true ∧ l'.session.state = l.session.state) ∧
    (l.session.state.isFinal = true ↔ l.stage.isSettled = true) := by
  intro l l'
  obtain ⟨hconnected, hpeer⟩ := answers_connect_connected host request wait hopen
  have hbegin : (Life.mk world' session .held).Follows :=
    ⟨hconnected, fun _ => hpeer, fun h => absurd rfl h⟩
  have hl : l.Follows := hbegin.steps before
  refine ⟨hconnected, hl.state, hl.leadsTo after, fun hover => hl.of_isOver hover after, ?_⟩
  rw [hl.state, l.stage.isFinal_state]

/-! ## A session with a job that has written its output -/

def sampleOutput : Bytes := [0x66, 0x6F, 0x6F]

def sampleHost : MemoryHost :=
  { id := "host0", incarnation := 0, output := Dict.ofList [("job0", sampleOutput)] }

def sampleConnect : ExceptT AttachError (StateM MemoryCluster) (AttachSession MemoryCluster) :=
  connect (MemoryCluster.client .epoch sampleHost) { job := "job0", flags := .stdout } false

def sampleOpened : AttachSession MemoryCluster where
  host := MemoryCluster.client .epoch sampleHost
  request := { job := "job0", flags := .stdout }
  hasControl := false
  peer := some (.writes sampleOutput)

def sampleWorld : MemoryCluster := ({} : MemoryCluster).putHost sampleHost

/-- The session is run, and its client reads on after the run has returned. -/
theorem session_states_of_run :
    ∃ world, sampleConnect sampleWorld = (.ok sampleOpened, world) ∧
      let l := (Life.mk world sampleOpened .held).steps
        ([.resize 80 24, .run] ++ [.hostWrites sampleOutput, .hostCloses,
        .takeOutput 3, .passOutput 3, .endOutput, .settle].map .move)
      l.session.state = .closed ∧ ∀ events, (l.steps events).session.state = .closed := by
  have hopen : sampleConnect sampleWorld = (.ok sampleOpened, (sampleConnect sampleWorld).2) := rfl
  refine ⟨_, hopen, rfl, fun events => ?_⟩
  obtain ⟨-, -, -, hover, -⟩ := session_states hopen
    ([.resize 80 24, .run] ++ [.hostWrites sampleOutput, .hostCloses,
    .takeOutput 3, .passOutput 3, .endOutput, .settle].map .move) events
  exact (hover rfl).2

/-- The output of a session is handed over, read to its end and let go of. The session streams
on. -/
theorem handed_over_streams_on :
    ∃ world, sampleConnect sampleWorld = (.ok sampleOpened, world) ∧
      let l := (Life.mk world sampleOpened .held).steps [.handOver,
        .hostWrites sampleOutput, .hostCloses, .read sampleOutput.length, .endReading]
      l.stage = .readOut true ∧ l.stage.isOver = true ∧ l.session.state = .streaming :=
  ⟨_, rfl, rfl, rfl, rfl⟩

end AttachSession
end ControlPlane
