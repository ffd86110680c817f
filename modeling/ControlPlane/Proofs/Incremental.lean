import ControlPlane.Incremental

/-! # What a decoder reads does not depend on how its bytes come in

`Reads` follows a decoder step by step until it waits or fails. A decoder whose items take bytes
always comes to such a point, and draining a buffer gives what was read by then. If moreover no step
looks beyond the bytes that it takes, then bytes that come later change nothing about what was read
before them, so chunks are read as the bytes that they add up to, to their end as well as before it.
-/
namespace ControlPlane.Decoder
variable {σ α ε : Type} {d : Decoder σ α ε} {atEnd : Bool} {state state' : σ} {buffer rest : Bytes}

/-- From a state and a buffer, the items that are taken before the decoder waits or fails, and
where it then stands. -/
inductive Reads (d : Decoder σ α ε) (atEnd : Bool) : σ → Bytes → List α → Progress σ ε → Prop
  | wait {state : σ} {buffer : Bytes} (h : d.step atEnd state buffer = .wait) :
    Reads d atEnd state buffer [] ⟨state, buffer, none⟩
  | fail {state state' : σ} {buffer rest : Bytes} {e : ε}
      (h : d.step atEnd state buffer = .fail e state' rest) :
    Reads d atEnd state buffer [] ⟨state', rest, some e⟩
  | pass {state state' : σ} {buffer rest : Bytes} {items : List α} {p : Progress σ ε}
    (h : d.step atEnd state buffer = .pass state' rest) (more : Reads d atEnd state' rest items p) :
    Reads d atEnd state buffer items p
  | item {state state' : σ} {buffer rest : Bytes} {a : α} {items : List α} {p : Progress σ ε}
    (h : d.step atEnd state buffer = .item a state' rest)
    (more : Reads d atEnd state' rest items p) : Reads d atEnd state buffer (a :: items) p

/-- An item takes a byte at least, and so does what completes none. -/
structure Shrinking (d : Decoder σ α ε) : Prop where
  item : ∀ {atEnd state buffer a state' rest}, d.step atEnd state buffer = .item a state' rest →
    rest.length < buffer.length
  pass : ∀ {atEnd state buffer state' rest}, d.step atEnd state buffer = .pass state' rest →
    rest.length < buffer.length

/-- What is decided before the end is known stays decided, whatever comes behind it. -/
structure Steady (d : Decoder σ α ε) : Prop where
  item : ∀ {state buffer a state' rest}, d.step false state buffer = .item a state' rest →
    ∀ atEnd late, d.step atEnd state (buffer ++ late) = .item a state' (rest ++ late)
  pass : ∀ {state buffer state' rest}, d.step false state buffer = .pass state' rest →
    ∀ atEnd late, d.step atEnd state (buffer ++ late) = .pass state' (rest ++ late)
  fail : ∀ {state buffer e state' rest}, d.step false state buffer = .fail e state' rest →
    ∀ atEnd late, d.step atEnd state (buffer ++ late) = .fail e state' (rest ++ late)

/-! ## Draining -/

namespace Reads
variable {items items' : List α} {p q : Progress σ ε}

theorem unique (h : Reads d atEnd state buffer items p) (h' : Reads d atEnd state buffer items' q) :
    items = items' ∧ p = q := by
  induction h generalizing items' with
  | wait h => cases h' <;> simp_all
  | fail h => cases h' <;> simp_all
  | pass h _ ih =>
    cases h' with
    | pass h' more =>
      rw [h] at h'
      cases h'
      exact ih more
    | _ h' => simp_all
  | item h _ ih =>
    cases h' with
    | item h' more =>
      rw [h] at h'
      cases h'
      obtain ⟨rfl, rfl⟩ := ih more
      exact ⟨rfl, rfl⟩
    | _ h' => simp_all

end Reads

/-- One unit of fuel more than there are bytes is enough. -/
theorem exists_drain_eq (hd : d.Shrinking) (atEnd : Bool) {fuel : Nat}
    (hfuel : buffer.length < fuel) (seen : List α) (state : σ) :
    ∃ items p, Reads d atEnd state buffer items p ∧
      d.drain atEnd fuel seen state buffer = (seen.reverse ++ items, p) := by
  induction fuel generalizing buffer seen state with
  | zero => exact absurd hfuel (Nat.not_lt_zero _)
  | succ fuel ih =>
    rw [drain]
    cases hstep : d.step atEnd state buffer with
    | item a state' rest =>
      have hrest : rest.length < fuel := by
        have := hd.item hstep
        omega
      obtain ⟨items, p, hreads, hdrain⟩ := ih hrest (a :: seen) state'
      exact ⟨a :: items, p, .item hstep hreads, by simpa using hdrain⟩
    | pass state' rest =>
      have hrest : rest.length < fuel := by
        have := hd.pass hstep
        omega
      obtain ⟨items, p, hreads, hdrain⟩ := ih hrest seen state'
      exact ⟨items, p, .pass hstep hreads, hdrain⟩
    | wait => exact ⟨[], _, .wait hstep, by simp⟩
    | fail e state' rest => exact ⟨[], _, .fail hstep, by simp⟩

theorem reads_drainAll (hd : d.Shrinking) (atEnd : Bool) (state : σ) (buffer : Bytes) :
    Reads d atEnd state buffer (d.drainAll atEnd state buffer).1
      (d.drainAll atEnd state buffer).2 := by
  obtain ⟨items, p, hreads, hdrain⟩ :=
    exists_drain_eq hd atEnd (Nat.lt_succ_self buffer.length) [] state
  rw [drainAll, hdrain]
  exact hreads

/-! ## Chunks -/

namespace Reads
variable {items items' : List α} {p q : Progress σ ε}

/-- The decoder goes on from where it waited as if the late bytes had been there before. -/
theorem append (hd : d.Steady) (h : Reads d false state buffer items p) (hp : p.failure = none)
    {late : Bytes} (h' : Reads d atEnd p.state (p.buffer ++ late) items' q) :
    Reads d atEnd state (buffer ++ late) (items ++ items') q := by
  induction h with
  | wait => exact h'
  | fail => cases hp
  | pass h _ ih => exact .pass (hd.pass h atEnd late) (ih hp h')
  | item h _ ih => exact .item (hd.item h atEnd late) (ih hp h')

/-- A decoder that has failed fails in the same way whatever comes. -/
theorem append_of_failure (hd : d.Steady) (h : Reads d false state buffer items p) {e : ε}
    (hp : p.failure = some e) (late : Bytes) (atEnd : Bool) :
    Reads d atEnd state (buffer ++ late) items { p with buffer := p.buffer ++ late } := by
  induction h with
  | wait => cases hp
  | fail h => cases hp; exact .fail (hd.fail h atEnd late)
  | pass h _ ih => exact .pass (hd.pass h atEnd late) (ih hp)
  | item h _ ih => exact .item (hd.item h atEnd late) (ih hp)

end Reads

/-- When the bytes `taken` have come, `items` have been read of them: what comes late is read on
from where the decoder waits, or is not read at all after a failure. -/
structure Reached (d : Decoder σ α ε) (taken : Bytes) (items : List α) (p : Progress σ ε) :
    Prop where
  waiting : p.failure = none →
    ∀ {atEnd late more q}, Reads d atEnd p.state (p.buffer ++ late) more q →
    Reads d atEnd d.start (taken ++ late) (items ++ more) q
  failed : ∀ {e}, p.failure = some e → ∀ atEnd late,
    ∃ q : Progress σ ε, Reads d atEnd d.start (taken ++ late) items q ∧ q.failure = some e

theorem reached_initial (d : Decoder σ α ε) : Reached d [] [] d.initial where
  waiting _ _ _ _ _ h := h
  failed h := by cases h

theorem Reached.feed (hd : d.Shrinking) (hs : d.Steady) {taken : Bytes} {items : List α}
    {p : Progress σ ε} (h : Reached d taken items p) (chunk : Bytes) :
    Reached d (taken ++ chunk) (items ++ (d.feed p chunk).1) (d.feed p chunk).2 := by
  cases hp : p.failure with
  | some e =>
    have hfeed : d.feed p chunk = ([], p) := if_pos (by simp [hp])
    rw [hfeed]
    refine ⟨fun hnone => by simp [hp] at hnone, fun he atEnd late => ?_⟩
    obtain ⟨q, hq, hfail⟩ := h.failed he atEnd (chunk ++ late)
    exact ⟨q, by simpa using hq, hfail⟩
  | none =>
    have hfeed : d.feed p chunk = d.drainAll false p.state (p.buffer ++ chunk) :=
      if_neg (by simp [hp])
    have hmore := reads_drainAll hd false p.state (p.buffer ++ chunk)
    rw [← hfeed] at hmore
    constructor
    · intro hnone atEnd late more q hq
      have hreads := hmore.append hs hnone hq
      rw [List.append_assoc] at hreads
      simpa using h.waiting hp hreads
    · intro e he atEnd late
      have hreads := hmore.append_of_failure hs he late atEnd
      rw [List.append_assoc] at hreads
      have hall := h.waiting hp hreads
      rw [← List.append_assoc] at hall
      exact ⟨_, hall, he⟩

/-- What was read and where the decoder stands after some more chunks. -/
def feedAll (d : Decoder σ α ε) (chunks : List Bytes) (r : List α × Progress σ ε) :
    List α × Progress σ ε :=
  chunks.foldl (fun r chunk => (r.1 ++ (d.feed r.2 chunk).1, (d.feed r.2 chunk).2)) r

theorem run_eq (d : Decoder σ α ε) (chunks : List Bytes) :
    let r := d.feedAll chunks ([], d.initial)
    d.run chunks = (r.1 ++ (d.finish r.2).1, (d.finish r.2).2.failure) :=
  rfl

theorem Reached.feedAll (hd : d.Shrinking) (hs : d.Steady) {taken : Bytes}
    {r : List α × Progress σ ε} (h : Reached d taken r.1 r.2) (chunks : List Bytes) :
    Reached d (taken ++ chunks.flatten) (d.feedAll chunks r).1 (d.feedAll chunks r).2 := by
  induction chunks generalizing taken r with
  | nil => simpa [Decoder.feedAll] using h
  | cons chunk chunks ih =>
    rw [List.flatten_cons, ← List.append_assoc]
    exact ih (h.feed hd hs chunk)

/-- However the bytes are cut, the items and the failure of a run are those of all bytes read
at once to their end. -/
theorem reads_run (hd : d.Shrinking) (hs : d.Steady) (chunks : List Bytes) :
    ∃ q : Progress σ ε, Reads d true d.start chunks.flatten (d.run chunks).1 q ∧
      q.failure = (d.run chunks).2 := by
  have h := Reached.feedAll hd hs (r := ([], d.initial)) (reached_initial d) chunks
  rw [List.nil_append] at h
  rw [run_eq]
  generalize d.feedAll chunks ([], d.initial) = r at h
  cases hp : r.2.failure with
  | some e =>
    have hfinish : d.finish r.2 = ([], r.2) := if_pos (by simp [hp])
    obtain ⟨q, hq, hfail⟩ := h.failed hp true []
    rw [hfinish]
    exact ⟨q, by simpa using hq, by rw [hfail, hp]⟩
  | none =>
    have hfinish : d.finish r.2 = d.drainAll true r.2.state r.2.buffer := if_neg (by simp [hp])
    have hlast := reads_drainAll hd true r.2.state r.2.buffer
    rw [← hfinish, ← List.append_nil r.2.buffer] at hlast
    exact ⟨_, by simpa using h.waiting hp hlast, rfl⟩

/-- What is read of all bytes at once is what a run gives, whatever chunks they come in. -/
theorem run_eq_of_reads (hd : d.Shrinking) (hs : d.Steady) {chunks : List Bytes} {items : List α}
    {q : Progress σ ε} (h : Reads d true d.start chunks.flatten items q) :
    d.run chunks = (items, q.failure) := by
  obtain ⟨q', hrun, hfail⟩ := reads_run hd hs chunks
  obtain ⟨hitems, rfl⟩ := hrun.unique h
  exact Prod.ext hitems hfail.symm

theorem run_flatten (hd : d.Shrinking) (hs : d.Steady) (chunks : List Bytes) :
    d.run [chunks.flatten] = d.run chunks := by
  obtain ⟨q, hrun, hfail⟩ := reads_run hd hs chunks
  have hflat : [chunks.flatten].flatten = chunks.flatten := List.flatten_singleton
  rw [run_eq_of_reads hd hs (hflat.symm ▸ hrun), hfail]

/-! ## Chunks that leave the decoder waiting -/

section Waiting
variable {items : List α} {p q : Progress σ ε} {late : Bytes}

theorem Reads.step_eq_wait (h : Reads d atEnd state buffer items p) (hp : p.failure = none) :
    d.step atEnd p.state p.buffer = .wait := by
  induction h with
  | wait h => exact h
  | fail => cases hp
  | pass _ _ ih => exact ih hp
  | item _ _ ih => exact ih hp

/-- What is read without a failure is read of the bytes that come first, and then of
those that come late. -/
theorem Reads.split (hd : d.Shrinking) (hs : d.Steady)
    (h : Reads d false state (buffer ++ late) items q) (hq : q.failure = none) :
    ∃ first p more, d.drainAll false state buffer = (first, p) ∧ p.failure = none ∧
      d.step false p.state p.buffer = .wait ∧ Reads d false p.state (p.buffer ++ late) more q ∧
      items = first ++ more := by
  have hfirst := reads_drainAll hd false state buffer
  generalize d.drainAll false state buffer = r at hfirst
  cases hp : r.2.failure with
  | some e =>
    obtain ⟨-, rfl⟩ := h.unique (hfirst.append_of_failure hs hp late false)
    rw [hp] at hq
    cases hq
  | none =>
    have hmore := reads_drainAll hd false r.2.state (r.2.buffer ++ late)
    obtain ⟨hitems, hend⟩ := h.unique (hfirst.append hs hp hmore)
    rw [← hend] at hmore
    exact ⟨r.1, r.2, _, rfl, hp, hfirst.step_eq_wait hp, hmore, hitems⟩

/-- Chunks are read as the bytes that they add up to, before the end is known too. -/
theorem feedAll_of_reads (hd : d.Shrinking) (hs : d.Steady) {chunks : List Bytes}
    (hp : p.failure = none) (hwait : d.step false p.state p.buffer = .wait)
    (h : Reads d false p.state (p.buffer ++ chunks.flatten) items q) (hq : q.failure = none)
    (seen : List α) :
    d.feedAll chunks (seen, p) = (seen ++ items, q) := by
  induction chunks generalizing p items seen with
  | nil =>
    rw [List.flatten_nil, List.append_nil] at h
    obtain ⟨rfl, rfl⟩ := h.unique (.wait hwait)
    rw [List.append_nil, ← hp]
    rfl
  | cons chunk chunks ih =>
    rw [List.flatten_cons, ← List.append_assoc] at h
    obtain ⟨first, p', more, hdrain, hp', hwait', hmore, rfl⟩ := h.split hd hs hq
    have hfeed : d.feed p chunk = (first, p') := (if_neg (by simp [hp])).trans hdrain
    rw [← List.append_assoc]
    refine Eq.trans ?_ (ih hp' hwait' hmore (seen ++ first))
    rw [feedAll, List.foldl_cons, hfeed]
    rfl

/-- Where the decoder waits at the end too, a run gives what was read before it. -/
theorem run_of_reads (hd : d.Shrinking) (hs : d.Steady) {chunks : List Bytes}
    (hwait : d.step false d.start [] = .wait) (h : Reads d false d.start chunks.flatten items q)
    (hq : q.failure = none) (hend : d.step true q.state q.buffer = .wait) :
    d.run chunks = (items, none) := by
  have hall := feedAll_of_reads (p := d.initial) hd hs rfl hwait h hq []
  have hfinish : d.finish q = ([], ⟨q.state, q.buffer, none⟩) := by
    rw [finish, if_neg (by simp [hq]), drainAll, drain, hend]
    rfl
  rw [run_eq, hall]
  simp only [hfinish, List.append_nil, List.nil_append]

end Waiting
end ControlPlane.Decoder
