import ControlPlane.Cluster.Basic

/-! # Acts, one after another: what a failure leaves is the world as it was by then

What an act may do to the world is told by a relation between the world before and the world after
it. Such a frame holds of acts in sequence if it holds of each, and of those that may fail there is
one for their failures alone.
-/
namespace ControlPlane
variable {σ α β ε ε' : Type} {x : ExceptT ε (StateM σ) α} {k : α → ExceptT ε (StateM σ) β} {a : α}
  {e : ε} {w w' : σ}

theorem bind_of_ok (h : x w = (.ok a, w')) : (x >>= k) w = k a w' := by
  change (match x w with | (r, w') => ExceptT.bindCont k r w') = k a w'
  rw [h]
  rfl

theorem bind_of_error (h : x w = (.error e, w')) : (x >>= k) w = (.error e, w') := by
  change (match x w with | (r, w') => ExceptT.bindCont k r w') = _
  rw [h]
  rfl

theorem adapt_apply (x : ExceptT ε (StateM σ) α) (f : ε → ε') (w : σ) :
    (x.adapt f) w = ((x w).1.mapError f, (x w).2) := rfl

theorem adapt_of_ok (f : ε → ε') (h : x w = (.ok a, w')) : (x.adapt f) w = (.ok a, w') := by
  rw [adapt_apply, h]
  rfl

theorem adapt_of_error (f : ε → ε') (h : x w = (.error e, w')) :
    (x.adapt f) w = (.error (f e), w') := by
  rw [adapt_apply, h]
  rfl

theorem liftM_apply (r : Except ε α) (w : σ) : (liftM r : ExceptT ε (StateM σ) α) w = (r, w) := by
  cases r <;> rfl

/-- What comes before anything is asked of the world leaves it as it is. -/
theorem bind_liftM_congr {k' : α → ExceptT ε (StateM σ) β} {r : Except ε α}
    (h : ∀ a, k a w = k' a w) :
    ((liftM r : ExceptT ε (StateM σ) α) >>= k) w =
      ((liftM r : ExceptT ε (StateM σ) α) >>= k') w := by
  cases r with
  | error e => rw [bind_of_error (liftM_apply _ w), bind_of_error (liftM_apply _ w)]
  | ok a => rw [bind_of_ok (liftM_apply _ w), bind_of_ok (liftM_apply _ w), h a]

/-- What is made of the answer of an act leaves the world as it is. -/
theorem snd_bind_liftM (x : ExceptT ε (StateM σ) α) (f : α → Except ε β) (w : σ) :
    ((do f (← x) : ExceptT ε (StateM σ) β) w).2 = (x w).2 := by
  rcases hx : x w with ⟨e | a, w'⟩
  · rw [bind_of_error hx]
  · rw [bind_of_ok hx, liftM_apply]

theorem bind_eq_error (h : (x >>= k) w = (.error e, w')) :
    x w = (.error e, w') ∨ ∃ a w₁, x w = (.ok a, w₁) ∧ k a w₁ = (.error e, w') := by
  rcases hx : x w with ⟨e' | a, w₁⟩
  · rw [bind_of_error hx] at h
    cases h
    exact .inl rfl
  · rw [bind_of_ok hx] at h
    exact .inr ⟨a, w₁, rfl, h⟩

theorem of_bind_eq_ok {b : β} (h : (x >>= k) w = (.ok b, w')) :
    ∃ a w₁, x w = (.ok a, w₁) ∧ k a w₁ = (.ok b, w') := by
  rcases hx : x w with ⟨e | a, w₁⟩
  · rw [bind_of_error hx] at h
    cases h
  · rw [bind_of_ok hx] at h
    exact ⟨a, w₁, rfl, h⟩

theorem of_adapt_eq_ok {f : ε → ε'} (h : (x.adapt f) w = (.ok a, w')) : x w = (.ok a, w') := by
  rcases hx : x w with ⟨e | a', w₁⟩
  · rw [adapt_of_error f hx] at h
    cases h
  · rw [adapt_of_ok f hx] at h
    cases h
    rfl

/-! ## Frames -/

/-- Whatever comes of the act, the world after it stands to the world before as the relation
says. -/
def Leaves (R : σ → σ → Prop) (x : ExceptT ε (StateM σ) α) : Prop := ∀ w, R w (x w).2

/-- The relation holds where the act fails. -/
def FailsWithin (R : σ → σ → Prop) (x : ExceptT ε (StateM σ) α) : Prop :=
  ∀ ⦃w e w'⦄, x w = (.error e, w') → R w w'

/-- What the act answers has a property. -/
def Answers (P : α → Prop) (x : ExceptT ε (StateM σ) α) : Prop :=
  ∀ ⦃w a w'⦄, x w = (.ok a, w') → P a

section Frames
variable {R : σ → σ → Prop} {P : α → Prop} {Q : β → Prop}

namespace Leaves

theorem of_eq [Std.Refl R] (h : ∀ w, (x w).2 = w) : Leaves R x := by
  intro w
  rw [h]
  exact Std.Refl.refl w

theorem pure [Std.Refl R] (a : α) : Leaves R (Pure.pure a : ExceptT ε (StateM σ) α) :=
  of_eq fun _ => rfl

theorem throw [Std.Refl R] (e : ε) : Leaves R (MonadExcept.throw e : ExceptT ε (StateM σ) α) :=
  of_eq fun _ => rfl

theorem liftM [Std.Refl R] (r : Except ε α) :
    Leaves R (MonadLiftT.monadLift r : ExceptT ε (StateM σ) α) :=
  of_eq fun w => congrArg Prod.snd (liftM_apply r w)

theorem bind_of_answers [Trans R R R] (hx : Leaves R x) (hp : Answers P x)
    (hk : ∀ a, P a → Leaves R (k a)) :
    Leaves R (x >>= k) := by
  intro w
  have hw := hx w
  rcases hrun : x w with ⟨e | a, w₁⟩ <;> rw [hrun] at hw
  · rw [bind_of_error hrun]
    exact hw
  · rw [bind_of_ok hrun]
    exact Trans.trans hw (hk a (hp hrun) w₁)

theorem bind [Trans R R R] (hx : Leaves R x) (hk : ∀ a, Leaves R (k a)) : Leaves R (x >>= k) :=
  hx.bind_of_answers (P := fun _ => True) (fun _ _ _ _ => trivial) fun a _ => hk a

theorem adapt (hx : Leaves R x) (f : ε → ε') : Leaves R (x.adapt f) := by
  intro w
  have hw := hx w
  rcases hrun : x w with ⟨e | a, w₁⟩ <;> rw [hrun] at hw
  · rw [adapt_of_error f hrun]
    exact hw
  · rw [adapt_of_ok f hrun]
    exact hw

theorem failsWithin (hx : Leaves R x) : FailsWithin R x := by
  intro w e w' h
  have hw := hx w
  rwa [h] at hw

end Leaves

namespace Answers

theorem pure {a : α} (h : P a) : Answers P (Pure.pure a : ExceptT ε (StateM σ) α) := by
  rintro _ _ _ ⟨⟩
  exact h

theorem throw (e : ε) : Answers P (MonadExcept.throw e : ExceptT ε (StateM σ) α) := by
  rintro _ _ _ ⟨⟩

theorem bind_of_answers (hx : Answers P x) (hk : ∀ a, P a → Answers Q (k a)) :
    Answers Q (x >>= k) := by
  intro w b w' h
  rcases hrun : x w with ⟨e | a, w₁⟩
  · rw [bind_of_error hrun] at h
    cases h
  · rw [bind_of_ok hrun] at h
    exact hk a (hx hrun) h

theorem bind (hk : ∀ a, Answers Q (k a)) : Answers Q (x >>= k) :=
  bind_of_answers (P := fun _ => True) (fun _ _ _ _ => trivial) fun a _ => hk a

theorem adapt (hx : Answers P x) (f : ε → ε') : Answers P (x.adapt f) := by
  intro w a w' h
  rcases hrun : x w with ⟨e | a', w₁⟩
  · rw [adapt_of_error f hrun] at h
    cases h
  · rw [adapt_of_ok f hrun] at h
    cases h
    exact hx hrun

end Answers

namespace FailsWithin

/-- What only looks may come before what fails. -/
theorem bind [Trans R R R] (hx : Leaves R x) (hk : ∀ a, FailsWithin R (k a)) :
    FailsWithin R (x >>= k) := by
  intro w e w' h
  have hw := hx w
  obtain hfail | ⟨a, w₁, hok, hrest⟩ := bind_eq_error h
  · exact hx.failsWithin hfail
  · rw [hok] at hw
    exact Trans.trans hw (hk a hrest)

/-- What changes the world comes last, before what cannot fail. -/
theorem map (hx : FailsWithin R x) (f : α → β) :
    FailsWithin R (x >>= fun a => Pure.pure (f a)) := by
  intro w e w' h
  obtain hfail | ⟨a, w₁, -, hrest⟩ := bind_eq_error h
  · exact hx hfail
  · cases hrest

end FailsWithin
end Frames
end ControlPlane
