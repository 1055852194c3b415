import Sjasmplus.Lib.Loops

/-!
# Programs that put things back

A run that exits early may leave anything, so a program may take things apart and put them back at its
end: `bracket enter leave body` saves the state, runs `body` from the changed one, and leaves with what
it saved.

`guarded P p` exits where `P` does not hold.  A program that runs like the same one with guards around
its calls only ever makes these calls where the guards hold.  `RunsAlike Inv R p q` says this of `p` and
`q` in the states that meet `Inv`, and that what returns relates the states before and behind it.
-/

namespace Program

variable {σ α β : Type}

/-- Run the body from a changed state, and leave with what was there before. -/
def bracket (enter : σ → σ) (leave : σ → σ → σ) (body : Program σ α) : Program σ α := do
  let s ← get
  modify enter
  let a ← body
  modify (leave s)
  pure a

/-- A body that returns is followed by leaving. -/
theorem exec_bracket (enter : σ → σ) (leave : σ → σ → σ) (body : Program σ α) (s : σ) :
    (bracket enter leave body).exec s = match body.exec (enter s) with
      | (some a, t) => (some a, leave s t)
      | (none, t) => (none, t) := by
  rw [bracket, exec_bind_of_some (exec_get s), exec_bind_of_some (exec_modify enter s), exec_bind]
  rcases body.exec (enter s) with ⟨_ | a, t⟩ <;> rfl

theorem exec_bracket_of_some {enter : σ → σ} {leave : σ → σ → σ} {body : Program σ α} {s t : σ} {a : α}
    (h : body.exec (enter s) = (some a, t)) :
    (bracket enter leave body).exec s = (some a, leave s t) := by
  rw [exec_bracket, h]

theorem exec_bracket_of_none {enter : σ → σ} {leave : σ → σ → σ} {body : Program σ α} {s t : σ}
    (h : body.exec (enter s) = (none, t)) : (bracket enter leave body).exec s = (none, t) := by
  rw [exec_bracket, h]

/-- What holds behind the body, where it exits, and behind leaving, where it returns. -/
theorem final_bracket_of {R : σ → σ → Prop} {P : σ → Prop} {enter : σ → σ} {leave : σ → σ → σ}
    {body : Program σ α} {s : σ} (hbody : Keeps R body) (hexit : ∀ t, R (enter s) t → P t)
    (hleave : ∀ t, R (enter s) t → P (leave s t)) : P ((bracket enter leave body).final s) := by
  rw [bracket, final_bind_of_some (exec_get s), final_bind_of_some (exec_modify enter s)]
  refine final_bind_of_ensures (Ensures.of_keeps hbody) (hexit _ (hbody (enter s))) fun a t ht => ?_
  exact hleave t ht

/-- The program where the condition holds, an exit elsewhere. -/
def guarded (P : σ → Prop) [DecidablePred P] (p : Program σ α) : Program σ α := do
  if P (← get) then p else exit

/-- From this state the two programs run alike, and a run that returns meets the postcondition. -/
def AlikeFrom (s : σ) (p q : Program σ α) (Q : α → σ → Prop) : Prop :=
  p.exec s = q.exec s ∧ Ensures p s Q

/-- From a state that meets the invariant the two programs run alike, and a run that returns relates
the states before and behind it. -/
def RunsAlike (Inv : σ → Prop) (R : σ → σ → Prop) (p q : Program σ α) : Prop :=
  ∀ s, Inv s → AlikeFrom s p q fun _ t => R s t

namespace AlikeFrom

variable {s : σ}

theorem refl {p : Program σ α} {Q : α → σ → Prop} (h : Ensures p s Q) : AlikeFrom s p p Q := ⟨rfl, h⟩

/-- Two programs with the same first part. -/
theorem bind {p : Program σ α} {f g : α → Program σ β} {Q : α → σ → Prop} {Q' : β → σ → Prop}
    (hp : Ensures p s Q) (hf : ∀ a t, Q a t → AlikeFrom t (f a) (g a) Q') :
    AlikeFrom s (p >>= f) (p >>= g) Q' := by
  constructor
  · rw [exec_bind, exec_bind]
    rcases h : p.exec s with ⟨_ | a, t⟩
    · rfl
    · exact (hf a t (hp a t h)).1
  · exact hp.bind fun a t ht => (hf a t ht).2

theorem asks_bind {f : σ → α} {g g' : α → Program σ β} {Q : β → σ → Prop}
    (h : AlikeFrom s (g (f s)) (g' (f s)) Q) : AlikeFrom s (asks f >>= g) (asks f >>= g') Q :=
  h

theorem get_bind {g g' : σ → Program σ β} {Q : β → σ → Prop} (h : AlikeFrom s (g s) (g' s) Q) :
    AlikeFrom s (get >>= g) (get >>= g') Q :=
  h

/-- Two programs with the same last part. -/
theorem bind_right {p q : Program σ α} {f : α → Program σ β} {Q : α → σ → Prop}
    {Q' : β → σ → Prop} (hp : AlikeFrom s p q Q) (hf : ∀ a t, Q a t → Ensures (f a) t Q') :
    AlikeFrom s (p >>= f) (q >>= f) Q' := by
  constructor
  · rw [exec_bind, exec_bind, hp.1]
  · exact hp.2.bind hf

end AlikeFrom

namespace RunsAlike

variable {Inv : σ → Prop} {R : σ → σ → Prop}

theorem modify {f : σ → σ} (h : ∀ s, R s (f s)) :
    RunsAlike Inv R (modify f : Program σ PUnit) (modify f) :=
  fun s _ => ⟨rfl, Ensures.of_exec (exec_modify f s) (h s)⟩

theorem exit : RunsAlike Inv R (exit : Program σ α) exit := fun _ _ => ⟨rfl, Ensures.exit⟩

theorem ite {c : Prop} {_ : Decidable c} {p p' q q' : Program σ α} (hp : RunsAlike Inv R p p')
    (hq : RunsAlike Inv R q q') : RunsAlike Inv R (if c then p else q) (if c then p' else q') := by
  by_cases h : c
  · rw [if_pos h, if_pos h]
    exact hp
  · rw [if_neg h, if_neg h]
    exact hq

/-- A guard that the invariant gives. -/
theorem guard [DecidablePred Inv] {p : Program σ α} (hp : ∀ s, Inv s → Ensures p s fun _ t => R s t) :
    RunsAlike Inv R p (guarded Inv p) := by
  intro s hs
  constructor
  · rw [guarded, exec_bind_of_some (exec_get s), if_pos hs]
  · exact hp s hs

/-- What the body does from the changed state is put right by leaving. -/
theorem bracket {Inv' : σ → Prop} {R' : σ → σ → Prop} {enter : σ → σ} {leave : σ → σ → σ}
    {body body' : Program σ α} (hbody : RunsAlike Inv' R body body')
    (henter : ∀ s, Inv s → Inv' (enter s)) (hleave : ∀ s t, R (enter s) t → R' s (leave s t)) :
    RunsAlike Inv R' (bracket enter leave body) (bracket enter leave body') := by
  intro s hs
  obtain ⟨heq, hensures⟩ := hbody (enter s) (henter s hs)
  constructor
  · rw [Program.bracket, Program.bracket, exec_bind_of_some (exec_get s),
      exec_bind_of_some (exec_get s), exec_bind_of_some (exec_modify enter s),
      exec_bind_of_some (exec_modify enter s), exec_bind, exec_bind, heq]
  · refine Ensures.get_bind (Ensures.modify_bind (hensures.bind ?_))
    intro a t ht
    exact Ensures.modify_bind (Ensures.pure (hleave s t ht))

section

variable [Std.Refl R]

theorem pure (a : α) : RunsAlike Inv R (pure a : Program σ α) (pure a) :=
  fun s _ => ⟨rfl, Ensures.pure (refl s)⟩

theorem get : RunsAlike Inv R (get : Program σ σ) get :=
  fun s _ => ⟨rfl, Ensures.of_exec (exec_get s) (refl s)⟩

theorem asks (f : σ → α) : RunsAlike Inv R (asks f) (asks f) :=
  fun s _ => ⟨rfl, Ensures.of_exec (exec_asks f s) (refl s)⟩

theorem when {c : Prop} {_ : Decidable c} {p q : Program σ Unit} (hp : RunsAlike Inv R p q) :
    RunsAlike Inv R (when c p) (when c q) :=
  ite hp (pure ())

end

/-- The relation keeps the invariant. -/
class Preserves (Inv : σ → Prop) (R : σ → σ → Prop) : Prop where
  inv : ∀ s t, Inv s → R s t → Inv t

variable [Preserves Inv R] [IsTrans σ R]

theorem bind {p q : Program σ α} {f g : α → Program σ β} (hp : RunsAlike Inv R p q)
    (hf : ∀ a, RunsAlike Inv R (f a) (g a)) : RunsAlike Inv R (p >>= f) (q >>= g) := by
  intro s hs
  obtain ⟨heq, hensures⟩ := hp s hs
  constructor
  · rw [exec_bind, exec_bind, ← heq]
    rcases h : p.exec s with ⟨_ | a, t⟩
    · rfl
    · exact (hf a t (Preserves.inv s t hs (hensures a t h))).1
  · refine hensures.bind fun a t hst => ?_
    have hrest := (hf a t (Preserves.inv s t hs hst)).2
    exact hrest.mono fun _ u htu => IsTrans.trans s t u hst htu

theorem loop [Std.Refl R] {body body' : β → Program σ (β ⊕ α)}
    (hbody : ∀ b, RunsAlike Inv R (body b) (body' b)) (fuel : Nat) (b : β) :
    RunsAlike Inv R (loop body fuel b) (loop body' fuel b) := by
  induction fuel generalizing b with
  | zero => exact exit
  | succ fuel ih =>
    refine (hbody b).bind fun turn => ?_
    cases turn with
    | inl b => exact ih b
    | inr a => exact pure a

end RunsAlike

end Program
