import Sjasmplus.Lib.Program

/-!
# Loops that take the state down

A `while` loop that may go on as long as it likes is not a structural recursion, so `loop` has fuel.
When every turn makes a measure of the state smaller, fuel beyond the measure does not matter
(`exec_loop_congr`), and `whileLoop`, whose fuel is the measure, meets the equation of a loop
(`exec_whileLoop`): it never runs out.  The turns may rely on an invariant that they keep
(`exec_whileLoop_on`).
-/

namespace Program

variable {σ α β γ : Type}

/-- A function of the state. -/
def asks (f : σ → α) : Program σ α := do return f (← get)

@[simp] theorem exec_asks (f : σ → α) (s : σ) : (asks f).exec s = (some (f s), s) := rfl

theorem Ensures.asks_bind {f : σ → α} {g : α → Program σ β} {s : σ} {Q : β → σ → Prop}
    (hg : Ensures (g (f s)) s Q) : Ensures (asks f >>= g) s Q :=
  Ensures.get_bind hg

theorem Ensures.modify_bind {f : σ → σ} {g : PUnit → Program σ β} {s : σ} {Q : β → σ → Prop}
    (hg : Ensures (g ⟨⟩) (f s) Q) : Ensures (modify f >>= g) s Q := by
  intro b t hexec
  rw [exec_bind_of_some (exec_modify f s)] at hexec
  exact hg b t hexec

/-! ### Loops -/

/-- A loop with a variable of type `β`: its body gives the next value, or the result.  Without fuel the
program exits. -/
def loop (body : β → Program σ (β ⊕ α)) : Nat → β → Program σ α
  | 0, _ => exit
  | fuel + 1, b => do
    match ← body b with
    | .inl b => loop body fuel b
    | .inr a => pure a

/-- A loop with as much fuel as the measure asks for. -/
def whileLoop (measure : σ → Nat) (body : β → Program σ (β ⊕ α)) (b : β) : Program σ α := do
  let fuel ← asks measure
  loop body (fuel + 1) b

/-- A turn that goes on makes the measure smaller. -/
def Descends (measure : σ → Nat) (body : β → Program σ (β ⊕ α)) : Prop :=
  ∀ b s, Ensures (body b) s fun turn t => turn.isLeft → measure t < measure s

/-- So does a turn from a state that meets the invariant, and it keeps the invariant. -/
def DescendsOn (Inv : σ → Prop) (measure : σ → Nat) (body : β → Program σ (β ⊕ α)) : Prop :=
  ∀ b s, Inv s → Ensures (body b) s fun turn t => turn.isLeft → Inv t ∧ measure t < measure s

variable {Inv : σ → Prop} {measure : σ → Nat} {body : β → Program σ (β ⊕ α)}

theorem Descends.on (hbody : Descends measure body) : DescendsOn (fun _ => True) measure body :=
  fun b s _ => (hbody b s).mono fun _ _ h hleft => ⟨trivial, h hleft⟩

/-- Fuel beyond the measure does not matter. -/
theorem exec_loop_congr (hbody : DescendsOn Inv measure body) {n m : Nat} {b : β} {s : σ} (hs : Inv s)
    (hn : measure s < n) (hm : measure s < m) :
    (loop body n b).exec s = (loop body m b).exec s := by
  induction n generalizing m b s with
  | zero => exact absurd hn (Nat.not_lt_zero _)
  | succ n ih =>
    obtain ⟨m, rfl⟩ : ∃ k, m = k + 1 := ⟨m - 1, by omega⟩
    rw [loop, loop, exec_bind, exec_bind]
    rcases hturn : (body b).exec s with ⟨_ | b' | a, t⟩
    · rfl
    · obtain ⟨ht, hless⟩ := hbody b s hs _ t hturn rfl
      exact ih ht (by omega) (by omega)
    · rfl

/-- The equation of a `while` loop whose turns rely on an invariant. -/
theorem exec_whileLoop_on (hbody : DescendsOn Inv measure body) (b : β) {s : σ} (hs : Inv s) :
    (whileLoop measure body b).exec s =
      (body b >>= fun turn => match turn with
        | .inl b => whileLoop measure body b
        | .inr a => pure a).exec s := by
  rw [whileLoop, exec_bind_of_some (exec_asks measure s), loop, exec_bind, exec_bind]
  rcases hturn : (body b).exec s with ⟨_ | b' | a, t⟩
  · rfl
  · obtain ⟨ht, hless⟩ := hbody b s hs _ t hturn rfl
    dsimp only
    rw [whileLoop, exec_bind_of_some (exec_asks measure t)]
    exact exec_loop_congr hbody ht hless (Nat.lt_succ_self _)
  · rfl

/-- The equation of a `while` loop. -/
theorem exec_whileLoop (hbody : Descends measure body) (b : β) (s : σ) :
    (whileLoop measure body b).exec s =
      (body b >>= fun turn => match turn with
        | .inl b => whileLoop measure body b
        | .inr a => pure a).exec s :=
  exec_whileLoop_on hbody.on b trivial

/-! ### What a loop keeps -/

theorem Keeps.loop {R : σ → σ → Prop} [Std.Refl R] [IsTrans σ R] (hbody : ∀ b, Keeps R (body b))
    (fuel : Nat) (b : β) : Keeps R (loop body fuel b) := by
  induction fuel generalizing b with
  | zero => exact Keeps.exit
  | succ fuel ih =>
    apply (hbody b).bind
    intro turn
    cases turn with
    | inl b => exact ih b
    | inr a => exact Keeps.pure a

theorem Keeps.asks {R : σ → σ → Prop} [Std.Refl R] (f : σ → α) : Keeps R (Program.asks f) :=
  fun s => refl s

theorem Keeps.whileLoop {R : σ → σ → Prop} [Std.Refl R] [IsTrans σ R]
    (hbody : ∀ b, Keeps R (body b)) (b : β) : Keeps R (whileLoop measure body b) :=
  (Keeps.asks measure).bind fun fuel => Keeps.loop hbody (fuel + 1) b

end Program
