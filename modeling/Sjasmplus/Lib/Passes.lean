import Sjasmplus.Lib.Guardian

/-!
# Passes with a number

`PassesTo pass x n z` says that the programs `pass 0` to `pass (n - 1)`, one after the other, return and
lead from `x` to `z`.  A loop whose turn with the number `k` is such a pass makes these turns
(`PassesTo.turns`).
-/

namespace Program

variable {σ β : Type}

/-- The passes with the numbers below `n` lead from one state to the other. -/
inductive PassesTo (pass : Nat → Program σ Unit) (x : σ) : Nat → σ → Prop
  | zero : PassesTo pass x 0 x
  | succ {n : Nat} {y z : σ} (h : PassesTo pass x n y) (hpass : (pass n).exec y = (some (), z)) :
      PassesTo pass x (n + 1) z

namespace PassesTo

variable {pass : Nat → Program σ Unit} {x y z : σ} {n : Nat}

/-- The passes lead to one state only. -/
theorem unique (h : PassesTo pass x n y) (h' : PassesTo pass x n z) : y = z := by
  induction h generalizing z with
  | zero => cases h'; rfl
  | succ _ hpass ih =>
    cases h' with
    | succ h' hpass' =>
      obtain rfl := ih h'
      exact congrArg Prod.snd (hpass.symm.trans hpass')

/-- Passes that return can be made. -/
theorem of_returns (h : ∀ k < n, ∀ y, PassesTo pass x k y → ∃ z, (pass k).exec y = (some (), z)) :
    ∃ z, PassesTo pass x n z := by
  induction n with
  | zero => exact ⟨x, .zero⟩
  | succ n ih =>
    obtain ⟨y, hy⟩ := ih fun k hk => h k (Nat.lt_succ_of_lt hk)
    obtain ⟨z, hz⟩ := h n (Nat.lt_succ_self n) y hy
    exact ⟨z, hy.succ hz⟩

/-- What holds at first, and from one pass to the next, holds behind the passes. -/
theorem holds {P : Nat → σ → Prop} (h : PassesTo pass x n z) (hfirst : P 0 x)
    (hpass : ∀ k < n, ∀ y z, PassesTo pass x k y → P k y → (pass k).exec y = (some (), z) →
      P (k + 1) z) : P n z := by
  induction h with
  | zero => exact hfirst
  | @succ n y z hy hturn ih =>
    have hprevious := ih fun k hk => hpass k (Nat.lt_succ_of_lt hk)
    exact hpass n (Nat.lt_succ_self n) y z hy hprevious hturn

/-- A loop that makes a pass in each turn. -/
theorem turns {body : β → Program σ (β ⊕ Unit)} {index : Nat → β} (h : PassesTo pass x n z)
    (hturn : ∀ k < n, ∀ y z, PassesTo pass x k y → (pass k).exec y = (some (), z) →
      (body (index k)).exec y = (some (.inl (index (k + 1))), z)) :
    TurnsIn body (index 0, x) n (index n, z) := by
  induction h with
  | zero => exact .zero
  | @succ n y z hy hpass ih =>
    have hprevious := ih fun k hk => hturn k (Nat.lt_succ_of_lt hk)
    exact hprevious.succ (hturn n (Nat.lt_succ_self n) y z hy hpass)

end PassesTo

end Program
