import Mathlib.Tactic.ByContra
import Mathlib.Tactic.SplitIfs
import Sjasmplus.Lib.Loops

/-!
# Loops with a guardian

A loop may count its turns down and give up when the count is zero.  `Counts` says what such a loop does
in a turn, in terms of three observations of the state: whether the program still runs, whether the
condition of the loop holds, and the count.  The body of a turn may also set the count to zero.

A loop that starts with a count of `g + 1` is meant to give up exactly when its condition is true more
than `g` times (`Kept`).  It does unless a turn resets the count too early, or the turn after which it
has to give up ends the program (`kept_iff`); with `g` below -1 it never gets to zero by counting.
-/

namespace Program

variable {σ α β : Type}

/-! ### Numbers of turns -/

/-- So many turns lead from one state of a loop to the other. -/
inductive TurnsIn (body : β → Program σ (β ⊕ α)) (x : β × σ) : Nat → β × σ → Prop
  | zero : TurnsIn body x 0 x
  | succ {n : Nat} {y z : β × σ} (h : TurnsIn body x n y)
      (hturn : (body y.1).exec y.2 = (some (.inl z.1), z.2)) : TurnsIn body x (n + 1) z

section

variable {body : β → Program σ (β ⊕ α)} {n : Nat} {x y z : β × σ}

/-- A turn in front of the others. -/
theorem TurnsIn.cons (hturn : (body x.1).exec x.2 = (some (.inl y.1), y.2))
    (h : TurnsIn body y n z) : TurnsIn body x (n + 1) z := by
  induction h with
  | zero => exact TurnsIn.zero.succ hturn
  | succ _ hlast ih => exact ih.succ hlast

/-- Turns behind other turns. -/
theorem TurnsIn.trans {k : Nat} (h : TurnsIn body x n y) (h' : TurnsIn body y k z) :
    TurnsIn body x (n + k) z := by
  induction h' with
  | zero => exact h
  | succ _ hlast ih => exact ih.succ hlast

/-- The turns lead to one state only. -/
theorem TurnsIn.unique (h : TurnsIn body x n y) (h' : TurnsIn body x n z) : y = z := by
  induction h generalizing z with
  | zero => cases h'; rfl
  | succ _ hlast ih =>
    cases h' with
    | succ h' hlast' =>
      rw [ih h', hlast', Prod.mk.injEq, Option.some_inj, Sum.inl.injEq] at hlast
      exact (Prod.ext hlast.1 hlast.2).symm

/-- A loop that goes on for a number of turns has gone on for every smaller one. -/
theorem TurnsIn.of_le {m : Nat} (h : TurnsIn body x n y) (hle : m ≤ n) :
    ∃ z, TurnsIn body x m z := by
  induction h with
  | zero => exact ⟨x, Nat.le_zero.mp hle ▸ .zero⟩
  | succ h hlast ih =>
    rcases Nat.le_succ_iff.mp hle with hle | rfl
    · exact ih hle
    · exact ⟨_, h.succ hlast⟩

/-- Fuel beyond the number of turns does not matter. -/
theorem exec_loop_of_no_turns {fuel : Nat} (h : ∀ y, ¬ TurnsIn body x n y) (hfuel : n ≤ fuel) :
    (loop body fuel x.1).exec x.2 = (loop body n x.1).exec x.2 := by
  induction n generalizing fuel x with
  | zero => exact absurd .zero (h x)
  | succ n ih =>
    obtain ⟨fuel, rfl⟩ : ∃ k, fuel = k + 1 := ⟨fuel - 1, by omega⟩
    rw [loop, loop, exec_bind, exec_bind]
    rcases hturn : (body x.1).exec x.2 with ⟨_ | b | a, t⟩
    · rfl
    · have hrest : ∀ y, ¬ TurnsIn body (b, t) n y := fun y hy => h y (TurnsIn.cons hturn hy)
      exact ih hrest (by omega)
    · rfl

/-- A loop goes on behind its turns with the fuel that is left. -/
theorem exec_loop_of_turns {fuel : Nat} (h : TurnsIn body x n y) (hfuel : n ≤ fuel) :
    (loop body fuel x.1).exec x.2 = (loop body (fuel - n) y.1).exec y.2 := by
  induction h with
  | zero => rfl
  | @succ n y z _ hlast ih =>
    have hleft : fuel - n = (fuel - (n + 1)) + 1 := by omega
    rw [ih (by omega), hleft, loop, exec_bind_of_some hlast]

/-- A loop ends with the turn that gives a result. -/
theorem exec_loop_of_end {fuel : Nat} {a : α} {t : σ} (h : TurnsIn body x n y)
    (hend : (body y.1).exec y.2 = (some (.inr a), t)) (hfuel : n < fuel) :
    (loop body fuel x.1).exec x.2 = (some a, t) := by
  have hleft : fuel - n = (fuel - (n + 1)) + 1 := by omega
  rw [exec_loop_of_turns h (by omega), hleft, loop, exec_bind_of_some hend, exec_pure]

/-- The result of a loop is the one of its last turn. -/
theorem turns_of_exec_loop {fuel : Nat} {a : α} {t : σ}
    (h : (loop body fuel x.1).exec x.2 = (some a, t)) :
    ∃ n y, TurnsIn body x n y ∧ (body y.1).exec y.2 = (some (.inr a), t) := by
  induction fuel generalizing x with
  | zero => simp [loop] at h
  | succ fuel ih =>
    rw [loop, exec_bind] at h
    rcases hturn : (body x.1).exec x.2 with ⟨_ | b | a', u⟩ <;> rw [hturn] at h
    · exact absurd (congrArg Prod.fst h) (Option.some_ne_none a).symm
    · obtain ⟨n, y, hy, hend⟩ := ih (x := (b, u)) h
      exact ⟨n + 1, y, TurnsIn.cons hturn hy, hend⟩
    · dsimp only at h
      rw [exec_pure, Prod.mk.injEq, Option.some_inj] at h
      exact ⟨0, x, .zero, by rw [hturn, h.1, h.2]⟩

/-- A loop that ends goes on behind its turns. -/
theorem exec_loop_behind {fuel : Nat} {a : α} {t : σ}
    (h : (loop body fuel x.1).exec x.2 = (some a, t)) (hturns : TurnsIn body x n y) :
    ∃ left, (loop body left y.1).exec y.2 = (some a, t) := by
  induction hturns with
  | zero => exact ⟨fuel, h⟩
  | succ _ hturn ih =>
    obtain ⟨left, hleft⟩ := ih
    cases left with
    | zero => simp [loop] at hleft
    | succ left =>
      rw [loop, exec_bind_of_some hturn] at hleft
      exact ⟨left, hleft⟩

/-- In a loop that ends every turn returns. -/
theorem exec_turn_of_loop {fuel : Nat} {a : α} {t : σ}
    (h : (loop body fuel x.1).exec x.2 = (some a, t)) (hturns : TurnsIn body x n y) :
    ∃ r u, (body y.1).exec y.2 = (some r, u) := by
  obtain ⟨left, hleft⟩ := exec_loop_behind h hturns
  cases left with
  | zero => simp [loop] at hleft
  | succ left =>
    rw [loop, exec_bind] at hleft
    rcases hturn : (body y.1).exec y.2 with ⟨_ | r, u⟩ <;> rw [hturn] at hleft
    · exact absurd (congrArg Prod.fst hleft) (Option.some_ne_none a).symm
    · exact ⟨r, u, rfl⟩

/-- A loop that takes a measure down ends if all its turns return. -/
theorem exec_whileLoop_of_returns {Inv : σ → Prop} {measure : σ → Nat}
    (hbody : DescendsOn Inv measure body) {b : β} {s : σ} (hs : Inv s)
    (hreturns : ∀ n y, TurnsIn body (b, s) n y → ∃ r u, (body y.1).exec y.2 = (some r, u)) :
    ∃ a t, (whileLoop measure body b).exec s = (some a, t) := by
  induction hm : measure s using Nat.strongRecOn generalizing b s with
  | ind m ih =>
    obtain ⟨r, t, hturn⟩ := hreturns 0 (b, s) .zero
    dsimp only at hturn
    rw [exec_whileLoop_on hbody b hs, exec_bind_of_some hturn]
    cases r with
    | inr a => exact ⟨a, t, rfl⟩
    | inl b' =>
      obtain ⟨ht, hless⟩ := hbody b s hs _ t hturn rfl
      refine ih (measure t) (hm ▸ hless) ht (fun n y hy => ?_) rfl
      exact hreturns (n + 1) y (TurnsIn.cons hturn hy)

/-- Loops whose turns agree wherever the first one gets run alike. -/
theorem exec_loop_of_agree {body' : β → Program σ (β ⊕ α)}
    (h : ∀ n y, TurnsIn body x n y → (body y.1).exec y.2 = (body' y.1).exec y.2) (fuel : Nat) :
    (loop body fuel x.1).exec x.2 = (loop body' fuel x.1).exec x.2 := by
  induction fuel generalizing x with
  | zero => rfl
  | succ fuel ih =>
    rw [loop, loop, exec_bind, exec_bind, ← h 0 x .zero]
    rcases hturn : (body x.1).exec x.2 with ⟨_ | b | a, t⟩
    · rfl
    · exact ih (x := (b, t)) fun n y hy => h (n + 1) y (TurnsIn.cons hturn hy)
    · rfl

end

/-! ### Counting down -/

/-- What a turn of the loop does.  `reports s t` says that the loop gives up between the two states. -/
structure Counts (body : β → Program σ (β ⊕ Unit)) (Inv running holds : σ → Prop) (count : σ → Int)
    (reports : σ → σ → Prop) : Prop where
  stopped : ∀ b s, Inv s → ¬ running s → (body b).exec s = (some (.inr ()), s)
  quiet : ∀ s, ¬ reports s s
  givesUp : ∀ b s, Inv s → running s → count s = 0 →
    ∃ t, (body b).exec s = (some (.inr ()), t) ∧ reports s t
  ends : ∀ b s, Inv s → running s → count s ≠ 0 → ¬ holds s →
    ∃ t, (body b).exec s = (some (.inr ()), t) ∧ ¬ reports s t
  goesOn : ∀ b s, Inv s → running s → count s ≠ 0 → holds s →
    (∃ t, (body b).exec s = (none, t)) ∨
      ∃ b' t, (body b).exec s = (some (.inl b'), t) ∧ Inv t ∧ (count t = count s - 1 ∨ count t = 0)

section

variable (body : β → Program σ (β ⊕ Unit)) (running holds : σ → Prop) (count : σ → Int)
  (reports : σ → σ → Prop) (x : β × σ)

/-- The loop starts its body: it neither ends nor gives up. -/
def Starts (y : β × σ) : Prop := ∀ t, (body y.1).exec y.2 ≠ (some (.inr ()), t)

/-- The condition is found true so many times. -/
def TrueTimes : Nat → Prop
  | 0 => True
  | n + 1 => ∃ y, TurnsIn body x n y ∧ Starts body y

/-- The loop gives up. -/
def Reported : Prop :=
  ∃ n y t, TurnsIn body x n y ∧ (body y.1).exec y.2 = (some (.inr ()), t) ∧ reports y.2 t

/-- A turn sets the count to zero, and the program goes on. -/
def ResetIn (n : Nat) : Prop :=
  ∃ y z : β × σ, TurnsIn body x n y ∧ (body y.1).exec y.2 = (some (.inl z.1), z.2) ∧ running z.2 ∧
    count z.2 ≠ count y.2 - 1

/-- The program does not go on behind so many turns, although the condition was true so many times. -/
def StoppedBehind (n : Nat) : Prop :=
  TrueTimes body x n ∧ ¬ ∃ y, TurnsIn body x n y ∧ running y.2

/-- What the guardian is there for: the body starts at most `max 0 g + 1` times, the loop ends, it gives
up exactly when the condition is true more than `g` times, and otherwise it only ends when the condition
does not hold or the program does not go on. -/
structure Kept (g : Int) : Prop where
  bodies : ∀ n y, TurnsIn body x n y → Starts body y → (n : Int) < max 0 g + 1
  ends : ∃ n, ∀ fuel, n ≤ fuel → (loop body fuel x.1).exec x.2 = (loop body n x.1).exec x.2
  reported_iff : Reported body reports x ↔ ∃ n : Nat, g < n ∧ TrueTimes body x n
  otherwise : ∀ n y t, TurnsIn body x n y → (body y.1).exec y.2 = (some (.inr ()), t) →
    ¬ reports y.2 t → running y.2 → ¬ holds y.2

end

namespace Counts

variable {body : β → Program σ (β ⊕ Unit)} {Inv running holds : σ → Prop} {count : σ → Int}
  {reports : σ → σ → Prop} {x y z : β × σ} {n : Nat}
  (h : Counts body Inv running holds count reports)

include h

/-- A turn that goes on. -/
theorem of_turn (hy : Inv y.2) (hturn : (body y.1).exec y.2 = (some (.inl z.1), z.2)) :
    Inv z.2 ∧ running y.2 ∧ count y.2 ≠ 0 ∧ holds y.2 ∧
      (count z.2 = count y.2 - 1 ∨ count z.2 = 0) := by
  by_cases hrunning : running y.2
  · by_cases hcount : count y.2 = 0
    · obtain ⟨t, ht, -⟩ := h.givesUp y.1 y.2 hy hrunning hcount
      simp [ht] at hturn
    · by_cases hholds : holds y.2
      · rcases h.goesOn y.1 y.2 hy hrunning hcount hholds with ⟨t, ht⟩ | ⟨b, t, ht, hinv, hnext⟩
        · simp [ht] at hturn
        · rw [ht, Prod.mk.injEq, Option.some_inj, Sum.inl.injEq] at hturn
          obtain ⟨-, rfl⟩ := hturn
          exact ⟨hinv, hrunning, hcount, hholds, hnext⟩
      · obtain ⟨t, ht, -⟩ := h.ends y.1 y.2 hy hrunning hcount hholds
        simp [ht] at hturn
  · simp [h.stopped y.1 y.2 hy hrunning] at hturn

theorem inv_of_turns (hx : Inv x.2) (hturns : TurnsIn body x n y) : Inv y.2 := by
  induction hturns with
  | zero => exact hx
  | succ _ hturn ih => exact (h.of_turn ih hturn).1

/-- The body starts exactly where the program runs, the condition holds and the count is not zero. -/
theorem starts_iff (hy : Inv y.2) : Starts body y ↔ running y.2 ∧ count y.2 ≠ 0 ∧ holds y.2 := by
  constructor
  · intro hstarts
    by_cases hrunning : running y.2
    · by_cases hcount : count y.2 = 0
      · obtain ⟨t, ht, -⟩ := h.givesUp y.1 y.2 hy hrunning hcount
        exact absurd ht (hstarts t)
      · refine ⟨hrunning, hcount, ?_⟩
        by_contra hholds
        obtain ⟨t, ht, -⟩ := h.ends y.1 y.2 hy hrunning hcount hholds
        exact hstarts t ht
    · exact absurd (h.stopped y.1 y.2 hy hrunning) (hstarts _)
  · rintro ⟨hrunning, hcount, hholds⟩ t ht
    rcases h.goesOn y.1 y.2 hy hrunning hcount hholds with ⟨u, hu⟩ | ⟨b, u, hu, -⟩ <;> simp [hu] at ht

/-- The loop gives up exactly where the program runs and the count is zero. -/
theorem reported_iff_zero (hx : Inv x.2) :
    Reported body reports x ↔ ∃ n y, TurnsIn body x n y ∧ running y.2 ∧ count y.2 = 0 := by
  constructor
  · rintro ⟨n, y, t, hturns, hexec, hreports⟩
    have hy := h.inv_of_turns hx hturns
    refine ⟨n, y, hturns, ?_⟩
    -- a turn that reports is one of a running program, with the count at zero
    by_cases hrunning : running y.2
    · refine ⟨hrunning, ?_⟩
      by_contra hcount
      -- with a count left the loop goes on, or it ends quietly
      by_cases hholds : holds y.2
      · exact (h.starts_iff hy).mpr ⟨hrunning, hcount, hholds⟩ t hexec
      · obtain ⟨u, hu, hquiet⟩ := h.ends y.1 y.2 hy hrunning hcount hholds
        rw [hexec, Prod.mk.injEq] at hu
        exact hquiet (hu.2 ▸ hreports)
    · rw [h.stopped y.1 y.2 hy hrunning, Prod.mk.injEq] at hexec
      rw [← hexec.2] at hreports
      exact absurd hreports (h.quiet y.2)
  · rintro ⟨n, y, hturns, hrunning, hcount⟩
    obtain ⟨t, ht, hreports⟩ := h.givesUp y.1 y.2 (h.inv_of_turns hx hturns) hrunning hcount
    exact ⟨n, y, t, hturns, ht, hreports⟩

/-- Without a reset the count goes down with the turns. -/
theorem count_eq (hreset : ∀ k < n, ¬ ResetIn body running count x k) (hturns : TurnsIn body x n y)
    (hrunning : running y.2) (hx : Inv x.2) : count y.2 = count x.2 - n := by
  induction hturns with
  | zero => simp
  | @succ n y z hturns hturn ih =>
    have hy := h.inv_of_turns hx hturns
    have hprevious := ih (fun k hk => hreset k (by omega)) (h.of_turn hy hturn).2.1
    have hlast : count z.2 = count y.2 - 1 := by
      by_contra hne
      exact hreset n (by omega) ⟨y, z, hturns, hturn, hrunning, hne⟩
    push_cast
    omega

/-- Where the count is zero there is no further turn. -/
theorem no_turn_of_zero (hx : Inv x.2) (hturns : TurnsIn body x n y)
    (hcount : running y.2 → count y.2 = 0) :
    ∀ z, ¬ TurnsIn body x (n + 1) z := by
  intro z hz
  cases hz with
  | succ hturns' hturn =>
    obtain rfl := hturns.unique hturns'
    obtain ⟨-, hrunning, hne, -⟩ := h.of_turn (h.inv_of_turns hx hturns) hturn
    exact hne (hcount hrunning)

/-- The numbers of turns behind which the condition is true go down to zero. -/
theorem trueTimes_of_le (hx : Inv x.2) {m : Nat} (htrue : TrueTimes body x n) (hle : m ≤ n) :
    TrueTimes body x m := by
  cases m with
  | zero => trivial
  | succ m =>
    obtain ⟨n, rfl⟩ : ∃ k, n = k + 1 := ⟨n - 1, by omega⟩
    obtain ⟨y, hturns, hstarts⟩ := htrue
    rcases Nat.lt_or_eq_of_le hle with hlt | heq
    · obtain ⟨z, hz⟩ := hturns.of_le (show m + 1 ≤ n by omega)
      cases hz with
      | @succ _ w _ hw hturn =>
        obtain ⟨-, hrunning, hcount, hholds, -⟩ := h.of_turn (h.inv_of_turns hx hw) hturn
        exact ⟨w, hw, (h.starts_iff (h.inv_of_turns hx hw)).mpr ⟨hrunning, hcount, hholds⟩⟩
    · obtain rfl : m = n := by omega
      exact ⟨y, hturns, hstarts⟩

/-- Behind as many turns, the condition was true as many times. -/
theorem trueTimes_of_turns (hx : Inv x.2) (hturns : TurnsIn body x n y) : TrueTimes body x n := by
  cases hturns with
  | zero => trivial
  | @succ n w _ hw hturn =>
    obtain ⟨-, hrunning, hcount, hholds, -⟩ := h.of_turn (h.inv_of_turns hx hw) hturn
    exact ⟨w, hw, (h.starts_iff (h.inv_of_turns hx hw)).mpr ⟨hrunning, hcount, hholds⟩⟩

/-- What holds of any such loop. -/
theorem not_holds_of_end (hx : Inv x.2) {t : σ} (hturns : TurnsIn body x n y)
    (hexec : (body y.1).exec y.2 = (some (.inr ()), t)) (hquiet : ¬ reports y.2 t)
    (hrunning : running y.2) : ¬ holds y.2 := by
  have hy := h.inv_of_turns hx hturns
  intro hholds
  by_cases hcount : count y.2 = 0
  · obtain ⟨u, hu, hreports⟩ := h.givesUp y.1 y.2 hy hrunning hcount
    rw [hexec, Prod.mk.injEq] at hu
    exact hquiet (hu.2 ▸ hreports)
  · exact (h.starts_iff hy).mpr ⟨hrunning, hcount, hholds⟩ t hexec

/-- The guardian does its work when the count goes down to zero and the program still runs there. -/
theorem kept_of_counted (hx : Inv x.2) {g : Int} (hg : -1 ≤ g) (hcount : count x.2 = g + 1)
    (hreset : ∀ n, ¬ ResetIn body running count x n)
    (hstopped : ¬ StoppedBehind body running x (g + 1).toNat) :
    Kept body running holds reports x g := by
  -- without a reset the count is what was given, less the turns
  have hcounted {n : Nat} {y : β × σ} (hturns : TurnsIn body x n y) (hrunning : running y.2) :
      count y.2 = g + 1 - n := hcount ▸ h.count_eq (fun k _ => hreset k) hturns hrunning hx
  -- behind that many turns the loop has given up
  have hlast : ∀ y, ¬ TurnsIn body x ((g + 1).toNat + 1) y := by
    intro y hy
    obtain ⟨z, hz⟩ := hy.of_le (Nat.le_succ _)
    refine h.no_turn_of_zero hx hz (fun hrunning => ?_) y hy
    rw [hcounted hz hrunning]
    omega
  constructor
  · intro n y hturns hstarts
    obtain ⟨hrunning, hne, -⟩ := (h.starts_iff (h.inv_of_turns hx hturns)).mp hstarts
    rw [hcounted hturns hrunning] at hne
    by_contra hlarge
    obtain ⟨z, hz⟩ := hturns.of_le (show (g + 1).toNat + 1 ≤ n by omega)
    exact hlast z hz
  · exact ⟨_, fun fuel hfuel => exec_loop_of_no_turns hlast hfuel⟩
  -- giving up is reported exactly where the condition would have gone on
  · rw [h.reported_iff_zero hx]
    constructor
    · rintro ⟨n, y, hturns, hrunning, hzero⟩
      rw [hcounted hturns hrunning] at hzero
      exact ⟨n, by omega, h.trueTimes_of_turns hx hturns⟩
    · rintro ⟨n, hn, htrue⟩
      have htimes := h.trueTimes_of_le hx htrue (show (g + 1).toNat ≤ n by omega)
      rw [StoppedBehind, not_and, not_not] at hstopped
      obtain ⟨y, hturns, hrunning⟩ := hstopped htimes
      refine ⟨_, y, hturns, hrunning, ?_⟩
      rw [hcounted hturns hrunning]
      omega
  · exact fun n y t hturns hexec hquiet hrunning => h.not_holds_of_end hx hturns hexec hquiet hrunning

/-- Below -1 only a reset in the first turn makes the loop give up. -/
theorem kept_of_reset (hx : Inv x.2) {g : Int} (hg : g < -1)
    (hreset : ResetIn body running count x 0) : Kept body running holds reports x g := by
  obtain ⟨y, z, hzero, hturn, hrunning, hne⟩ := hreset
  cases hzero
  obtain ⟨hz, -, -, -, hcount⟩ := h.of_turn hx hturn
  have hcountz : count z.2 = 0 := hcount.resolve_left hne
  -- the one turn sets the count to zero, and the next one gives up
  have hfirst : TurnsIn body x 1 z := TurnsIn.zero.succ hturn
  have hlast := h.no_turn_of_zero hx hfirst fun _ => hcountz
  constructor
  · intro n y hturns hstarts
    by_contra hlarge
    rcases Nat.lt_or_eq_of_le (show 1 ≤ n by omega) with hlt | rfl
    · obtain ⟨w, hw⟩ := hturns.of_le (show 2 ≤ n by omega)
      exact hlast w hw
    · obtain rfl := hfirst.unique hturns
      exact ((h.starts_iff hz).mp hstarts).2.1 hcountz
  · exact ⟨_, fun fuel hfuel => exec_loop_of_no_turns hlast hfuel⟩
  · refine iff_of_true ?_ ⟨0, by omega, trivial⟩
    exact (h.reported_iff_zero hx).mpr ⟨1, z, hfirst, hrunning, hcountz⟩
  · exact fun n y t hturns hexec hquiet hrunning => h.not_holds_of_end hx hturns hexec hquiet hrunning

/-- **Loops with a guardian.**  From a count of `g + 1` the loop does what its guardian is there for if
and only if the count goes down with the turns alone and the turn after which it has to give up does not
end the program; below -1, if and only if the first turn resets the count. -/
theorem kept_iff (hx : Inv x.2) {g : Int} (hcount : count x.2 = g + 1) :
    Kept body running holds reports x g ↔
      if -1 ≤ g then
        (∀ n, ¬ ResetIn body running count x n) ∧ ¬ StoppedBehind body running x (g + 1).toNat
      else ResetIn body running count x 0 := by
  split_ifs with hg
  · refine ⟨fun hkept => ?_, fun hcond => h.kept_of_counted hx hg hcount hcond.1 hcond.2⟩
    have hreset : ∀ n, ¬ ResetIn body running count x n := by
      intro n
      induction n using Nat.strongRecOn with
      | ind n ih =>
        -- the first reset makes the loop give up too early
        rintro ⟨y, z, hturns, hturn, hrunning, hne⟩
        have hy := h.inv_of_turns hx hturns
        obtain ⟨hz, hrunningy, hcounty, hholdsy, hcountz⟩ := h.of_turn hy hturn
        have hzero : count z.2 = 0 := hcountz.resolve_left hne
        have hlast := h.no_turn_of_zero hx (hturns.succ hturn) fun _ => hzero
        have hdown := h.count_eq ih hturns hrunningy hx
        obtain ⟨k, hk, htrue⟩ := hkept.reported_iff.mp
          ((h.reported_iff_zero hx).mpr ⟨n + 1, z, hturns.succ hturn, hrunning, hzero⟩)
        have hbody := hkept.bodies n y hturns ((h.starts_iff hy).mpr ⟨hrunningy, hcounty, hholdsy⟩)
        have hkle : k ≤ n + 1 := by
          by_contra hlarge
          obtain ⟨w, hw, hstarts⟩ := h.trueTimes_of_le hx htrue (show n + 2 ≤ k by omega)
          obtain rfl := (hturns.succ hturn).unique hw
          exact ((h.starts_iff hz).mp hstarts).2.1 hzero
        omega
    refine ⟨hreset, ?_⟩
    rintro ⟨htrue, hstopped⟩
    obtain ⟨n, y, hturns, hrunning, hzero⟩ := (h.reported_iff_zero hx).mp
      (hkept.reported_iff.mpr ⟨(g + 1).toNat, by omega, htrue⟩)
    have hdown := h.count_eq (fun k _ => hreset k) hturns hrunning hx
    obtain rfl : n = (g + 1).toNat := by omega
    exact hstopped ⟨y, hturns, hrunning⟩
  · refine ⟨fun hkept => ?_, fun hreset => h.kept_of_reset hx (by omega) hreset⟩
    obtain ⟨n, y, hturns, hrunning, hzero⟩ := (h.reported_iff_zero hx).mp
      (hkept.reported_iff.mpr ⟨0, by omega, trivial⟩)
    cases hturns with
    | zero => omega
    | @succ n w _ hw hturn =>
      have hinv := h.inv_of_turns hx hw
      obtain ⟨-, hrunningw, hcountw, hholdsw, -⟩ := h.of_turn hinv hturn
      have hbody := hkept.bodies n w hw ((h.starts_iff hinv).mpr ⟨hrunningw, hcountw, hholdsw⟩)
      obtain rfl : n = 0 := by omega
      refine ⟨w, y, hw, hturn, hrunning, ?_⟩
      cases hw
      omega

end Counts

end Program
