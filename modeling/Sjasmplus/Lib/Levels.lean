import Mathlib.Data.List.Basic
import Mathlib.Data.List.Induction
import Mathlib.Data.List.Sort
import Mathlib.Order.Basic

/-!
# What is open on levels

The steps of a run open entries, each on a level, and every step is a boundary for some levels: it
closes the open entries on them.  So an entry is open until the first later boundary of its level, and
that is how `openAfter` reads it off the steps of a run.

Open entries on strictly increasing levels can be kept on a stack.  When a boundary for a level is one
for the higher levels too, it takes what it closes off the top of the stack (`takeWhile_eq_filter`,
`dropWhile_eq_filter`).
-/

namespace Levels

variable {L α : Type*}

/-- One step of a run: the levels that it is a boundary for, and the entry that it opens. -/
structure Turn (L α : Type*) where
  closes : L → Bool
  opens : Option α

/-- None of the steps is a boundary for the level. -/
def outlives (turns : List (Turn L α)) (l : L) : Bool := turns.all (!·.closes l)

/-- The entries that are open behind the steps, the latest first: those without a later boundary for
their level. -/
def openAfter (level : α → L) : List (Turn L α) → List α
  | [] => []
  | turn :: turns =>
    openAfter level turns ++ (turn.opens.filter fun a => outlives turns (level a)).toList

theorem outlives_concat (turns : List (Turn L α)) (turn : Turn L α) (l : L) :
    outlives (turns ++ [turn]) l = (outlives turns l && !turn.closes l) := by
  simp [outlives]

/-- **What one more step does**: it closes what is open on its levels, and opens its own entry. -/
theorem openAfter_concat (level : α → L) (turns : List (Turn L α)) (turn : Turn L α) :
    openAfter level (turns ++ [turn])
      = turn.opens.toList ++ (openAfter level turns).filter fun a => !turn.closes (level a) := by
  induction turns with
  | nil =>
    rcases h : turn.opens with _ | a <;> simp [openAfter, outlives, h]
  | cons first turns ih =>
    have hfirst : (first.opens.filter fun a => outlives (turns ++ [turn]) (level a)).toList
        = (first.opens.filter fun a => outlives turns (level a)).toList.filter
          fun a => !turn.closes (level a) := by
      rcases first.opens with _ | a
      · rfl
      · rw [Option.filter_some, Option.filter_some, outlives_concat]
        rcases outlives turns (level a) with _ | _
        · rfl
        · rcases h : turn.closes (level a) with _ | _ <;> simp [h]
    rw [List.cons_append, openAfter, ih, hfirst, List.append_assoc, openAfter, List.filter_append]

/-! ### Entries on strictly increasing levels -/

variable [LinearOrder L]

section Stack

variable {level : α → L} {closes : L → Bool} {stack : List α}

/-- What a boundary takes off the top of a stack is all that it closes. -/
theorem takeWhile_eq_filter (hstack : stack.Pairwise fun a b => level b < level a)
    (hupward : ∀ l l', l ≤ l' → closes l = true → closes l' = true) :
    (stack.takeWhile fun a => closes (level a)) = stack.filter fun a => closes (level a) := by
  induction stack with
  | nil => rfl
  | cons a stack ih =>
    obtain ⟨hbelow, hrest⟩ := List.pairwise_cons.mp hstack
    by_cases ha : closes (level a) = true
    · rw [List.takeWhile_cons_of_pos (p := fun a => closes (level a)) ha,
        List.filter_cons_of_pos (p := fun a => closes (level a)) ha, ih hrest]
    · have hnone : ∀ b ∈ stack, ¬closes (level b) = true :=
        fun b hb h => ha (hupward _ _ (hbelow b hb).le h)
      rw [List.takeWhile_cons_of_neg (p := fun a => closes (level a)) ha,
        List.filter_cons_of_neg (p := fun a => closes (level a)) ha, List.filter_eq_nil_iff.mpr hnone]

/-- What it leaves is all that it does not close. -/
theorem dropWhile_eq_filter (hstack : stack.Pairwise fun a b => level b < level a)
    (hupward : ∀ l l', l ≤ l' → closes l = true → closes l' = true) :
    (stack.dropWhile fun a => closes (level a)) = stack.filter fun a => !closes (level a) := by
  induction stack with
  | nil => rfl
  | cons a stack ih =>
    obtain ⟨hbelow, hrest⟩ := List.pairwise_cons.mp hstack
    by_cases ha : closes (level a) = true
    · rw [List.dropWhile_cons_of_pos (p := fun a => closes (level a)) ha,
        List.filter_cons_of_neg (by simp [ha]), ih hrest]
    · have hall : ∀ b ∈ stack, (!closes (level b)) = true := by
        intro b hb
        simpa using fun h => ha (hupward _ _ (hbelow b hb).le h)
      rw [List.dropWhile_cons_of_neg (p := fun a => closes (level a)) ha,
        List.filter_cons_of_pos (by simpa using ha), List.filter_eq_self.mpr hall]

end Stack

end Levels
