import Mathlib.Data.List.Basic
import Mathlib.Tactic.SplitIfs
import Mathlib.Tactic.Ring

/-!
# Counting brackets

A scan for the bracket that closes an opened one counts openings and closings.  `Brackets.depth` is the
number of openings less the number of closings, and in a `Balanced` text no part from the start closes more
than it opens.

* `scan_one_eq_some` — behind an opening bracket the scan ends at the closing bracket behind a balanced
  text.
-/

namespace Brackets

variable {τ : Type} [DecidableEq τ] (opening closing : τ)

/-- What a character adds to the depth. -/
def weight (x : τ) : Int := if x = opening then 1 else if x = closing then -1 else 0

/-- The number of opening brackets, less that of the closing ones. -/
def depth : List τ → Int
  | [] => 0
  | x :: u => weight opening closing x + depth u

/-- The text leads from a depth to 0, and never below. -/
structure Lowers (d : Int) (u : List τ) : Prop where
  total : d + depth opening closing u = 0
  nonneg : ∀ v, v <+: u → 0 ≤ d + depth opening closing v

/-- Everything that is closed was opened, and everything that was opened is closed. -/
abbrev Balanced (u : List τ) : Prop := Lowers opening closing 0 u

/-- The text behind the closing bracket that takes the depth to 0. -/
def scan : Int → List τ → Option (List τ)
  | _, [] => none
  | d, x :: p =>
    if x = opening then scan (d + 1) p
    else if x = closing then (if d - 1 = 0 then some p else scan (d - 1) p)
    else scan d p

variable {opening closing} {d : Int}

theorem lowers_nil : Lowers opening closing d [] ↔ d = 0 := by
  constructor
  · exact fun h => (add_zero d).symm.trans h.total
  · rintro rfl
    exact ⟨rfl, fun v hv => by rw [List.prefix_nil.mp hv]; exact Int.le_refl 0⟩

theorem lowers_cons (hd : 0 ≤ d) {x : τ} {u : List τ} :
    Lowers opening closing d (x :: u) ↔ Lowers opening closing (d + weight opening closing x) u := by
  constructor
  · rintro ⟨htotal, hnonneg⟩
    rw [depth, ← add_assoc] at htotal
    refine ⟨htotal, fun v hv => ?_⟩
    rw [add_assoc]
    exact hnonneg (x :: v) ((List.prefix_cons_inj x).mpr hv)
  · rintro ⟨htotal, hnonneg⟩
    rw [add_assoc] at htotal
    refine ⟨htotal, fun v hv => ?_⟩
    rcases List.prefix_cons_iff.mp hv with rfl | ⟨t, rfl, ht⟩
    · exact hd.trans_eq (add_zero d).symm
    · rw [depth, ← add_assoc]
      exact hnonneg t ht

/-- No text leads back from a depth below 0. -/
theorem not_lowers_of_neg (hd : d < 0) (u : List τ) : ¬Lowers opening closing d u := fun h =>
  absurd (h.nonneg [] List.nil_prefix) (by rw [depth]; omega)

/-- At a depth above 0 the scan ends behind a text that goes down to 0. -/
theorem scan_eq_some (hne : opening ≠ closing) (hd : 0 ≤ d) {p r : List τ} :
    scan opening closing (d + 1) p = some r ↔
      ∃ u, p = u ++ closing :: r ∧ Lowers opening closing d u := by
  induction p generalizing d with
  | nil =>
    constructor
    · exact fun h => absurd h (by simp [scan])
    · rintro ⟨u, hu, -⟩
      exact absurd hu.symm (by simp)
  | cons x p ih =>
    -- the text in front of the closing bracket has a first character, or the bracket is here
    have hcons : (∃ u, x :: p = u ++ closing :: r ∧ Lowers opening closing d u) ↔
        (x = closing ∧ d = 0 ∧ p = r) ∨
          ∃ u, p = u ++ closing :: r ∧
            Lowers opening closing (d + weight opening closing x) u := by
      constructor
      · rintro ⟨_ | ⟨y, u⟩, hu, hlow⟩
        · exact .inl ⟨(List.cons.inj hu).1, lowers_nil.mp hlow, (List.cons.inj hu).2⟩
        · obtain rfl : x = y := (List.cons.inj hu).1
          exact .inr ⟨u, (List.cons.inj hu).2, (lowers_cons hd).mp hlow⟩
      · rintro (⟨rfl, rfl, rfl⟩ | ⟨u, rfl, hlow⟩)
        · exact ⟨[], rfl, lowers_nil.mpr rfl⟩
        · exact ⟨x :: u, rfl, (lowers_cons hd).mpr hlow⟩
    rw [hcons, scan]
    split_ifs with hopen hclose hzero
    · have hw : weight opening closing x = 1 := if_pos hopen
      rw [ih (by omega), hw, or_iff_right fun h => hne (hopen.symm.trans h.1)]
    · have hd0 : d = 0 := by omega
      have hw : weight opening closing x = -1 := by rw [weight, if_neg hopen, if_pos hclose]
      rw [hw, or_iff_left fun ⟨u, _, h⟩ => not_lowers_of_neg (by omega) u h]
      simp [hclose, hd0]
    · have hw : weight opening closing x = -1 := by rw [weight, if_neg hopen, if_pos hclose]
      have hpred : d + 1 - 1 = d + -1 + 1 := by ring
      rw [hpred, ih (by omega), hw, or_iff_right fun h => hzero (by omega)]
    · have hw : weight opening closing x = 0 := by rw [weight, if_neg hopen, if_neg hclose]
      rw [ih hd, hw, add_zero, or_iff_right fun h => hclose h.1]

/-- Behind an opening bracket the scan ends at the closing bracket behind a balanced text. -/
theorem scan_one_eq_some (hne : opening ≠ closing) {p r : List τ} :
    scan opening closing 1 p = some r ↔
      ∃ u, p = u ++ closing :: r ∧ Balanced opening closing u :=
  scan_eq_some hne (Int.le_refl 0)

end Brackets
