import Mathlib.Tactic.TypeStar

/-!
# Runs that refine a specification

A program and its specification take the same operations, one after the other.  Where a step keeps
the two related exactly under a condition on the state in front of it, a run keeps them related all
the way exactly when all of its steps meet the condition.
-/

namespace Refinement

variable {Op σ τ : Type*}

/-- The steps of a program keep an invariant, and keep related to the specification exactly where
they fit. -/
structure ExactSteps (step : σ → Op → σ) (spec : τ → Op → τ) (Inv : σ → Prop) (Rel : σ → τ → Prop)
    (Fits : σ → Op → Prop) : Prop where
  inv : ∀ s op, Inv s → Inv (step s op)
  rel_iff : ∀ s t op, Inv s → Rel s t → (Rel (step s op) (spec t op) ↔ Fits s op)

namespace ExactSteps

variable {step : σ → Op → σ} {spec : τ → Op → τ} {Inv : σ → Prop} {Rel : σ → τ → Prop}
  {Fits : σ → Op → Prop}

/-- A run keeps related all the way exactly when all of its steps fit. -/
theorem forall_rel_iff (h : ExactSteps step spec Inv Rel Fits) (ops : List Op) {s : σ} {t : τ}
    (hs : Inv s) (hrel : Rel s t) :
    (∀ done todo, ops = done ++ todo → Rel (done.foldl step s) (done.foldl spec t)) ↔
      ∀ done op todo, ops = done ++ op :: todo → Fits (done.foldl step s) op := by
  -- by induction on the operations: the first one fits when the states behind it are related
  induction ops generalizing s t with
  | nil =>
    constructor
    · intro _ done op todo hsplit
      simp at hsplit
    · intro _ done todo hsplit
      obtain ⟨rfl, -⟩ := List.append_eq_nil_iff.mp hsplit.symm
      exact hrel
  | cons op ops ih =>
    have hstep := h.rel_iff s t op hs hrel
    constructor
    · intro hall done op' todo hsplit
      have hfirst : Rel (step s op) (spec t op) := hall [op] ops rfl
      cases done with
      | nil =>
        obtain ⟨rfl, -⟩ := List.cons_eq_cons.mp hsplit
        exact hstep.mp hfirst
      | cons first done =>
        obtain ⟨rfl, hrest⟩ := List.cons_eq_cons.mp hsplit
        refine (ih (h.inv s op hs) hfirst).mp (fun done todo hdone => ?_) done op' todo hrest
        exact hall (op :: done) todo (by rw [hdone, List.cons_append])
    · intro hall done todo hsplit
      cases done with
      | nil => exact hrel
      | cons first done =>
        obtain ⟨rfl, hrest⟩ := List.cons_eq_cons.mp hsplit
        have hfirst := hstep.mpr (hall [] op ops rfl)
        refine (ih (h.inv s op hs) hfirst).mpr (fun done op' todo hdone => ?_) done todo hrest
        exact hall (op :: done) op' todo (by rw [hdone, List.cons_append])

end ExactSteps

end Refinement
