import Mathlib.Logic.Function.Basic

/-!
# Writes to a memory

Writes go to addresses one after the other, and every address stands for a place of the memory, or for
none.  Several addresses may stand for one place.  What a place holds behind the writes is the value of
the last one that went there (`run_last`), and what it held before if there was none
(`run_of_forall_ne`).
-/

namespace Stores

variable {A P V : Type} [DecidableEq P]

/-- A write; an address without a place takes none. -/
def store (place : A → Option P) (memory : P → V) (write : A × V) : P → V :=
  match place write.1 with
  | none => memory
  | some p => Function.update memory p write.2

/-- The memory behind the writes. -/
def run (place : A → Option P) (memory : P → V) (writes : List (A × V)) : P → V :=
  writes.foldl (store place) memory

variable {place : A → Option P} {memory : P → V}

@[simp] theorem run_nil : run place memory [] = memory := rfl

theorem run_singleton (write : A × V) : run place memory [write] = store place memory write := rfl

theorem run_append (writes writes' : List (A × V)) :
    run place memory (writes ++ writes') = run place (run place memory writes) writes' :=
  List.foldl_append

theorem store_of_ne {write : A × V} {p : P} (h : place write.1 ≠ some p) :
    store place memory write p = memory p := by
  unfold store
  cases hplace : place write.1 with
  | none => rfl
  | some q =>
    refine Function.update_of_ne (fun heq => h ?_) _ _
    rw [hplace, heq]

/-- A place that no write goes to keeps its value. -/
theorem run_of_forall_ne {writes : List (A × V)} {p : P} (h : ∀ w ∈ writes, place w.1 ≠ some p) :
    run place memory writes p = memory p := by
  induction writes generalizing memory with
  | nil => rfl
  | cons w writes ih =>
    rw [List.forall_mem_cons] at h
    exact (ih h.2).trans (store_of_ne h.1)

/-- **The last write to a place is what it holds.** -/
theorem run_last {before after : List (A × V)} {a : A} {v : V} {p : P} (ha : place a = some p)
    (h : ∀ w ∈ after, place w.1 ≠ some p) :
    run place memory (before ++ (a, v) :: after) p = v := by
  rw [run_append]
  show run place (store place (run place memory before) (a, v)) after p = v
  rw [run_of_forall_ne h, store, ha]
  exact Function.update_self _ _ _

end Stores
