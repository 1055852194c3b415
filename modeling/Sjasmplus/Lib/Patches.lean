import Mathlib.Data.List.Nodup

/-!
# Patches of a memory with keys

A patch holds what belongs under one key, from a place on.  Patches with different keys do not
disturb each other: when they are written one after the other, each is found under its key
(`writeAll_of_mem`), and the other keys keep what they had (`writeAll_of_not_mem`).
-/

/-- A piece of the content under a key. -/
structure Patch (κ α : Type*) where
  key : κ
  base : Nat
  data : List α

namespace Patch

variable {κ α : Type*} [DecidableEq κ]

/-- The memory with the patch written to it. -/
def write (patch : Patch κ α) (memory : κ → Nat → α) : κ → Nat → α := fun key k =>
  if patch.key = key ∧ patch.base ≤ k then patch.data.getD (k - patch.base) (memory key k)
  else memory key k

/-- The memory after a list of patches. -/
def writeAll (patches : List (Patch κ α)) (memory : κ → Nat → α) : κ → Nat → α :=
  patches.foldl (fun memory patch => patch.write memory) memory

@[simp] theorem writeAll_nil (memory : κ → Nat → α) : writeAll [] memory = memory := by
  rw [writeAll, List.foldl_nil]

@[simp] theorem writeAll_cons (patch : Patch κ α) (patches : List (Patch κ α))
    (memory : κ → Nat → α) :
    writeAll (patch :: patches) memory = writeAll patches (patch.write memory) := by
  rw [writeAll, List.foldl_cons, writeAll]

section

variable {patch : Patch κ α} {patches : List (Patch κ α)} {key : κ} {memory memory' : κ → Nat → α}

/-- Other keys keep what they had. -/
theorem write_of_ne (h : patch.key ≠ key) : patch.write memory key = memory key := by
  ext k
  simp [write, h]

/-- What a patch leaves under a key depends on that key only. -/
theorem write_congr (h : memory key = memory' key) :
    patch.write memory key = patch.write memory' key := by
  ext k
  simp [write, h]

/-- A place inside of the patch. -/
theorem write_of_lt {k : Nat} (h : k < patch.data.length) :
    patch.write memory patch.key (patch.base + k) = patch.data[k] := by
  simp [write, h]

theorem writeAll_of_not_mem (h : key ∉ patches.map Patch.key) :
    writeAll patches memory key = memory key := by
  induction patches generalizing memory with
  | nil => rw [writeAll_nil]
  | cons head patches ih =>
    rw [List.map_cons, List.mem_cons, not_or] at h
    rw [writeAll_cons, ih h.2]
    exact write_of_ne (Ne.symm h.1)

/-- A patch is found under its key, whatever else is written. -/
theorem writeAll_of_mem (hkeys : (patches.map Patch.key).Nodup) (h : patch ∈ patches) :
    writeAll patches memory patch.key = patch.write memory patch.key := by
  induction patches generalizing memory with
  | nil => exact absurd h List.not_mem_nil
  | cons head patches ih =>
    rw [List.map_cons, List.nodup_cons] at hkeys
    rw [writeAll_cons]
    rcases List.mem_cons.mp h with rfl | hmem
    · exact writeAll_of_not_mem hkeys.1
    · have hne : head.key ≠ patch.key := fun heq =>
        hkeys.1 (heq ▸ List.mem_map_of_mem hmem)
      rw [ih hkeys.2 hmem]
      exact write_congr (write_of_ne hne)

end

end Patch
