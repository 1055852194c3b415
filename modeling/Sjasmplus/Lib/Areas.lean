import Mathlib.Algebra.GroupWithZero.Nat
import Mathlib.Data.List.Basic

/-!
# Areas one behind the other

A catalogue lists records, and each has an area: where it starts, and its size.  `Consecutive` says
that the areas follow each other without a gap, from one place to another, and that none is empty.
A record may be added behind the last one (`Consecutive.concat`), the last one may be taken away
(`consecutive_concat`), and one in the middle may grow when all behind it move on (`Consecutive.grow`).
-/

namespace Areas

variable {β : Type*} {start size : β → ℕ}

/-- The areas follow each other from `first` to `last`, and none is empty. -/
def Consecutive (start size : β → ℕ) : ℕ → List β → ℕ → Prop
  | first, [], last => first = last
  | first, b :: bs, last =>
    start b = first ∧ 0 < size b ∧ Consecutive start size (first + size b) bs last

variable {first middle last k : ℕ} {b : β} {bs cs : List β}

@[simp] theorem consecutive_nil : Consecutive start size first [] last ↔ first = last := Iff.rfl

@[simp] theorem consecutive_cons : Consecutive start size first (b :: bs) last ↔
    start b = first ∧ 0 < size b ∧ Consecutive start size (first + size b) bs last := Iff.rfl

theorem consecutive_append : Consecutive start size first (bs ++ cs) last ↔
    ∃ middle, Consecutive start size first bs middle ∧ Consecutive start size middle cs last := by
  induction bs generalizing first with
  | nil => simp
  | cons b bs ih =>
    rw [List.cons_append, consecutive_cons, ih]
    constructor
    · rintro ⟨hstart, hsize, middle, hbs, hcs⟩
      exact ⟨middle, ⟨hstart, hsize, hbs⟩, hcs⟩
    · rintro ⟨middle, ⟨hstart, hsize, hbs⟩, hcs⟩
      exact ⟨hstart, hsize, middle, hbs, hcs⟩

/-- The last area ends where all of them end. -/
theorem consecutive_concat : Consecutive start size first (bs ++ [b]) last ↔
    Consecutive start size first bs (start b) ∧ 0 < size b ∧ start b + size b = last := by
  rw [consecutive_append]
  constructor
  · rintro ⟨middle, hbs, rfl, hsize, hlast⟩
    exact ⟨hbs, hsize, hlast⟩
  · rintro ⟨hbs, hsize, hlast⟩
    exact ⟨start b, hbs, rfl, hsize, hlast⟩

/-- A record behind the last one. -/
theorem Consecutive.concat (h : Consecutive start size first bs last) (hstart : start b = last)
    (hsize : 0 < size b) : Consecutive start size first (bs ++ [b]) (last + size b) :=
  consecutive_concat.mpr ⟨by rwa [hstart], hsize, by rw [hstart]⟩

theorem Consecutive.le (h : Consecutive start size first bs last) : first ≤ last := by
  induction bs generalizing first with
  | nil => exact Nat.le_of_eq h
  | cons b bs ih => exact Nat.le_trans (Nat.le_add_right _ _) (ih h.2.2)

/-- Every area is between the ends. -/
theorem Consecutive.between (h : Consecutive start size first bs last) (hb : b ∈ bs) :
    first ≤ start b ∧ 0 < size b ∧ start b + size b ≤ last := by
  obtain ⟨before, behind, rfl⟩ := List.append_of_mem hb
  obtain ⟨middle, hbefore, hstart, hsize, hbehind⟩ := consecutive_append.mp h
  have hfirst := hbefore.le
  have hlast := hbehind.le
  exact ⟨by omega, hsize, by omega⟩

/-- Records that move together. -/
theorem Consecutive.map {f : β → β} (h : Consecutive start size first bs last)
    (hf : ∀ b ∈ bs, start (f b) = start b + k ∧ size (f b) = size b) :
    Consecutive start size (first + k) (bs.map f) (last + k) := by
  induction bs generalizing first with
  | nil => exact congrArg (· + k) h
  | cons b bs ih =>
    obtain ⟨hstart, hsize, hbs⟩ := h
    obtain ⟨hstart', hsize'⟩ := hf b List.mem_cons_self
    have htail := ih hbs fun c hc => hf c (List.mem_cons_of_mem _ hc)
    rw [List.map_cons, consecutive_cons, hstart', hsize', hstart]
    refine ⟨rfl, hsize, ?_⟩
    rwa [Nat.add_right_comm]

/-- Only the areas of the records matter. -/
theorem Consecutive.of_map_eq (h : Consecutive start size first bs last)
    (heq : (cs.map fun c => (start c, size c)) = bs.map fun b => (start b, size b)) :
    Consecutive start size first cs last := by
  induction bs generalizing first cs with
  | nil =>
    rw [List.map_nil, List.map_eq_nil_iff] at heq
    rwa [heq]
  | cons b bs ih =>
    obtain ⟨hstart, hsize, hbs⟩ := h
    obtain ⟨c, cs, rfl, hc, hcs⟩ := List.map_eq_cons_iff.mp heq
    obtain ⟨hstart', hsize'⟩ := Prod.mk.inj hc
    refine ⟨hstart'.trans hstart, hsize'.symm ▸ hsize, ?_⟩
    rw [hsize']
    exact ih hbs hcs

/-- A record that grows, with all behind it moved on. -/
theorem Consecutive.grow {b' : β} {f : β → β}
    (h : Consecutive start size first (bs ++ b :: cs) last)
    (hstart : start b' = start b) (hsize : size b' = size b + k)
    (hf : ∀ c ∈ cs, start (f c) = start c + k ∧ size (f c) = size c) :
    Consecutive start size first (bs ++ b' :: cs.map f) (last + k) := by
  obtain ⟨middle, hbs, hb, hpos, hcs⟩ := consecutive_append.mp h
  have hmoved := hcs.map hf
  refine consecutive_append.mpr ⟨middle, hbs, by rw [hstart, hb], by omega, ?_⟩
  rwa [hsize, ← Nat.add_assoc]

end Areas
