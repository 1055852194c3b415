import Mathlib.Data.List.Basic
import Mathlib.Data.List.Forall2

/-!
# Readers of binary data

A reader takes a value off the front of a list, or rejects the list.  `Reads r xs a` says that `r`
takes exactly `xs` and gives `a`, whatever follows; it is closed under sequencing (`Reads.bind`),
repetition (`reads_times`) and reading to the end (`readAll_eq_some`), so that a format made of parts
is read back once its parts are.

`ReadsAll r xs as` says that the list is a sequence of items for `r`, which are `as`; it goes through
concatenation, and is what reading to the end gives back.  `Readable r xs` is without the items.
-/

namespace Codec

variable {τ α β : Type}

/-- A reader: the value and what is left of the list. -/
abbrev Decoder (τ α : Type) := StateT (List τ) Option α

/-- The reader takes exactly `xs`, and gives `a`. -/
def Reads (r : Decoder τ α) (xs : List τ) (a : α) : Prop :=
  ∀ rest, r.run (xs ++ rest) = some (a, rest)

/-! ### Readers -/

/-- One element. -/
def item : Decoder τ τ
  | [] => none
  | x :: xs => some (x, xs)

/-- A fixed number of elements. -/
def exactly (n : Nat) : Decoder τ (List τ) := fun xs =>
  if n ≤ xs.length then some (xs.take n, xs.drop n) else none

/-- A fixed number of elements, with their number in the type. -/
def vector (n : Nat) : Decoder τ (Vector τ n) := fun xs =>
  if h : n ≤ xs.length then some (⟨(xs.take n).toArray, by simp [h]⟩, xs.drop n) else none

/-- Nothing, and only under a condition. -/
def require (p : Prop) [Decidable p] : Decoder τ Unit := fun xs => if p then some ((), xs) else none

/-- A reader a fixed number of times. -/
def times (r : Decoder τ α) : Nat → Decoder τ (List α)
  | 0 => pure []
  | n + 1 => do
    let a ← r
    let as ← times r n
    pure (a :: as)

/-- A reader that has to take the whole list. -/
def readWhole (r : Decoder τ α) (xs : List τ) : Option α :=
  match r.run xs with
  | some (a, []) => some a
  | _ => none

/-- What one reader takes has to be read by another one as a whole. -/
def within (outer : Decoder τ (List τ)) (inner : Decoder τ α) : Decoder τ α := do
  let xs ← outer
  match readWhole inner xs with
  | some a => pure a
  | none => failure

/-- A reader again and again, up to the end of the list. -/
def readLoop (r : Decoder τ α) : Nat → List τ → Option (List α)
  | _, [] => some []
  | 0, _ :: _ => none
  | fuel + 1, x :: xs =>
    match r.run (x :: xs) with
    | some (a, rest) => (readLoop r fuel rest).map (a :: ·)
    | none => none

/-- A reader again and again, up to the end of the list; the length of the list is enough fuel for a
reader that takes something every time. -/
def readAll (r : Decoder τ α) (xs : List τ) : Option (List α) := readLoop r xs.length xs

/-! ### Sequences -/

theorem reads_pure (a : α) : Reads (pure a : Decoder τ α) [] a := fun _ => rfl

theorem Reads.bind {r : Decoder τ α} {f : α → Decoder τ β} {xs ys : List τ} {a : α} {b : β}
    (hr : Reads r xs a) (hf : Reads (f a) ys b) : Reads (r >>= f) (xs ++ ys) b := by
  intro rest
  rw [StateT.run_bind, List.append_assoc, hr]
  exact hf rest

/-- What was read may be rearranged. -/
theorem Reads.bind_pure {r : Decoder τ α} {xs : List τ} {a : α} (hr : Reads r xs a) (g : α → β) :
    Reads (r >>= fun x => pure (g x)) xs (g a) := by
  have h := hr.bind (f := fun x => pure (g x)) (reads_pure (g a))
  rwa [List.append_nil] at h

theorem reads_item (x : τ) : Reads item [x] x := fun _ => rfl

theorem reads_exactly {xs : List τ} {n : Nat} (h : xs.length = n) : Reads (exactly n) xs xs := by
  intro rest
  subst h
  show (if xs.length ≤ (xs ++ rest).length then _ else none) = _
  rw [if_pos (by rw [List.length_append]; exact Nat.le_add_right ..), List.take_left, List.drop_left]

/-- One element in front. -/
theorem Reads.item_bind {f : τ → Decoder τ β} {x : τ} {ys : List τ} {b : β} (h : Reads (f x) ys b) :
    Reads (item >>= f) (x :: ys) b :=
  (reads_item x).bind h

/-- A reader that fails reads nothing. -/
theorem not_reads_failure (xs : List τ) (a : α) : ¬Reads (failure : Decoder τ α) xs a := by
  intro h
  have hrun : none = some (a, []) := h []
  cases hrun

/-- A reader that starts with one element takes nothing off the empty list. -/
theorem not_reads_item_bind (f : τ → Decoder τ β) (b : β) : ¬Reads (item >>= f) [] b := by
  intro h
  have hrun : none = some (b, []) := h []
  cases hrun

/-- A reader that starts with one element takes it off the front. -/
theorem reads_item_bind {f : τ → Decoder τ β} {xs : List τ} {b : β} :
    Reads (item >>= f) xs b ↔ ∃ x ys, xs = x :: ys ∧ Reads (f x) ys b := by
  constructor
  · intro h
    cases xs with
    | nil => exact absurd h (not_reads_item_bind f b)
    | cons x ys => exact ⟨x, ys, rfl, fun rest => h rest⟩
  · rintro ⟨x, ys, rfl, h⟩
    exact h.item_bind

theorem reads_vector {n : Nat} (v : Vector τ n) : Reads (vector n) v.toList v := by
  intro rest
  have hlength : v.toList.length = n := v.length_toList
  show (if h : n ≤ (v.toList ++ rest).length then _ else none) = _
  rw [dif_pos (by rw [List.length_append]; omega)]
  congr 1
  refine Prod.ext ?_ (List.drop_left' hlength)
  exact Vector.toList_inj.mp (List.take_left' hlength)

/-- A condition that holds is no obstacle. -/
theorem Reads.require_bind {p : Prop} [Decidable p] (h : p) {r : Unit → Decoder τ α} {xs : List τ}
    {a : α} (hr : Reads (r ()) xs a) : Reads (require p >>= r) xs a := by
  have hp : Reads (require p : Decoder τ Unit) [] () := fun _ => if_pos h
  exact hp.bind hr

/-- Repetition: the parts are read one after the other. -/
theorem reads_times {r : Decoder τ α} {parts : List (List τ)} {as : List α}
    (h : List.Forall₂ (Reads r) parts as) : Reads (times r as.length) parts.flatten as := by
  induction h with
  | nil => exact reads_pure []
  | @cons part a parts as hr _ ih => exact hr.bind (ih.bind_pure (a :: ·))

/-! ### Whole lists -/

theorem Reads.readWhole_eq {r : Decoder τ α} {xs : List τ} {a : α} (h : Reads r xs a) :
    readWhole r xs = some a := by
  have hrun := h []
  rw [List.append_nil] at hrun
  rw [readWhole, hrun]

theorem reads_within {outer : Decoder τ (List τ)} {inner : Decoder τ α} {xs ys : List τ} {a : α}
    (houter : Reads outer xs ys) (hinner : Reads inner ys a) : Reads (within outer inner) xs a := by
  intro rest
  rw [within, StateT.run_bind, houter]
  show ((match readWhole inner ys with | some a => pure a | none => failure) : Decoder τ α).run rest
    = some (a, rest)
  rw [hinner.readWhole_eq]
  rfl

theorem readLoop_eq_some {r : Decoder τ α} {parts : List (List τ)} {as : List α}
    (h : List.Forall₂ (Reads r) parts as) (hsome : ∀ part ∈ parts, part ≠ []) {fuel : Nat}
    (hfuel : parts.length ≤ fuel) : readLoop r fuel parts.flatten = some as := by
  -- by induction on the parts: each of them is read in one turn, as none is empty
  induction h generalizing fuel with
  | nil => cases fuel <;> rfl
  | @cons part a parts as hr _ ih =>
    obtain ⟨fuel, rfl⟩ : ∃ n, fuel = n + 1 := ⟨fuel - 1, by simp at hfuel; omega⟩
    obtain ⟨x, xs, rfl⟩ := List.exists_cons_of_ne_nil (hsome _ (List.mem_cons_self ..))
    have hrest := ih (fun part hmem => hsome part (List.mem_cons_of_mem _ hmem))
      (Nat.le_of_succ_le_succ hfuel)
    have hrun := hr parts.flatten
    rw [List.flatten_cons, List.cons_append, readLoop]
    rw [List.cons_append] at hrun
    rw [hrun]
    dsimp only
    rw [hrest]
    rfl

/-- Nothing is read back when the reader rejects what is behind the parts. -/
theorem readLoop_eq_none {r : Decoder τ α} {parts : List (List τ)} {as : List α}
    (h : List.Forall₂ (Reads r) parts as) (hsome : ∀ part ∈ parts, part ≠ []) {y : τ} {ys : List τ}
    (hrejects : r.run (y :: ys) = none) (fuel : Nat) :
    readLoop r fuel (parts.flatten ++ y :: ys) = none := by
  -- by induction on the parts: the reader gets to the rejected end, if its fuel lasts that long
  induction h generalizing fuel with
  | nil =>
    cases fuel with
    | zero => rfl
    | succ fuel =>
      show readLoop r (fuel + 1) (y :: ys) = none
      rw [readLoop, hrejects]
  | @cons part a parts as hr _ ih =>
    obtain ⟨x, xs, rfl⟩ := List.exists_cons_of_ne_nil (hsome _ (List.mem_cons_self ..))
    have hrest := ih fun part hmem => hsome part (List.mem_cons_of_mem _ hmem)
    have hrun := hr (parts.flatten ++ y :: ys)
    rw [List.flatten_cons, List.append_assoc, List.cons_append]
    rw [List.cons_append] at hrun
    cases fuel with
    | zero => rfl
    | succ fuel =>
      rw [readLoop, hrun]
      dsimp only
      rw [hrest fuel]
      rfl

/-- Parts that are not empty are read back from all of them together. -/
theorem readAll_eq_some {r : Decoder τ α} {parts : List (List τ)} {as : List α}
    (h : List.Forall₂ (Reads r) parts as) (hsome : ∀ part ∈ parts, part ≠ []) :
    readAll r parts.flatten = some as := by
  refine readLoop_eq_some h hsome ?_
  -- every part has at least one element
  clear h
  induction parts with
  | nil => exact Nat.le_refl 0
  | cons part parts ih =>
    have hpos := List.length_pos_iff.mpr (hsome part (List.mem_cons_self ..))
    have htail := ih fun part hmem => hsome part (List.mem_cons_of_mem _ hmem)
    rw [List.flatten_cons, List.length_append, List.length_cons]
    omega

/-! ### Sequences of items -/

/-- The list is made of parts that the reader takes, one after the other. -/
def ReadsAll (r : Decoder τ α) (xs : List τ) (as : List α) : Prop :=
  ∃ parts, List.Forall₂ (Reads r) parts as ∧ xs = parts.flatten

/-- The list is a sequence of items. -/
def Readable (r : Decoder τ α) (xs : List τ) : Prop := ∃ as, ReadsAll r xs as

section Sequences

variable {r : Decoder τ α} {xs ys : List τ} {as bs : List α} {a : α}

theorem readsAll_nil (r : Decoder τ α) : ReadsAll r [] [] := ⟨[], .nil, rfl⟩

theorem Reads.readsAll (h : Reads r xs a) : ReadsAll r xs [a] :=
  ⟨[xs], .cons h .nil, by simp⟩

theorem ReadsAll.append (h : ReadsAll r xs as) (h' : ReadsAll r ys bs) :
    ReadsAll r (xs ++ ys) (as ++ bs) := by
  obtain ⟨parts, hparts, rfl⟩ := h
  obtain ⟨parts', hparts', rfl⟩ := h'
  exact ⟨parts ++ parts', List.rel_append hparts hparts', by simp⟩

/-- The parts of a sequence are not empty, when the reader takes nothing off the empty list. -/
theorem parts_ne_nil (hnil : ∀ a, ¬Reads r [] a) {parts : List (List τ)}
    (h : List.Forall₂ (Reads r) parts as) : ∀ part ∈ parts, part ≠ [] := by
  induction h with
  | nil => simp
  | cons hreads _ ih =>
    intro part hmem
    rcases List.mem_cons.mp hmem with rfl | hmem
    · rintro rfl
      exact hnil _ hreads
    · exact ih part hmem

/-- A sequence is read back, when the reader takes nothing off the empty list. -/
theorem ReadsAll.readAll_eq (hnil : ∀ a, ¬Reads r [] a) (h : ReadsAll r xs as) :
    readAll r xs = some as := by
  obtain ⟨parts, hparts, rfl⟩ := h
  exact readAll_eq_some hparts (parts_ne_nil hnil hparts)

/-- A sequence is not read back with something behind it that the reader rejects. -/
theorem ReadsAll.readAll_append_eq_none (hnil : ∀ a, ¬Reads r [] a) (h : ReadsAll r xs as) {y : τ}
    (hrejects : r.run (y :: ys) = none) : readAll r (xs ++ y :: ys) = none := by
  obtain ⟨parts, hparts, rfl⟩ := h
  exact readLoop_eq_none hparts (parts_ne_nil hnil hparts) hrejects _

theorem readable_nil (r : Decoder τ α) : Readable r [] := ⟨[], readsAll_nil r⟩

theorem Reads.readable (h : Reads r xs a) : Readable r xs := ⟨[a], h.readsAll⟩

theorem Readable.append (h : Readable r xs) (h' : Readable r ys) : Readable r (xs ++ ys) := by
  obtain ⟨as, h⟩ := h
  obtain ⟨bs, h'⟩ := h'
  exact ⟨as ++ bs, h.append h'⟩

/-- A reader that has an item for each item of another one. -/
theorem Readable.mono {r' : Decoder τ β} (h : ∀ xs a, Reads r xs a → ∃ b, Reads r' xs b)
    (hxs : Readable r xs) : Readable r' xs := by
  obtain ⟨as, parts, hparts, rfl⟩ := hxs
  induction hparts with
  | nil => exact readable_nil r'
  | @cons part a parts as hpart _ ih =>
    obtain ⟨b, hb⟩ := h part a hpart
    rw [List.flatten_cons]
    exact hb.readable.append ih

end Sequences

end Codec
