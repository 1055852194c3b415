import Mathlib.Algebra.BigOperators.Group.List.Basic

/-!
# Layouts of records

A layout is a list of fields: members, which take space, and labels, which name the place where they
stand.  Its size is the sum of the lengths of its members, and the offset of a label is the size of
what precedes it (`mem_labels`).  A layout that is placed inside another one moves all its labels by
the size of what is in front of it (`labels_eq_map`, `labels_append`).
-/

namespace Layout

/-- A field of a record. -/
inductive Field (L M : Type)
  | label (name : L)
  | member (len : M)
deriving DecidableEq, Repr

variable {L L' M : Type}

/-- The lengths of the members. -/
def lengths : List (Field L M) → List M
  | [] => []
  | .label _ :: fs => lengths fs
  | .member len :: fs => len :: lengths fs

/-- The layout without its labels. -/
def members (fs : List (Field L M)) : List (Field L' M) := (lengths fs).map .member

/-- The layout with other names. -/
def rename (f : L → L') : List (Field L M) → List (Field L' M)
  | [] => []
  | .label name :: fs => .label (f name) :: rename f fs
  | .member len :: fs => .member len :: rename f fs

@[simp] theorem lengths_append (fs gs : List (Field L M)) :
    lengths (fs ++ gs) = lengths fs ++ lengths gs := by
  induction fs with
  | nil => rfl
  | cons f fs ih =>
    cases f with
    | label name => exact ih
    | member len => exact congrArg (len :: ·) ih

@[simp] theorem lengths_rename (f : L → L') (fs : List (Field L M)) :
    lengths (rename f fs) = lengths fs := by
  induction fs with
  | nil => rfl
  | cons g fs ih =>
    cases g with
    | label name => exact ih
    | member len => exact congrArg (len :: ·) ih

@[simp] theorem lengths_members (fs : List (Field L M)) :
    lengths (members fs : List (Field L' M)) = lengths fs := by
  unfold members
  induction lengths fs with
  | nil => rfl
  | cons len lens ih => exact congrArg (len :: ·) ih

variable [AddMonoid M]

/-- The sum of the lengths of all members. -/
def size (fs : List (Field L M)) : M := (lengths fs).sum

/-- The labels with their offsets, when the layout starts at `base`. -/
def labels (base : M) : List (Field L M) → List (L × M)
  | [] => []
  | .label name :: fs => (name, base) :: labels base fs
  | .member len :: fs => labels (base + len) fs

@[simp] theorem size_nil : size ([] : List (Field L M)) = 0 := rfl

@[simp] theorem size_append (fs gs : List (Field L M)) : size (fs ++ gs) = size fs + size gs := by
  rw [size, lengths_append, List.sum_append, size, size]

@[simp] theorem size_rename (f : L → L') (fs : List (Field L M)) :
    size (rename f fs) = size fs := by
  rw [size, lengths_rename, size]

@[simp] theorem size_members (fs : List (Field L M)) :
    size (members fs : List (Field L' M)) = size fs := by
  rw [size, lengths_members, size]

@[simp] theorem size_label (name : L) : size [(.label name : Field L M)] = 0 := rfl

@[simp] theorem size_member (len : M) : size [(.member len : Field L M)] = len := List.sum_singleton

theorem size_cons_member (len : M) (fs : List (Field L M)) :
    size (.member len :: fs) = len + size fs :=
  List.sum_cons

/-- What comes behind a layout starts behind its size. -/
theorem labels_append (base : M) (fs gs : List (Field L M)) :
    labels base (fs ++ gs) = labels base fs ++ labels (base + size fs) gs := by
  induction fs generalizing base with
  | nil =>
    rw [List.nil_append, size_nil, add_zero]
    rfl
  | cons f fs ih =>
    cases f with
    | label name => exact congrArg ((name, base) :: ·) (ih base)
    | member len =>
      rw [size_cons_member, ← add_assoc]
      exact ih (base + len)

/-- Moving a layout moves all its labels. -/
theorem labels_eq_map (base : M) (fs : List (Field L M)) :
    labels base fs = (labels 0 fs).map fun l => (l.1, base + l.2) := by
  have h : ∀ (fs : List (Field L M)) (start : M),
      labels (base + start) fs = (labels start fs).map fun l => (l.1, base + l.2) := by
    intro fs
    -- by induction on the fields, for every start
    induction fs with
    | nil => exact fun _ => rfl
    | cons f fs ih =>
      intro start
      cases f with
      | label name => exact congrArg ((name, base + start) :: ·) (ih start)
      | member len =>
        have := ih (start + len)
        rwa [← add_assoc] at this
  have := h fs 0
  rwa [add_zero] at this

/-- Renaming labels does not move them. -/
theorem labels_rename (base : M) (f : L → L') (fs : List (Field L M)) :
    labels base (rename f fs) = (labels base fs).map fun l => (f l.1, l.2) := by
  induction fs generalizing base with
  | nil => rfl
  | cons g fs ih =>
    cases g with
    | label name => exact congrArg ((f name, base) :: ·) (ih base)
    | member len => exact ih (base + len)

@[simp] theorem labels_members (base : M) (fs : List (Field L M)) :
    labels base (members fs : List (Field L' M)) = [] := by
  unfold members
  induction lengths fs generalizing base with
  | nil => rfl
  | cons len lens ih => exact ih (base + len)

/-- **The offset of a label is the size of what precedes it.** -/
theorem mem_labels {base : M} {fs : List (Field L M)} {name : L} {offset : M} :
    (name, offset) ∈ labels base fs ↔
      ∃ before after, fs = before ++ .label name :: after ∧ offset = base + size before := by
  constructor
  · intro h
    -- by induction on the fields: the label is the first one, or it is behind it
    induction fs generalizing base with
    | nil => simp [labels] at h
    | cons f fs ih =>
      cases f with
      | label first =>
        rcases List.mem_cons.mp h with heq | h
        · obtain ⟨rfl, rfl⟩ := Prod.mk.inj heq
          exact ⟨[], fs, rfl, (add_zero _).symm⟩
        · obtain ⟨before, after, rfl, hoffset⟩ := ih h
          exact ⟨.label first :: before, after, rfl, hoffset⟩
      | member len =>
        obtain ⟨before, after, rfl, hoffset⟩ := ih h
        refine ⟨.member len :: before, after, rfl, ?_⟩
        rw [size_cons_member, ← add_assoc, hoffset]
  · rintro ⟨before, after, rfl, rfl⟩
    rw [labels_append]
    exact List.mem_append_right _ List.mem_cons_self

end Layout
