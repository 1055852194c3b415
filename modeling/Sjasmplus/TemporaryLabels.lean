import Sjasmplus.Runs

/-!
# Temporary labels (`CTemporaryLabelTable` of `tables.cpp`)

The labels of a pass are collected in `nextPassLabels`, and the next pass finds them in `labels`.  A
look-up backward searches the first list, one forward the second list from the index of the label that
comes next.

`temporaryLabels_resolve` — as long as two passes insert the same numbers, `seekBack` finds the label
that was inserted last, and `seekForward` the entry of the previous pass for the label that is
inserted next.
-/

namespace Sjasmplus

open Program AsmState AsmProgram

variable {n m : Nat}

/-! ### `InsertRefresh` -/

/-- Whether the previous pass inserted that number at the index of the next label. -/
def AsmState.foresees (s : AsmState n m) (labelNumber : Aint) : Bool :=
  (s.labels[s.nextPassLabels.length]?).map TemporaryLabel.nummer = some labelNumber

/-- `InsertRefresh` appends the label, and reports whether the previous pass inserted it here too. -/
theorem exec_insertRefresh (labelNumber : Aint) (s : AsmState n m) :
    ∃ t, (insertRefresh labelNumber).exec s = (some (s.foresees labelNumber), t) ∧
      t.labels = s.labels ∧
      t.nextPassLabels = s.nextPassLabels ++ [s.temporaryLabel labelNumber] := by
  set t : AsmState n m :=
    { s with nextPassLabels := s.nextPassLabels ++ [s.temporaryLabel labelNumber] } with ht
  rw [insertRefresh, exec_bind_of_some (exec_get s), exec_bind_of_some (p := set t) rfl]
  unfold AsmState.foresees
  cases hlabel : s.labels[s.nextPassLabels.length]? with
  | none => exact ⟨t, rfl, rfl, rfl⟩
  | some label =>
    by_cases hnummer : label.nummer = labelNumber
    · -- at most a warning follows
      by_cases hvalue : label.value = BitVec.ofInt 32 s.curAddress
      · refine ⟨t, ?_, rfl, rfl⟩
        simp [hnummer, hvalue, Program.when]
      · refine ⟨{ t with log := t.log ++
          [.warning "Temporary label has different address" none .pass3] }, ?_, rfl, rfl⟩
        simp [hnummer, hvalue, Program.when, warning, report]
        rfl
    · refine ⟨t, ?_, rfl, rfl⟩
      simp [hnummer]

/-! ### Passes -/

/-- What happens in a pass from `s` on: any number of temporary labels is inserted, each wherever the
address is by then, and anything else may change but the two lists. -/
inductive TemporaryRun {n m : Nat} (s : AsmState n m) :
    {n' m' : Nat} → List TemporaryLabel → AsmState n' m' → Prop
  | start : TemporaryRun s [] s
  | label {n' m' : Nat} {inserted : List TemporaryLabel} {t : AsmState n' m'} (labelNumber : Aint) :
      TemporaryRun s inserted t →
        TemporaryRun s (inserted ++ [t.temporaryLabel labelNumber]) ((insertRefresh labelNumber).final t)
  | other {n' m' n'' m'' : Nat} {inserted : List TemporaryLabel} {t : AsmState n' m'}
      {u : AsmState n'' m''} (hlabels : u.labels = t.labels)
      (hnext : u.nextPassLabels = t.nextPassLabels) : TemporaryRun s inserted t → TemporaryRun s inserted u

namespace TemporaryRun

variable {n' m' : Nat} {s : AsmState n m} {t : AsmState n' m'} {inserted : List TemporaryLabel}

/-- The labels of the previous pass stay. -/
theorem labels (h : TemporaryRun s inserted t) : t.labels = s.labels := by
  induction h with
  | start => rfl
  | @label _ _ _ t labelNumber _ ih =>
    obtain ⟨u, hexec, hlabels, -⟩ := exec_insertRefresh labelNumber t
    rw [final, hexec, hlabels, ih]
  | other hlabels _ _ ih => rw [hlabels, ih]

/-- The labels of this pass are collected in order. -/
theorem nextPassLabels (h : TemporaryRun s inserted t) :
    t.nextPassLabels = s.nextPassLabels ++ inserted := by
  induction h with
  | start => rw [List.append_nil]
  | @label _ _ _ t labelNumber _ ih =>
    obtain ⟨u, hexec, -, hnext⟩ := exec_insertRefresh labelNumber t
    rw [final, hexec, hnext, ih, List.append_assoc]
  | other _ hnext _ ih => rw [hnext, ih]

end TemporaryRun

/-! ### What a look-up is for -/

/-- The label of that number which was inserted last. -/
def IsLatest (inserted : List TemporaryLabel) (labelNumber : Aint) (label : TemporaryLabel) : Prop :=
  ∃ before after, inserted = before ++ label :: after ∧ label.nummer = labelNumber ∧
    ∀ later ∈ after, later.nummer ≠ labelNumber

/-- The entry of the previous pass for the label of that number which is inserted next. -/
def ForeseesNext (previous done todo : List TemporaryLabel) (labelNumber : Aint)
    (label : TemporaryLabel) : Prop :=
  ∃ before next after, todo = before ++ next :: after ∧ next.nummer = labelNumber ∧
    (∀ earlier ∈ before, earlier.nummer ≠ labelNumber) ∧
    previous[done.length + before.length]? = some label

/-- Searching backward finds the label that was inserted last. -/
theorem find?_reverse_eq_some_iff (inserted : List TemporaryLabel) (labelNumber : Aint)
    (label : TemporaryLabel) :
    inserted.reverse.find? (·.nummer = labelNumber) = some label ↔
      IsLatest inserted labelNumber label := by
  rw [List.find?_eq_some_iff_append, IsLatest]
  constructor
  · rintro ⟨hnummer, as, bs, hsplit, has⟩
    refine ⟨bs.reverse, as.reverse, ?_, by simpa using hnummer, fun later hlater => ?_⟩
    · rw [← List.reverse_reverse inserted, hsplit]
      simp
    · simpa using has later (List.mem_reverse.mp hlater)
  -- what is behind the label is in front of it in the reversed list
  · rintro ⟨before, after, rfl, hnummer, hafter⟩
    refine ⟨by simpa using hnummer, after.reverse, before.reverse, by simp, fun later hlater => ?_⟩
    simpa using hafter later (List.mem_reverse.mp hlater)

/-- The entries ahead have the numbers of the labels that are still to come. -/
theorem map_nummer_drop {previous done todo : List TemporaryLabel}
    (hsame : (done ++ todo).map TemporaryLabel.nummer = previous.map TemporaryLabel.nummer) :
    (previous.drop done.length).map TemporaryLabel.nummer = todo.map TemporaryLabel.nummer := by
  rw [List.map_drop, ← hsame, List.map_append, List.drop_left' (List.length_map _)]

/-- Searching forward finds the entry at the index of the label that is inserted next. -/
theorem find?_drop_eq_some_iff {previous done todo : List TemporaryLabel}
    (hsame : (done ++ todo).map TemporaryLabel.nummer = previous.map TemporaryLabel.nummer)
    (labelNumber : Aint) (label : TemporaryLabel) :
    (previous.drop done.length).find? (·.nummer = labelNumber) = some label ↔
      ForeseesNext previous done todo labelNumber label := by
  -- the labels that are still to come have the numbers of the entries from here on
  have hrest := map_nummer_drop hsame
  rw [List.find?_eq_some_iff_append]
  constructor
  · rintro ⟨hnummer, as, bs, hsplit, has⟩
    rw [hsplit, List.map_append, List.map_cons] at hrest
    obtain ⟨before, rest, rfl, hbefore, hnext⟩ := List.map_eq_append_iff.mp hrest.symm
    obtain ⟨next, after, rfl, hlabel, -⟩ := List.map_eq_cons_iff.mp hnext
    refine ⟨before, next, after, rfl, hlabel.trans (by simpa using hnummer),
      fun earlier hearlier => ?_, ?_⟩
    · obtain ⟨a, ha, heq⟩ := List.mem_map.mp (hbefore ▸ List.mem_map_of_mem hearlier)
      rw [← heq]
      simpa using has a ha
    -- the entry is as far from here as the label is
    · have hlength : before.length = as.length := by simpa using congrArg List.length hbefore
      rw [← List.getElem?_drop, hsplit, hlength]
      simp
  · rintro ⟨before, next, after, rfl, hnummer, hbefore, hentry⟩
    rw [← List.getElem?_drop] at hentry
    obtain ⟨hlt, hget⟩ := List.getElem?_eq_some_iff.mp hentry
    have hsplit := List.take_append_drop before.length (previous.drop done.length)
    rw [List.drop_eq_getElem_cons hlt, hget] at hsplit
    rw [← hsplit, List.map_append, List.map_append, List.map_cons, List.map_cons] at hrest
    obtain ⟨htake, hdrop⟩ := List.append_inj hrest (by
      rw [List.length_map, List.length_map, List.length_take_of_le hlt.le])
    refine ⟨by simpa [(List.cons_eq_cons.mp hdrop).1] using hnummer, _, _, hsplit.symm,
      fun a ha => ?_⟩
    obtain ⟨earlier, hearlier, heq⟩ := List.mem_map.mp (htake ▸ List.mem_map_of_mem ha)
    rw [← heq]
    simpa using hbefore earlier hearlier

/-! ### Two passes with the same numbers -/

/-- Two passes that follow each other insert the same numbers; in the later one, `done` is inserted
and `todo` is still to come. -/
structure SameFlow {n₀ m₀ n₁ m₁ n₂ m₂ n₃ m₃ : Nat} (s₀ : AsmState n₀ m₀) (s₁ : AsmState n₁ m₁)
    (s₂ : AsmState n₂ m₂) (s₃ : AsmState n₃ m₃) (previous done todo : List TemporaryLabel) :
    Prop where
  previousPass : TemporaryRun s₀.initPass previous s₁
  donePart : TemporaryRun s₁.initPass done s₂
  todoPart : TemporaryRun s₂ todo s₃
  numbers : (done ++ todo).map TemporaryLabel.nummer = previous.map TemporaryLabel.nummer

section

variable {n₀ m₀ n₁ m₁ n₂ m₂ n₃ m₃ : Nat} {s₀ : AsmState n₀ m₀} {s₁ : AsmState n₁ m₁}
  {s₂ : AsmState n₂ m₂} {s₃ : AsmState n₃ m₃} {previous done todo : List TemporaryLabel}

namespace SameFlow

variable (h : SameFlow s₀ s₁ s₂ s₃ previous done todo)
include h

theorem labels_eq : s₂.labels = previous := by
  rw [h.donePart.labels]
  exact h.previousPass.nextPassLabels

theorem nextPassLabels_eq : s₂.nextPassLabels = done := h.donePart.nextPassLabels

end SameFlow

/-- Temporary labels resolve by their positions. -/
theorem temporaryLabels_resolve (h : SameFlow s₀ s₁ s₂ s₃ previous done todo) (synerr : Bool)
    (labelNumber : Aint) :
    (∀ label, seekBack (s₂.exprEnv synerr).labels labelNumber = some label ↔
      IsLatest done labelNumber label) ∧
    (seekBack (s₂.exprEnv synerr).labels labelNumber = none ↔
      ∀ label ∈ done, label.nummer ≠ labelNumber) ∧
    (∀ label, seekForward (s₂.exprEnv synerr).labels labelNumber = some label ↔
      ForeseesNext previous done todo labelNumber label) ∧
    (seekForward (s₂.exprEnv synerr).labels labelNumber = none ↔
      ∀ label ∈ todo, label.nummer ≠ labelNumber) ∧
    (((insertRefresh labelNumber).exec s₂).1 = some false ↔
      (previous[done.length]?).map TemporaryLabel.nummer ≠ some labelNumber) := by
  -- the two searches are those of the lists
  have hback : seekBack (s₂.exprEnv synerr).labels labelNumber
      = done.reverse.find? (·.nummer = labelNumber) := by
    rw [← h.nextPassLabels_eq]
    rfl
  have hforward : seekForward (s₂.exprEnv synerr).labels labelNumber
      = (previous.drop done.length).find? (·.nummer = labelNumber) := by
    rw [← h.nextPassLabels_eq, ← h.labels_eq]
    rfl
  rw [hback, hforward]
  refine ⟨find?_reverse_eq_some_iff done labelNumber,
    by simp, find?_drop_eq_some_iff h.numbers labelNumber, ?_, ?_⟩
  · have hmap : ∀ labels : List TemporaryLabel, (∀ label ∈ labels, label.nummer ≠ labelNumber) ↔
        labelNumber ∉ labels.map TemporaryLabel.nummer := by simp
    rw [hmap, ← map_nummer_drop h.numbers, ← hmap, List.find?_eq_none]
    simp
  · obtain ⟨t, hexec, -, -⟩ := exec_insertRefresh labelNumber s₂
    rw [hexec, AsmState.foresees, h.nextPassLabels_eq, h.labels_eq]
    simp

end

/-- `1 2 1` in a pass. -/
def exampleNumberPass : AsmState 1 1 :=
  (insertRefresh 1).final ((insertRefresh 2).final ((insertRefresh 1).final
    (AsmState.start 1 1).initPass))

/-- Behind the first label of the next pass, `1F` is the third label. -/
theorem temporaryLabels_resolve_exampleNumberPass :
    seekForward (((insertRefresh 1).final exampleNumberPass.initPass).exprEnv true).labels 1
      = some ⟨1, 0, false⟩ := by
  have hprevious : TemporaryRun (AsmState.start 1 1).initPass
      [⟨1, 0, false⟩, ⟨2, 0, false⟩, ⟨1, 0, false⟩] exampleNumberPass :=
    .label 1 (.label 2 (.label 1 .start))
  have hdone : TemporaryRun exampleNumberPass.initPass [⟨1, 0, false⟩]
      ((insertRefresh 1).final exampleNumberPass.initPass) := .label 1 .start
  have htodo : TemporaryRun ((insertRefresh 1).final exampleNumberPass.initPass)
      [⟨2, 0, false⟩, ⟨1, 0, false⟩] ((insertRefresh 1).final ((insertRefresh 2).final
        ((insertRefresh 1).final exampleNumberPass.initPass))) := .label 1 (.label 2 .start)
  refine ((temporaryLabels_resolve ⟨hprevious, hdone, htodo, rfl⟩ true 1).2.2.1 _).mpr ?_
  exact ⟨[⟨2, 0, false⟩], ⟨1, 0, false⟩, [], rfl, rfl, by decide, rfl⟩

end Sjasmplus
