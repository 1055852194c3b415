import Sjasmplus.Evaluation

/-!
# Reachable states

The states that a run can reach: from the start, through passes, selected devices, and steps at any
source text.  A step is one of the statements that write labels or modes, or any other statement,
which may do whatever it likes as long as it keeps the modes.

The modes are tied to each other in every reachable state (`Reachable.modes`): a displacement that
started inside a relocation block is never open outside of one, and the alternative offset belongs to
the kind of the block.
-/

namespace Sjasmplus

open Program AsmState AsmProgram

variable {n m : Nat}

/-- A statement that is no label, `STRUCT`, `RELOCATE_…`, `DISP` or `ENT`. -/
structure OtherStatement (n m : Nat) where
  program : AsmProgram n m Unit
  keeps : Keeps SameMode program

/-- What a line may do. -/
inductive Step (n m : Nat)
  | label (smart : Reported Aint)
  | struct
  | relocateStart
  | relocateEnd
  | relocateTable
  | disp
  | ent
  | other (statement : OtherStatement n m)

def Step.program : Step n m → AsmProgram n m Unit
  | label smart => parseLabel smart
  | struct => dirSTRUCT
  | relocateStart => dirRELOCATE_START
  | relocateEnd => dirRELOCATE_END
  | relocateTable => dirRELOCATE_TABLE
  | disp => dirDISP
  | ent => dirENT
  | other statement => statement.program

/-- The state with a text at the parsing pointer. -/
def AsmState.atText (s : AsmState n m) (lp : Text) (lines : List SourceLine) : AsmState n m :=
  { s with lp := lp, lines := lines }

/-- The states of all runs. -/
inductive Reachable : {n m : Nat} → AsmState n m → Prop
  | start (n m : Nat) : Reachable (AsmState.start n m)
  | pass {n m : Nat} {s : AsmState n m} : Reachable s → Reachable s.initPass
  | device {n m n' m' : Nat} {s : AsmState n m} (device : Option (Device n' m'))
      (currentSlot : Option (Fin n')) : Reachable s → Reachable (s.withDevice device currentSlot)
  | step {n m : Nat} {s : AsmState n m} (step : Step n m) (lp : Text) (lines : List SourceLine) :
      Reachable s → Reachable (step.program.final (s.atText lp lines))

/-! ### The modes of a reachable state -/

/-- How the modes are tied to each other. -/
structure ModesAgree (s : AsmState n m) : Prop where
  inside : s.pseudoORG = .insideRelocate → s.relocationType ≠ .off
  regular : s.relocationType = .regular → s.alternativeOffset = Relocation.alternativeOffsetWord
  high : s.relocationType = .high → s.alternativeOffset = Relocation.alternativeOffsetHigh

namespace ModesAgree

/-- What keeps the modes keeps how they are tied. -/
theorem of_sameMode {s t : AsmState n m} (hs : ModesAgree s) (h : SameMode s t) : ModesAgree t where
  inside hmode := h.relocationType ▸ hs.inside (h.pseudoORG ▸ hmode)
  regular hrel := h.alternativeOffset ▸ hs.regular (h.relocationType ▸ hrel)
  high hrel := h.alternativeOffset ▸ hs.high (h.relocationType ▸ hrel)

theorem sameMode_refreshMaxTableCount :
    Keeps (SameMode (n := n) (m := m)) refreshMaxTableCount :=
  .bind (sameMode_modify fun _ => rfl) fun _ => .get_bind fun _ => .when (.bind
    (sameMode_modify fun _ => rfl) fun _ =>
      .bind sameMode_tryInsert fun _ => .bind sameMode_tryInsert fun _ => .pure _)

/-- `RELOCATE_START`. -/
theorem relocateStart {s : AsmState n m} (hs : ModesAgree s) :
    ModesAgree (dirRELOCATE_START.final s) := by
  obtain ⟨t, isHigh, hhigh, hmode⟩ : ∃ t isHigh,
      (highKeyword (n := n) (m := m)).exec s = (some isHigh, t) ∧ SameMode s t :=
    ⟨_, _, rfl, (sameMode evaluates_scan : Keeps SameMode highKeyword) s⟩
  have ht : ModesAgree t := hs.of_sameMode hmode
  rw [final, dirRELOCATE_START, exec_bind_of_some hhigh, exec_bind_of_some (exec_get t)]
  by_cases hoff : t.relocationType = .off
  · rw [if_neg (not_not_intro hoff)]
    -- the offset and the kind of the block are set together
    have hset : ModesAgree { t with
        alternativeOffset := if isHigh then Relocation.alternativeOffsetHigh
          else Relocation.alternativeOffsetWord
        relocationType := if isHigh then .high else .regular } := by
      cases isHigh with
      | true => exact ⟨fun _ => by simp, by simp, fun _ => rfl⟩
      | false => exact ⟨fun _ => by simp, fun _ => rfl, by simp⟩
    dsimp only
    generalize (if isHigh then Relocation.alternativeOffsetHigh
      else Relocation.alternativeOffsetWord) = newOffset at hset ⊢
    generalize (if isHigh then Relocation.EType.high else .regular) = type at hset ⊢
    split_ifs
    · exact ht.of_sameMode (sameMode evaluates_error t)
    · rw [exec_bind_of_some (exec_modify _ _)]
      exact hset.of_sameMode (sameMode_refreshMaxTableCount _)
  · rw [if_pos hoff]
    exact ht.of_sameMode (sameMode evaluates_error t)

/-- `RELOCATE_END`, which a displacement that started inside keeps from closing the block. -/
theorem relocateEnd {s : AsmState n m} (hs : ModesAgree s) :
    ModesAgree (dirRELOCATE_END.final s) := by
  rw [final, dirRELOCATE_END, exec_bind_of_some (exec_get s)]
  split_ifs with hoff hinside
  · exact hs.of_sameMode (sameMode evaluates_error s)
  · exact hs.of_sameMode (sameMode evaluates_error s)
  · rw [exec_bind_of_some (exec_modify _ _)]
    refine of_sameMode ?_ (sameMode_refreshMaxTableCount _)
    exact ⟨fun h => absurd h hinside, by simp, by simp⟩

/-- Opening a displacement. -/
theorem emit_dirDISP {s : AsmState n m} (hs : ModesAgree s) (valAdr : Option Aint)
    (isResultAffected : Bool) (valPageNum : Option (Option Aint)) :
    ModesAgree { s with toEmitState := s.toEmitState.dirDISP valAdr isResultAffected valPageNum } := by
  have hreport : ∀ l, ModesAgree { s with toEmitState := s.toEmitState.report l } := fun l =>
    hs.of_sameMode ⟨rfl, rfl, rfl, rfl⟩
  -- the mode of the displacement says whether a block of relocation is open
  have henter : ∀ adr page,
      ModesAgree { s with toEmitState := s.toEmitState.enterDisplacement adr page } := by
    intro adr page
    refine ⟨fun hmode => ?_, hs.regular, hs.high⟩
    have hmode : (if s.relocationType ≠ .off then DispMode.insideRelocate else .active)
        = .insideRelocate := hmode
    split_ifs at hmode with hoff
    · exact hoff
  rcases s.toEmitState.dirDISP_cases valAdr isResultAffected valPageNum with ⟨l, h⟩ | ⟨adr, page, h⟩
  · rw [h]
    exact hreport l
  · rw [h]
    exact henter adr page

theorem disp {s : AsmState n m} (hs : ModesAgree s) : ModesAgree (dirDISP.final s) := by
  -- every path evaluates first and opens the displacement last
  have hkeeps : Keeps (fun s t : AsmState n m => ModesAgree s → ModesAgree t) dirDISP := by
    have heval : ∀ {α : Type} {p : AsmProgram n m α}, Keeps Evaluates p →
        Keeps (fun s t => ModesAgree s → ModesAgree t) p := fun hp =>
      .mono (fun s t h hs => hs.of_sameMode h.sameMode) hp
    have hemit : ∀ valAdr affected valPageNum,
        Keeps (fun s t : AsmState n m => ModesAgree s → ModesAgree t)
          (emit (·.dirDISP valAdr affected valPageNum)) := fun _ _ _ s hs =>
      emit_dirDISP hs _ _ _
    have : Std.Refl fun s t : AsmState n m => ModesAgree s → ModesAgree t := ⟨fun _ h => h⟩
    have : IsTrans (AsmState n m) fun s t => ModesAgree s → ModesAgree t :=
      ⟨fun _ _ _ h h' hs => h' (h hs)⟩
    refine .get_bind fun _ => .ite (.bind (hemit _ _ _) fun _ => heval (evaluates_modify fun _ => rfl)) ?_
    refine .bind (heval evaluates_clearResultAffected) fun _ =>
      .bind (heval evaluates_parseExpressionNoSyntaxError) fun _ => .ite (hemit _ _ _) ?_
    refine .get_bind fun _ => .ite (.bind (heval evaluates_clearResultAffected) fun _ =>
      .bind (hemit _ _ _) fun _ => heval (evaluates_modify fun _ => rfl)) ?_
    exact .bind (heval evaluates_scan) fun _ => .ite
      (.bind (heval evaluates_parseExpressionNoSyntaxError) fun _ => hemit _ _ _) (hemit _ _ _)
  exact hkeeps s hs

theorem ent {s : AsmState n m} (hs : ModesAgree s) : ModesAgree (dirENT.final s) := by
  show ModesAgree { s with toEmitState := s.toEmitState.dirENT }
  have hreport : ∀ l, ModesAgree { s with toEmitState := s.toEmitState.report l } := fun l =>
    hs.of_sameMode ⟨rfl, rfl, rfl, rfl⟩
  rcases s.toEmitState.dirENT_cases with ⟨l, h⟩ | h
  · rw [h]
    exact hreport l
  · rw [h]
    exact ⟨fun hmode => by simp at hmode, hs.regular, hs.high⟩

theorem step {s : AsmState n m} (hs : ModesAgree s) (step : Step n m) :
    ModesAgree (step.program.final s) := by
  -- only four of the directives change one of the two modes
  cases step with
  | label smart => exact hs.of_sameMode (sameMode_parseLabel s)
  | struct => exact hs.of_sameMode (sameMode_dirSTRUCT s)
  | relocateStart => exact hs.relocateStart
  | relocateEnd => exact hs.relocateEnd
  | relocateTable =>
    have hkeeps : Keeps (SameMode (n := n) (m := m)) dirRELOCATE_TABLE := by
      refine .bind (.bind (sameMode evaluates_scan) fun _ =>
        .ite (.pure _) (sameMode evaluates_parseExpressionNoSyntaxError)) fun o => ?_
      cases o with
      | none => exact sameMode evaluates_error
      | some subtractOffset =>
        exact .bind sameMode_refreshMaxTableCount fun _ => .get_bind fun _ =>
          sameMode (evaluates_emit (EmitState.sameMode_emitWords _))
    exact hs.of_sameMode (hkeeps s)
  | disp => exact hs.disp
  | ent => exact hs.ent
  | other statement => exact hs.of_sameMode (statement.keeps s)

end ModesAgree

/-- The modes are tied to each other in every reachable state. -/
theorem Reachable.modes {s : AsmState n m} (h : Reachable s) : ModesAgree s := by
  induction h with
  | start n m => exact ⟨by simp [AsmState.start], by simp [AsmState.start], by simp [AsmState.start]⟩
  | pass _ _ => exact ⟨by simp [initPass], by simp [initPass], by simp [initPass]⟩
  | device _ _ _ ih => exact ⟨ih.inside, ih.regular, ih.high⟩
  | step step lp lines _ ih =>
    exact (ih.of_sameMode (t := atText _ lp lines) ⟨rfl, rfl, rfl, rfl⟩).step step

end Sjasmplus
