import Sjasmplus.ParseLabel
import Sjasmplus.Relocation

/-!
# Runs of the assembler (`relocate.cpp`, `DISP` and `ENT`, `InitPass`)

A run is any sequence of steps: a line's label, a directive that opens or closes a relocation block
or a displacement, an expression or anything else that other statements do, and the start of a pass.
Other statements may do whatever they like to the state except for the three things that only the
listed ones write: the kind of relocation block, the kind of displacement and the alternative offset.
-/

namespace Sjasmplus

open Parsing ParseFn

variable {n m : Nat}

namespace AsmProgram

/-! ### Relocation blocks -/

/-- `refreshMaxTableCount`. -/
def refreshMaxTableCount : AsmProgram n m Unit := do
  modify fun s => { s with maxTableCount := max s.maxTableCount s.offsets.length }
  let s ← get
  Program.when (s.relocationType ≠ .off ∨ s.maxTableCount ≠ 0) <| do
    modify fun s => { s with flags := ⟨false, .off⟩ }
    let count := BitVec.ofNat 32 s.maxTableCount
    let _ ← tryInsert "relocate_count".toList count { isDefl := true } labelPageUndefined
    let _ ← tryInsert "relocate_size".toList (count * 2) { isDefl := true } labelPageUndefined

/-- The word `high` behind `RELOCATE_START`. -/
def highKeyword : AsmProgram n m Bool :=
  scan fun p => match cmphstr (Sjasmplus.skipBlanks p) "high".toList with
    | some q => (true, q)
    | none => (false, Sjasmplus.skipBlanks p)

/-- `dirRELOCATE_START`. -/
def dirRELOCATE_START : AsmProgram n m Unit := do
  let isHigh ← highKeyword
  let s ← get
  if s.relocationType ≠ .off then error "Relocation block already started here"
  else
    let newOffset := if isHigh then Relocation.alternativeOffsetHigh
      else Relocation.alternativeOffsetWord
    if s.alternativeOffset ≠ 0 ∧ s.alternativeOffset ≠ newOffset then
      error "HIGH mode can't be mixed with regular mode"
    else
      modify fun s => { s with
        alternativeOffset := newOffset
        relocationType := if isHigh then .high else .regular }
      refreshMaxTableCount

/-- `dirRELOCATE_END`. -/
def dirRELOCATE_END : AsmProgram n m Unit := do
  let s ← get
  if s.relocationType = .off then error "Relocation block start for this end is missing"
  else if s.pseudoORG = .insideRelocate then error "End the current DISP block first"
  else
    modify fun s => { s with relocationType := .off }
    refreshMaxTableCount

/-- The words of the relocation table, those of the previous pass where this one has none yet. -/
def tableWords (s : AsmState n m) : List Aint :=
  (List.range s.maxTableCount).map fun i =>
    (s.offsets.getD i (s.offsetsPrevious.getD i 0)).setWidth 32

/-- The operand of `RELOCATE_TABLE`. -/
def subtractOffset : AsmProgram n m (Option Aint) := do
  if ← skipBlanks then pure (some 0) else parseExpressionNoSyntaxError

/-- `dirRELOCATE_TABLE`. -/
def dirRELOCATE_TABLE : AsmProgram n m Unit := do
  match ← subtractOffset with
  | none => error "[RELOCATE_TABLE] Syntax error in <subtract_offset>" none .suppress
  | some subtractOffset =>
    refreshMaxTableCount
    let words := tableWords (← get)
    emit (·.emitWords (words.map (· - subtractOffset)))

/-! ### Displacement -/

/-- `dirDISP`. -/
def dirDISP : AsmProgram n m Unit := do
  if (← get).displaced then
    emit (·.dirDISP none false none)
    modify fun s => { s with lp := [] }
  else
    clearResultAffected
    let valAdr ← parseExpressionNoSyntaxError
    if valAdr.isNone then emit (·.dirDISP none false none)
    else if (← get).flags.isResultAffected then
      clearResultAffected
      emit (·.dirDISP valAdr true none)
      modify fun s => { s with lp := [] }
    else if ← comma then
      let valPageNum ← parseExpressionNoSyntaxError
      emit (·.dirDISP valAdr false (some valPageNum))
    else emit (·.dirDISP valAdr false none)

/-- `dirENT`. -/
def dirENT : AsmProgram n m Unit := emit (·.dirENT)

end AsmProgram

/-! ### Passes and devices -/

namespace AsmState

/-- The state with another device, or none. -/
def withDevice {n' m' : Nat} (s : AsmState n m) (device : Option (Device n' m'))
    (currentSlot : Option (Fin n')) : AsmState n' m' where
  pass := s.pass
  isLongPtr := s.isLongPtr
  device := device
  curAddress := s.curAddress
  adrdisp := s.adrdisp
  pseudoORG := s.pseudoORG
  dispPageNum := s.dispPageNum
  relocationType := s.relocationType
  notWarnedCurAdr := s.notWarnedCurAdr
  notWarnedDisp := s.notWarnedDisp
  output := s.output
  log := s.log
  lp := s.lp
  lines := s.lines
  scope := s.scope
  symbols := s.symbols
  labels := s.labels
  nextPassLabels := s.nextPassLabels
  isLabelNotFound := s.isLabelNotFound
  currentSlot := currentSlot
  structures := s.structures
  previousIsLabel := s.previousIsLabel
  alternativeOffset := s.alternativeOffset
  flags := s.flags
  offsets := s.offsets
  offsetsPrevious := s.offsetsPrevious
  maxTableCount := s.maxTableCount

/-- `InitPass`, with `Relocation::InitPass` and `CTemporaryLabelTable::InitPass`. -/
def initPass (s : AsmState n m) : AsmState n m :=
  { s with
    pass := s.pass + 1
    log := s.log ++ if s.relocationType ≠ .off then
        [.error "Missing end of relocation block started here" none .pass3]
      else []
    offsetsPrevious := s.offsets
    maxTableCount := s.offsets.length
    offsets := []
    relocationType := .off
    scope := ⟨[], ['_'], none⟩
    curAddress := 0
    pseudoORG := .none
    adrdisp := 0
    dispPageNum := labelPageUndefined
    structures := []
    labels := s.nextPassLabels
    nextPassLabels := [] }

/-- The globals when the program starts. -/
def start (n m : Nat) : AsmState n m where
  pass := 0
  isLongPtr := false
  device := none
  curAddress := 0
  adrdisp := 0
  pseudoORG := .none
  dispPageNum := labelPageUndefined
  relocationType := .off
  notWarnedCurAdr := true
  notWarnedDisp := true
  output := []
  log := []
  lp := []
  lines := []
  scope := ⟨[], ['_'], none⟩
  symbols := fun _ => none
  labels := []
  nextPassLabels := []
  isLabelNotFound := false
  currentSlot := none
  structures := []
  previousIsLabel := none
  alternativeOffset := 0
  flags := ⟨false, .off⟩
  offsets := []
  offsetsPrevious := []
  maxTableCount := 0

end AsmState

end Sjasmplus
