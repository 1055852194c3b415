import Sjasmplus.Emit
import Sjasmplus.Lib.Program

/-!
# The state of the assembler (`tables.h`, `relocate.cpp`)

Statements read and write one state: the addresses and the emitted code (`EmitState`), the source
text ahead, the symbol tables, the structures and the relocation data.  A statement is a `Program`
over it, which stops early where the source calls a fatal error.

`lp` is the text at the parsing pointer and `lines` are the source lines behind it, each with the
text that `ReplaceDefine` makes of it.
-/

namespace Sjasmplus

open Parsing ParseFn

/-- `LABEL_PAGE_ROM`. -/
def labelPageRom : Page := 0x7F00

/-- `LABEL_PAGE_OUT_OF_BOUNDS`. -/
def labelPageOutOfBounds : Page := 0x7F80

/-- The traits of a label that decide how its entry is written. -/
structure Traits where
  isUndefined : Bool := false
  isDefl : Bool := false
  isEqu : Bool := false
  isStructD : Bool := false
  isStructE : Bool := false
  hasRelocTrait : Bool := false
  isReloc : Bool := false
deriving DecidableEq, Repr

/-- `SLabelTableEntry`. -/
structure Symbol extends LabelEntry where
  traits : Traits
  updatePass : Nat
deriving DecidableEq, Repr

/-- The members of a structure that hold a value. -/
inductive ValueType
  | byte | word | d24 | dword
deriving DecidableEq, Repr

def ValueType.size : ValueType → Nat
  | byte => 1
  | word => 2
  | d24 => 3
  | dword => 4

/-- `EStructureMembers`, with the data that a member of the type keeps. -/
inductive MemberKind
  | value (type : ValueType) (default : Aint) (defDeltaType : Relocation.EType)
  | block (len default : Aint)
  | text (data : List Byte)
  | parenOpen
  | parenClose
deriving DecidableEq, Repr

/-- The length of a member. -/
def MemberKind.len : MemberKind → Aint
  | value type _ _ => BitVec.ofNat 32 type.size
  | block len _ => len
  | text data => BitVec.ofNat 32 data.length
  | parenOpen | parenClose => 0

/-- `CStructureEntry1`. -/
structure StructureLabel where
  naam : Text
  offset : Aint
deriving DecidableEq, Repr

/-- `CStructureEntry2`. -/
structure StructureMember where
  offset : Aint
  kind : MemberKind
deriving DecidableEq, Repr

/-- `CStructure`. -/
structure Structure where
  naam : Text
  labels : List StructureLabel
  members : List StructureMember
  noffset : Aint
  maxAlignment : Aint
deriving DecidableEq, Repr

/-- A line of the source, and what `ReplaceDefine` leaves of the part that is given to it: of the
whole line, or of what follows `ENDS`. -/
structure SourceLine where
  line : Text
  substituted : Text
deriving DecidableEq, Repr

/-- The globals of the assembler. -/
structure AsmState (n m : Nat) extends EmitState n m where
  lp : Text
  lines : List SourceLine
  scope : LabelScope
  /-- `LabelTable`. -/
  symbols : Text → Option Symbol
  /-- `TemporaryLabelTable.labels`, from the previous pass. -/
  labels : List TemporaryLabel
  /-- `TemporaryLabelTable.nextPassLabels`, from this pass. -/
  nextPassLabels : List TemporaryLabel
  isLabelNotFound : Bool
  /-- `Device->CurrentSlot`, when a device is selected. -/
  currentSlot : Option (Fin n)
  structures : List Structure
  previousIsLabel : Option Text
  alternativeOffset : Aint
  flags : Relocation.Flags
  /-- The relocation data that this pass has recorded. -/
  offsets : List (BitVec 16)
  offsetsPrevious : List (BitVec 16)
  maxTableCount : Nat

/-- A piece of the assembler. -/
abbrev AsmProgram (n m : Nat) := Program (AsmState n m)

variable {n m : Nat}

namespace Device

variable (device : Device n m)

/-- `GetPageOfA16`. -/
def getPageOfA16 (address : Int) : Page :=
  match device.getSlotOfA16 address with
  | none => labelPageOutOfBounds
  | some i => (device.slots i).page.val

/-- `MemGetByte` with a device, in the last pass. -/
def memGetByte (address : Nat) : Reported Nat :=
  match (List.finRange n).find? fun i => (device.slots i).Contains address with
  | none => (0, [errorInt "MemGetByte: Error reading address" address .pass3])
  | some i => ((device.memory (device.ramPointer (device.slots i) address)).toNat, [])

end Device

namespace AsmState

/-- `MemGetByte`. -/
def memGetByte (s : AsmState n m) (address : Aint) : Reported Nat :=
  match s.device with
  | none => (0, [])
  | some device => if s.pass ≠ lastPass then (0, []) else device.memGetByte address.toNat

/-- What expressions see of the state. -/
def exprEnv (s : AsmState n m) (synerr : Bool) : ExprEnv where
  labels := ⟨fun name => (s.symbols name).map Symbol.toLabelEntry, s.scope, false, s.labels,
    s.nextPassLabels⟩
  pass := s.pass
  synerr := synerr
  deviceID := s.device.isSome
  memGetByte := s.memGetByte
  pageNumber := match s.device with
    | none => 0
    | some device => device.page.val
  pseudoORG := s.pseudoORG
  curAddress := BitVec.ofInt 32 s.curAddress
  adrdisp := BitVec.ofInt 32 s.adrdisp
  dispPageNum := s.dispPageNum
  relocationType := s.relocationType
  areLabelsOffset := false
  alternativeOffset := s.alternativeOffset

end AsmState

/-! ### The symbol table -/

namespace AsmState

/-- `getAddressPageNumber`. -/
def getAddressPageNumber (s : AsmState n m) (address : Aint) (forceRecalculateByAddress : Bool) :
    Page :=
  match s.device with
  | none => labelPageRom
  | some device =>
    let inSlot : Bool := match s.currentSlot with
      | none => false
      | some slot => (device.slots slot).Contains address.toInt
    -- fast-shortcut for regular labels in current slot (if they fit into it)
    if !forceRecalculateByAddress && s.pseudoORG = .none && inSlot then device.page.val
    else if s.pseudoORG ≠ .none ∧ s.dispPageNum ≠ labelPageUndefined then s.dispPageNum
    else device.getPageOfA16 address.toInt

/-- `updatePhAddressPageNumber`. -/
def phAddressPageNumber (s : AsmState n m) (page : Page) (phValue : Aint) : Page :=
  if page = labelPageUndefined then labelPageOutOfBounds
  else match s.device with
    | none => labelPageRom
    | some device => device.getPageOfA16 phValue.toInt

/-- The relocation class that `CLabelTable::Insert` gives to a label. -/
def insertDeltaType (s : AsmState n m) (traits : Traits) : Relocation.EType :=
  if traits.hasRelocTrait then (if traits.isReloc then .regular else .off)
  else if traits.isDefl || traits.isEqu then s.flags.deltaType
  else if s.relocationType ≠ .off ∧ s.pseudoORG ≠ .insideRelocate then .regular
  else .off

/-- The page of a label: the one that `EQU` names, or the one of its address. -/
def insertPage (s : AsmState n m) (nvalue : Aint) (traits : Traits) (equPageNum : Page) : Page :=
  if traits.isEqu ∧ equPageNum ≠ labelPageUndefined then equPageNum
  else s.getAddressPageNumber nvalue (traits.isDefl || traits.isEqu)

def setSymbol (s : AsmState n m) (nname : Text) (symbol : Symbol) : AsmState n m :=
  { s with symbols := fun name => if name = nname then some symbol else s.symbols name }

/-- The address that `ph_value` keeps. -/
def phValue (s : AsmState n m) : Aint := BitVec.ofInt 32 s.emitAddress

/-- An entry that is there already is only refreshed when this says so. -/
def needsUpdate (s : AsmState n m) (label : Symbol) : Bool :=
  label.traits.isDefl || label.page = labelPageUndefined || label.updatePass < s.pass

/-- `CLabelTable::Insert`: the state behind it, or none when the label is a duplicate. -/
def insert (s : AsmState n m) (nname : Text) (nvalue : Aint) (traits : Traits)
    (equPageNum : Page := labelPageUndefined) : Option (AsmState n m) :=
  match s.symbols nname with
  | some label =>
    if s.needsUpdate label then
      let page := s.insertPage nvalue traits equPageNum
      some (s.setSymbol nname
        { label with
          value := nvalue
          phValue := s.phValue
          page := page
          phPage := s.phAddressPageNumber page s.phValue
          isRelocatable := s.insertDeltaType traits
          traits := traits
          updatePass := s.pass })
    else none
  | none =>
    let page := if traits.isUndefined && !(traits.isEqu && equPageNum ≠ labelPageUndefined) then
        labelPageUndefined
      else s.insertPage nvalue traits equPageNum
    some (s.setSymbol nname
      { value := nvalue
        phValue := s.phValue
        size := 0
        page := page
        phPage := s.phAddressPageNumber page s.phValue
        isRelocatable := if traits.isUndefined then .off else s.insertDeltaType traits
        traits := traits
        updatePass := s.pass })

/-- `CLabelTable::Update`. -/
def update (s : AsmState n m) (name : Text) (value : Aint) : AsmState n m :=
  match s.symbols name with
  | none => s
  | some label =>
    let page := if label.page ≠ labelPageUndefined then s.getAddressPageNumber value false
      else label.page
    let label := { label with value := value, phValue := s.phValue }
    s.setSymbol name <|
      if label.traits.isEqu || label.traits.isDefl || label.traits.isStructD then label
      else { label with page := page, phPage := s.phAddressPageNumber page s.phValue }

/-- `CLabelTable::Find` with `onlyDefined`. -/
def find (s : AsmState n m) (name : Text) : Option Symbol :=
  (s.symbols name).filter (·.page ≠ labelPageUndefined)

/-- What the look-ups of an expression leave behind: a label that is missing gets a placeholder. -/
def noteLookup (s : AsmState n m) : Event → AsmState n m
  | .labelNotFound findName placeholder =>
    let s := { s with isLabelNotFound := true }
    if placeholder && (s.symbols findName).isNone then
      (s.insert findName 0 { isUndefined := true }).getD s
    else s
  | _ => s

end AsmState

/-! ### Programs -/

namespace AsmProgram

def report (l : List Event) : AsmProgram n m Unit := modify fun s => { s with log := s.log ++ l }

/-- `Error`. -/
def error (message : String) (badValueMessage : Option Text := none) (type : EStatus := .pass3) :
    AsmProgram n m Unit :=
  report [.error message badValueMessage type]

/-- `Error` of type `FATAL`, which ends the program. -/
def fatal {α : Type} (message : String) (badValueMessage : Option Text := none) :
    AsmProgram n m α := do
  error message badValueMessage .fatal
  Program.exit

/-- `Warning`. -/
def warning (message : String) (badValueMessage : Option Text := none) (type : EWStatus := .pass3) :
    AsmProgram n m Unit :=
  report [.warning message badValueMessage type]

/-- Run a function on the addresses and the emitted code. -/
def emit (f : EmitState n m → EmitState n m) : AsmProgram n m Unit :=
  modify fun s => { s with toEmitState := f s.toEmitState }

def emitByte (byte : Aint) : AsmProgram n m Unit := emit (·.emitByte byte)

def emitWord (word : Aint) : AsmProgram n m Unit := emit (·.emitWord word)

/-- Move the parsing pointer by a plain matcher. -/
def scan {α : Type} (f : Text → α × Text) : AsmProgram n m α := do
  let s ← get
  set { s with lp := (f s.lp).2 }
  pure (f s.lp).1

/-- `SkipBlanks`: true at the end of the line. -/
def skipBlanks : AsmProgram n m Bool :=
  scan fun p => (cur (Sjasmplus.skipBlanks p) = '\x00', Sjasmplus.skipBlanks p)

/-- `anyComma`. -/
def anyComma : AsmProgram n m Bool :=
  scan fun p =>
    let p := Sjasmplus.skipBlanks p
    if cur p = ',' then (true, p.tail) else (false, p)

/-- `comma`: a double comma is none. -/
def comma : AsmProgram n m Bool :=
  scan fun p =>
    let p := Sjasmplus.skipBlanks p
    if cur p = ',' ∧ cur p.tail ≠ ',' then (true, p.tail) else (false, p)

/-- `need`. -/
def need (c : Char) : AsmProgram n m Bool :=
  scan fun p =>
    let p := Sjasmplus.skipBlanks p
    if cur p = c then (true, p.tail) else (false, p)

/-- Run a parse function at the parsing pointer. -/
def read {α : Type} (reader : Reader α) : AsmProgram n m (Option α) := do
  let s ← get
  let o := reader s.lp
  set { o.log.foldl AsmState.noteLookup s with lp := o.rest, log := s.log ++ o.log }
  pure o.val

/-- `ParseExpression`. -/
def parseExpression (synerr : Bool := true) : AsmProgram n m (Option Aint) := do
  let s ← get
  let (o, flags) := Sjasmplus.parseExpression (s.exprEnv synerr) s.flags s.lp
  set { o.log.foldl AsmState.noteLookup s with
    lp := o.rest
    log := s.log ++ o.log
    flags := flags }
  pure o.val

/-- `ParseExpressionNoSyntaxError`. -/
def parseExpressionNoSyntaxError : AsmProgram n m (Option Aint) := parseExpression false

/-- `LabelTable.Insert`: false for a duplicate. -/
def tryInsert (tp : Text) (val : Aint) (traits : Traits) (equPageNum : Page) :
    AsmProgram n m Bool := do
  match (← get).insert tp val traits equPageNum with
  | none => pure false
  | some s =>
    set s
    pure true

/-- `PrepareNonBlankMultiLine`, with the lines that are left. -/
def nonBlankLine : List SourceLine → AsmProgram n m Bool
  | [] => return !(← skipBlanks)
  | line :: lines => do
    if ← skipBlanks then
      modify fun s => { s with lp := line.substituted, lines := lines }
      emit (·.prepareLine)
      nonBlankLine lines
    else pure true

/-- `PrepareNonBlankMultiLine`: move to the next line that is not blank. -/
def prepareNonBlankMultiLine : AsmProgram n m Bool := do
  nonBlankLine (← get).lines

end AsmProgram

/-! ### Relocation data -/

namespace AsmProgram

/-- `Relocation::checkAndWarn` without an error. -/
def checkAndWarn : AsmProgram n m Unit := do
  Program.when (← get).flags.isResultAffected <| do
    modify fun s => { s with flags := { s.flags with isResultAffected := false } }
    report [.warningById .relUnstable none .pass3]

/-- `Relocation::resolveRelocationAffected`.  The offset is missing where the source passes
`INT_MAX`: then the flags are cleared and nothing is recorded. -/
def resolveRelocationAffected (opcodeRelOffset : Option Int)
    (minType : Relocation.EType := .regular) : AsmProgram n m Unit := do
  let s ← get
  Program.when (minType.toNat ≤ s.relocationType.toNat ∧ s.flags.isResultAffected) <| do
    modify fun s => { s with flags := { s.flags with isResultAffected := false } }
    if minType.toNat ≤ s.flags.deltaType.toNat then
      match opcodeRelOffset with
      | none => pure ()
      | some opcodeRelOffset =>
        let address := if s.pseudoORG = .insideRelocate then s.adrdisp else s.curAddress
        modify fun s => { s with
          offsets := s.offsets ++ [BitVec.ofInt 16 (address + opcodeRelOffset +
            s.relocationType.toNat - s.flags.deltaType.toNat)] }
    else
      report [.warningById (if s.flags.deltaType ≠ .off then .relUnstable else .relDiverts) none .pass3]

end AsmProgram

end Sjasmplus
