import Sjasmplus.Structure

/-!
# Instances of structures (`CStructure::emitlab`, `emitmembs`, `CStructureTable::Emit`)

The labels of a structure are inserted once for its definition, with the offsets as values, and once
for every instance, with the address of the instance added.  The members are emitted by one walk over
the member list, which reads the initializer text on the way.
-/

namespace Sjasmplus

open Parsing ParseFn

variable {n m : Nat}

namespace AsmProgram

/-! ### Labels -/

/-- The main label that `ValidateLabel` sets for the following local labels. -/
def newMainLabel (scope : LabelScope) (naam label : Text) : LabelScope :=
  let name := if cur naam = '!' then naam.tail else naam
  let escMacro := scope.macrolabp.isSome && cur name = '@' && cur name.tail = '.'
  let isLocal : Bool := escMacro || cur name = '.'
  if cur naam = '!' || isLocal then scope else { scope with vorlab := label }

/-- A label that sets the name space becomes the main label. -/
def setMainLabel (setNameSpace : Bool) (naam : Text) (label : Option Text) (s : AsmState n m) :
    AsmState n m :=
  match label with
  | some label => if setNameSpace then { s with scope := newMainLabel s.scope naam label } else s
  | none => s

/-- `ValidateLabel`. -/
def validateLabel (naam : Text) (setNameSpace ignoreCharAfter : Bool) :
    AsmProgram n m (Option Text) := do
  let s ← get
  let (label, reports) := Sjasmplus.validateLabel s.scope setNameSpace ignoreCharAfter naam
  report reports
  modify (setMainLabel setNameSpace naam label)
  pure label

/-- The value of the label `name`, as `GetLabelValue` finds it. -/
def labelValue (name : Text) : AsmProgram n m (Option Aint) := do
  let lp := (← get).lp
  modify fun s => { s with lp := name }
  let value ← read (getLabelValue ((← get).exprEnv true))
  modify fun s => { s with lp := lp }
  pure value

def setSize (name : Text) (size : Aint) : AsmProgram n m Unit :=
  modify fun s => match s.find name with
    | none => s
    | some label => s.setSymbol name { label with size := size }

/-- A label that is not found gets no size. -/
theorem final_setSize (name : Text) (size : Aint) (s : AsmState n m) :
    (s.find name = none ∧ (setSize name size).final s = s) ∨
      ∃ label, s.find name = some label ∧
        (setSize name size).final s = s.setSymbol name { label with size := size } := by
  unfold setSize
  rw [Program.final, Program.exec_modify]
  cases s.find name with
  | none => exact .inl ⟨rfl, rfl⟩
  | some label => exact .inr ⟨label, rfl, rfl⟩

/-- The traits of a label of a structure. -/
def structTraits (isRelocatable isDefine : Bool) : Traits where
  isStructD := isDefine
  isStructE := !isDefine
  hasRelocTrait := true
  isReloc := isRelocatable

/-- The passes before the last one in `InsertSingleStructLabel`. -/
def defineStructLabel (setNameSpace : Bool) (fullName : Text) (isRelocatable : Bool) (value : Aint)
    (isDefine : Bool) : AsmProgram n m Unit := do
  modify fun s => { s with
    flags := ⟨isRelocatable, if isRelocatable then .regular else .off⟩ }
  if ← tryInsert fullName value (structTraits isRelocatable isDefine) labelPageUndefined then
    Program.when (isDefine && setNameSpace) <| setSize fullName value
  else error "Duplicate label" (some fullName) .early

/-- The last pass in `InsertSingleStructLabel`. -/
def checkStructLabel (name fullName : Text) (value : Aint) : AsmProgram n m Unit := do
  match ← labelValue name with
  | none => fatal "Internal error. InsertSingleStructLabel()" (some fullName)
  | some oval =>
    Program.when (value ≠ oval) <| error "Label has different value in pass 2" (some fullName)

/-- The full name of a label of a structure: those of a definition come with it. -/
def structLabelName (setNameSpace : Bool) (name : Text) (isDefine : Bool) :
    AsmProgram n m (Option Text) :=
  if isDefine then pure (some name) else validateLabel name setNameSpace false

/-- `InsertSingleStructLabel`. -/
def insertSingleStructLabel (setNameSpace : Bool) (name : Text) (isRelocatable : Bool) (value : Aint)
    (isDefine : Bool) : AsmProgram n m Unit := do
  match ← structLabelName setNameSpace name isDefine with
  | none => pure ()
  | some fullName =>
    if (← get).pass = lastPass then checkStructLabel name fullName value
    else defineStructLabel setNameSpace fullName isRelocatable value isDefine

/-- `InsertStructSubLabels`. -/
def insertStructSubLabels (mainName : Text) (isRelocatable : Bool) (address : Aint)
    (isDefine : Bool) : List StructureLabel → AsmProgram n m Unit
  | [] => pure ()
  | member :: members => do
    insertSingleStructLabel false (mainName ++ '.' :: member.naam) isRelocatable
      (member.offset + address) isDefine
    insertStructSubLabels mainName isRelocatable address isDefine members

/-- `CStructure::deflab`. -/
def deflab (st : Structure) : AsmProgram n m Unit := do
  insertSingleStructLabel true st.naam false st.noffset true
  insertStructSubLabels st.naam false 0 true st.labels

/-- The warning of an instance that is not placed as its `ALIGN` members need it. -/
def warnMisaligned (st : Structure) (address : Aint) : AsmProgram n m Unit :=
  let misalignment := if st.maxAlignment ≠ 0 then -address &&& (st.maxAlignment - 1) else 0
  Program.when (misalignment ≠ 0) <| warning (misalignedMessage st misalignment)

/-- `CStructure::emitlab`. -/
def emitlab (st : Structure) (iid : Text) (address : Aint) (isRelocatable : Bool) :
    AsmProgram n m Unit := do
  warnMisaligned st address
  insertSingleStructLabel true iid isRelocatable address false
  insertStructSubLabels iid isRelocatable address false st.labels
  setSize iid st.noffset

/-! ### Members -/

/-- The flags of a default value, where the text gives no value. -/
def overrideFlags (keepRelocatableFlags : Bool) (defDeltaType : Relocation.EType) :
    AsmProgram n m Unit :=
  Program.when (!keepRelocatableFlags) <| modify fun s => { s with
    flags := ⟨s.flags.isResultAffected || defDeltaType ≠ .off, defDeltaType⟩ }

/-- The relocation data of `CStructureEntry2::ParseValue`. -/
def relocateValue (type : ValueType) (defDeltaType : Relocation.EType)
    (keepRelocatableFlags : Bool) : AsmProgram n m Unit := do
  let relocationType := (← get).relocationType
  if relocationType = .off then pure ()
  else
    if type = .byte ∧ relocationType = .high then
      overrideFlags keepRelocatableFlags defDeltaType
      resolveRelocationAffected (some 0) .high
      checkAndWarn
    else if type = .word then
      overrideFlags keepRelocatableFlags defDeltaType
      resolveRelocationAffected (some 0)
      checkAndWarn
    else checkAndWarn

/-- `CStructureEntry2::ParseValue`: a brace here belongs to a later member. -/
def parseValue (type : ValueType) (default : Aint) (defDeltaType : Relocation.EType) :
    AsmProgram n m Aint := do
  let _ ← skipBlanks
  if cur (← get).lp = '\x7b' then
    relocateValue type defDeltaType false
    pure default
  else
    let val ← parseExpressionNoSyntaxError
    let (kept, reports) := checkValue type (val.getD default)
    report reports
    relocateValue type defDeltaType val.isSome
    pure kept

/-- The bytes of a value are emitted from the lowest. -/
def emitValue (type : ValueType) (val : Aint) : AsmProgram n m Unit :=
  match type with
  | .byte => emitByte val
  | .word => emitWord val
  | .d24 => do
    emitByte (val &&& 0xFF)
    emitWord (val.sshiftRight 8 &&& 0xFFFF)
  | .dword => do
    emitWord (val &&& 0xFFFF)
    emitWord (val.sshiftRight 16 &&& 0xFFFF)

def emitText : List Byte → AsmProgram n m Unit
  | [] => pure ()
  | byte :: bytes => do
    emitByte (byte.setWidth 32)
    emitText bytes

/-- A turn of `CStructure::emitmembs`. -/
def emitMember (haakjes : Nat) (rest : List StructureMember) : MemberKind → AsmProgram n m Nat
  | .block len default => do
    emit (·.emitBlock (if default ≠ -1 then default else 0) len.toInt (default = -1))
    pure haakjes
  | .value type default defDeltaType => do
    let val ← parseValue type default defDeltaType
    emitValue type val
    memberComma rest
    pure haakjes
  | .text data => do
    let emitTextBuffer ← getStructText data.length (some data)
    emitText emitTextBuffer
    memberComma rest
    pure haakjes
  | .parenOpen => openBrace haakjes
  | .parenClose => do
    let closed ← closeBrace haakjes
    memberComma rest
    pure (closed.getD haakjes)

/-- The loop of `CStructure::emitmembs`. -/
def emitmembsLoop : List StructureMember → Nat → AsmProgram n m Nat
  | [], haakjes => closeBraces (pure ()) haakjes
  | ip :: rest, haakjes => do
    if ← startTurn haakjes then
      let haakjes ← emitMember haakjes rest ip.kind
      emitmembsLoop rest haakjes
    else pure haakjes

/-- `CStructure::emitmembs`. -/
def emitmembs (st : Structure) : AsmProgram n m Unit := do
  let haakjes ← openBrace 0
  clearResultAffected
  let haakjes ← emitmembsLoop st.members haakjes
  Program.when (haakjes ≠ 0) <| error "closing \x7d missing"
  let atEnd ← skipBlanks
  Program.when (!atEnd) <| error "[STRUCT] Syntax error - too many arguments?"
  checkAndWarn

/-! ### Statements -/

/-- `INT_MAX`, for an instance without a designed address. -/
def noDesignedAddress : Aint := 0x7FFFFFFF

/-- `ParseDesignedAddress`. -/
def parseDesignedAddress : AsmProgram n m Aint := do
  let _ ← skipBlanks
  let p := (← get).lp
  if cur p = '=' then
    modify fun s => { s with lp := p.tail }
    match ← parseExpressionNoSyntaxError with
    | some resultAdr => pure resultAdr
    | none =>
      error "[STRUCT] Syntax error in designed address" (some p.tail) .suppress
      pure 0
  else pure noDesignedAddress

/-- The labels of `CStructureTable::Emit`. -/
def emitLabels (st : Structure) (label : Text) (address : Aint) : AsmProgram n m Unit := do
  let s ← get
  let relocatable : Relocation.EType :=
    if address = noDesignedAddress then (if s.relocationType ≠ .off then .regular else .off)
    else if s.flags.isResultAffected then s.flags.deltaType
    else .off
  emitlab st label
    (if address = noDesignedAddress then BitVec.ofInt 32 s.curAddress else address)
    (relocatable = .regular)

/-- `CStructureTable::Emit` for a structure that was found. -/
def emitStructure (st : Structure) (label : Option Text) : AsmProgram n m Unit := do
  let address ← parseDesignedAddress
  match label with
  | some label =>
    emitLabels st label address
    Program.when (address = noDesignedAddress) <| emitmembs st
  | none =>
    if address = noDesignedAddress then emitmembs st
    else warning "[STRUCT] designed address without label = no effect"

end AsmProgram

end Sjasmplus
