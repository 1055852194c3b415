import Sjasmplus.StructureInstance

/-!
# Labels of a line (`ParseLabel` of `parser.cpp`, `dirSTRUCT`)

A line may start with a temporary label, a label with `EQU`, `DEFL` or `=` and a value, a label with
an instance of a structure, or a label for the current address.  Passes before the last one insert
the label; the last one only compares its value with the one that was found, except for `DEFL`.
-/

namespace Sjasmplus

open Parsing ParseFn

variable {n m : Nat}

namespace AsmState

/-- `TemporaryLabel`, with the class of the current address. -/
def temporaryLabel (s : AsmState n m) (labelNumber : Aint) : TemporaryLabel where
  nummer := labelNumber
  value := BitVec.ofInt 32 s.curAddress
  isRelocatable := s.relocationType ≠ .off

end AsmState

namespace AsmProgram

/-- `CTemporaryLabelTable::InsertRefresh`. -/
def insertRefresh (labelNumber : Aint) : AsmProgram n m Bool := do
  let s ← get
  set { s with nextPassLabels := s.nextPassLabels ++ [s.temporaryLabel labelNumber] }
  match s.labels[s.nextPassLabels.length]? with
  | none => pure false
  | some label =>
    if label.nummer ≠ labelNumber then pure false
    else
      Program.when (label.value ≠ BitVec.ofInt 32 s.curAddress) <|
        warning "Temporary label has different address"
      pure true

/-- The keyword ahead, perhaps with a dot in front. -/
def dottedKeyword (kw : String) (p : Text) : Option Text :=
  let p := Sjasmplus.skipBlanks p
  cmphstr (if cur p = '.' then p.tail else p) kw.toList

/-- `NeedEQU`. -/
def needEQU : AsmProgram n m Bool :=
  scan fun p => match dottedKeyword "equ" p with
    | some q => (true, q)
    | none => (false, p)

/-- `NeedDEFL`. -/
def needDEFL : AsmProgram n m Bool :=
  scan fun p =>
    if cur (Sjasmplus.skipBlanks p) = '=' then (true, (Sjasmplus.skipBlanks p).tail)
    else match dottedKeyword "defl" p with
      | some q => (true, q)
      | none => (false, p)

/-- The value of a definition, 0 with an error when there is none. -/
def definedValue : AsmProgram n m Aint := do
  match ← parseExpressionNoSyntaxError with
  | some val => pure val
  | none =>
    error "Expression error" (some (← get).lp)
    pure 0

/-- The page behind a comma. -/
def pageArgument : AsmProgram n m Page := do
  if ← comma then
    match ← parseExpressionNoSyntaxError with
    | some equPageNum => pure (equPageNum.setWidth 16).toInt
    | none =>
      error "Expression error" (some (← get).lp)
      pure labelPageUndefined
  else pure labelPageUndefined

/-- Only `EQU` takes a page. -/
def equPage (isEQU : Bool) : AsmProgram n m Page :=
  if isEQU then pageArgument else pure labelPageUndefined

/-- The operands of `EQU`, `DEFL` and `=`. -/
def definition (isDEFL isEQU : Bool) : AsmProgram n m (Aint × Page) := do
  clearResultAffected
  let val ← definedValue
  Program.when ((← get).isLabelNotFound && isDEFL) <| error "Forward reference" none .early
  let equPageNum ← equPage isEQU
  let atEnd ← skipBlanks
  Program.when (!atEnd) <| do
    error "Unexpected" (some (← get).lp)
    modify fun s => { s with lp := [] }
  pure (val, equPageNum)

/-- The last pass of a label: `DEFL` sets it once more, every other label must have its value. -/
def checkLabel (tp : Text) (val : Aint) (traits : Traits) : AsmProgram n m Unit := do
  Program.when (((← get).find tp).isNone && traits.isDefl) <| do
    let _ ← tryInsert tp val traits labelPageUndefined
  if ((← get).find tp).isNone then error "Label not found" (some tp)
  else
    Program.when traits.isDefl <| do
      let _ ← tryInsert tp val traits labelPageUndefined
    match (← get).symbols tp with
    | none => pure ()
    | some label =>
      if val ≠ label.value then
        warning "Label has different value in pass 3" (some ("previous value " ++
          toString label.value.toNat ++ " not equal " ++ toString val.toNat).toList)
        modify fun s => s.update tp val
      else modify fun s => s.setSymbol tp { label with updatePass := s.pass }

/-- The end of `ParseLabel`: a label with its full name gets its value. -/
def setLabel (tp : Text) (val : Aint) (traits : Traits) (equPageNum : Page) :
    AsmProgram n m Unit := do
  if (← get).pass = lastPass then checkLabel tp val traits
  else if (← get).pass = 2 then
    let inserted ← tryInsert tp val traits equPageNum
    Program.when (!inserted) <| modify fun s => s.update tp val
  else
    let inserted ← tryInsert tp val traits equPageNum
    Program.when (!inserted) <| error "Duplicate label" (some tp) .early

/-- A label for the current address. -/
def addressLabel (temp : Text) (smcOffset : Aint) : AsmProgram n m Unit := do
  let val := BitVec.ofInt 32 (← get).curAddress + smcOffset
  match ← validateLabel temp true false with
  | none => pure ()
  | some tp => setLabel tp val {} labelPageUndefined

/-- A label with `EQU`, `DEFL` or `=`. -/
def definedLabel (temp : Text) (smcOffset : Aint) (isDEFL isEQU : Bool) : AsmProgram n m Unit := do
  let (val, equPageNum) ← definition isDEFL isEQU
  match ← validateLabel temp true false with
  | none => pure ()
  | some tp => setLabel tp (val + smcOffset) { isDefl := isDEFL, isEqu := isEQU } equPageNum

/-- A label with an instance of a structure. -/
def structureInstance (st : Structure) (temp : Text) (smcOffset : Aint) : AsmProgram n m Unit := do
  emitStructure st (some temp)
  Program.when (smcOffset ≠ 0) <| error "Structure instance can't use SMC-offset"
  let _ ← validateLabel temp true false

/-- A label for the current address or one with an instance of a structure. -/
def addressOrStructure (temp : Text) (smcOffset : Aint) : AsmProgram n m Unit := do
  let s ← get
  match structureName s.lp with
  | (some naam, gl, p) =>
    match zoek s naam gl with
    | some st =>
      modify fun s => { s with lp := p }
      structureInstance st temp smcOffset
    | none => addressLabel temp smcOffset
  | (none, _, _) => addressLabel temp smcOffset

/-- `NeedEQU() || NeedDEFL()`. -/
def needDefinition : AsmProgram n m Bool := do
  if ← needEQU then pure true else needDEFL

/-- A label that starts with a digit. -/
def numberLabel (temp : Text) (smcOffset : Aint) : AsmProgram n m Unit := do
  if smcOffset ≠ 0 then error "Temporary label can't use SMC-offset"
  else if !temp.all Char.isDigit then
    error "Invalid temporary label (not a number)" (some temp)
  else if ← needDefinition then
    error "Number labels are allowed as address labels only, not for DEFL/=/EQU" (some temp)
      .suppress
  else
    let inserted ← insertRefresh (BitVec.ofNat 32 (Nat.ofDigitChars 10 temp 0))
    Program.when (!inserted) <| error
      "Temporary labels flow differs in last pass (missing/new temporary label since previous pass)"

/-- `isMacroNext`. -/
def isMacroNext : AsmProgram n m Bool := do
  if ← skipBlanks then pure false
  else pure (dottedKeyword "macro" (← get).lp).isSome

/-- A label that does not start with a digit. -/
def namedLabel (temp : Text) (smcOffset : Aint) : AsmProgram n m Unit := do
  if ← isMacroNext then
    Program.when (smcOffset ≠ 0) <| error "Macro name can't use SMC-offset"
  else
    let isDEFL ← needDEFL
    let isEQU ← needEQU
    if isDEFL || isEQU then definedLabel temp smcOffset isDEFL isEQU
    else addressOrStructure temp smcOffset

/-- The characters in front of which the name of a label ends. -/
def endsLabel (c : Char) : Bool := white c || c = ':' || c = '=' || c = '+' || c = '\x00'

/-- `+<digit>` behind a label. -/
def smcDigit : AsmProgram n m Aint :=
  scan fun p =>
    if cur p = '+' ∧ (cur p.tail).isDigit ∧ !(cur (p.drop 2)).isAlphanum then
      (BitVec.ofNat 32 ((cur p.tail).toNat - '0'.toNat), p.drop 2)
    else (0, p)

/-- `+*` behind a label. -/
def smcStar : AsmProgram n m Bool :=
  scan fun p =>
    if cur p = '+' ∧ cur p.tail = '*' ∧ !(cur (p.drop 2)).isAlphanum then (true, p.drop 2)
    else (false, p)

/-- `ParseLabel`, at a line that starts with a label.  `smart` is what the table of smart SMC offsets
has for this line. -/
def parseLabel (smart : Reported Aint) : AsmProgram n m Unit := do
  let temp ← scan fun p => (p.takeWhile (!endsLabel ·), p.dropWhile (!endsLabel ·))
  let smcOffset ← smcDigit
  let star ← smcStar
  Program.when star <| report smart.2
  let smcOffset := if star then smart.1 else smcOffset
  let _ ← scan fun p => ((), Sjasmplus.skipBlanks (if cur p = ':' then p.tail else p))
  modify fun s => { s with isLabelNotFound := false }
  if (cur temp).isDigit then numberLabel temp smcOffset else namedLabel temp smcOffset

/-! ### `STRUCT` -/

/-- `CStructureTable::Add`. -/
def addStructure (naam : Text) (offset : Aint) : AsmProgram n m (Option Structure) := do
  if (← get).structures.any (·.naam = naam) then
    error "[STRUCT] Structure already exist" (some naam)
    pure none
  else
    let st := Structure.init naam offset
    modify fun s => { s with structures := st :: s.structures }
    pure (some st)

/-- The end of a definition: its labels, and the table holds it as it is now. -/
def endStructure (st : Option Structure) : AsmProgram n m Unit := do
  match st with
  | none => pure ()
  | some st =>
    modify fun s => { s with
      structures := s.structures.map fun old => if old.naam = st.naam then st else old }
    deflab st

/-- The text behind `ENDS`. -/
def endsKeyword (line : Text) : Bool := (dottedKeyword "ends" line).isSome

/-- A line of a definition, which is only skipped when the structure exists already. -/
def structureLine : Option Structure → AsmProgram n m (Option Structure)
  | none => pure none
  | some st => do
    let st ← parseStructLine st
    pure (some st)

/-- The lines of a definition.  Every turn takes one line, so their number is enough fuel. -/
def structureLines : Nat → Option Structure → AsmProgram n m Unit
  | 0, st => do
    error "[STRUCT] Unexpected end of structure"
    endStructure st
  | fuel + 1, st => do
    match (← get).lines with
    | [] =>
      error "[STRUCT] Unexpected end of structure"
      endStructure st
    | line :: lines =>
      modify fun s => { s with lp := line.substituted, lines := lines }
      if endsKeyword line.line then endStructure st
      else
        let st ← structureLine st
        structureLines fuel st

/-- The initial offset of a structure, missing when it has a syntax error. -/
def structureOffset : AsmProgram n m (Option Aint) := do
  if ← comma then
    modify fun s => { s with isLabelNotFound := false }
    match ← parseExpressionNoSyntaxError with
    | none =>
      error "[STRUCT] Offset syntax error" (some (← get).lp) .suppress
      pure none
    | some offset =>
      Program.when (← get).isLabelNotFound <|
        error "[STRUCT] Forward reference" none .early
      pure (some offset)
  else pure (some 0)

/-- `dirSTRUCT`. -/
def dirSTRUCT : AsmProgram n m Unit := do
  let _ ← skipBlanks
  match ← validateLabel (← get).lp false true with
  | none => modify fun s => { s with lp := [] }
  | some validLabel =>
    -- a modifier is part of the label characters
    let _ ← scan fun p => ((), p.dropWhile islabchar)
    match ← structureOffset with
    | none => pure ()
    | some offset =>
      let atEnd ← skipBlanks
      Program.when (!atEnd) <|
        error "[STRUCT] syntax error, unexpected" (some (← get).lp)
      let st ← addStructure validLabel offset
      structureLines (← get).lines.length st

end AsmProgram

end Sjasmplus
