import Sjasmplus.Assembler

/-!
# Structures (`CStructure` of `tables.cpp`, `ParseStruct…` of `parser.cpp`)

A structure is a list of members and a list of field labels with their offsets; `noffset` is its size
so far.  Members of a nested structure are copied between two markers for its braces.  An instance
walks over the members and over its initializer text at the same time and emits each member.
-/

namespace Sjasmplus

open Parsing ParseFn

variable {n m : Nat}

/-! ### Building a structure -/

namespace Structure

/-- `CStructure::AddMember`, with the member placed at the end. -/
def addMember (st : Structure) (kind : MemberKind) : Structure :=
  { st with
    members := st.members ++ [⟨st.noffset, kind⟩]
    noffset := st.noffset + kind.len }

/-- `CStructure::CopyLabel`. -/
def copyLabel (st : Structure) (naam : Text) (offset : Aint) : Structure :=
  { st with labels := st.labels ++ [⟨naam, st.noffset + offset⟩] }

/-- `CStructure::AddLabel`. -/
def addLabel (st : Structure) (naam : Text) : Structure := st.copyLabel naam 0

/-- `CStructure::CopyLabels`. -/
def copyLabels (st : Structure) (previousIsLabel : Option Text) (source : Structure) : Structure :=
  match previousIsLabel with
  | none => st
  | some outer =>
    source.labels.foldl (fun st np => st.copyLabel (outer ++ '.' :: np.naam) np.offset) st

/-- The structure that `CStructureTable::Add` starts with. -/
def init (naam : Text) (offset : Aint) : Structure :=
  let st : Structure := ⟨naam, [], [], 0, 0⟩
  if offset ≠ 0 then st.addMember (.block offset (-1)) else st

end Structure

namespace AsmProgram

def clearResultAffected : AsmProgram n m Unit :=
  modify fun s => { s with flags := { s.flags with isResultAffected := false } }

/-! ### Texts of members -/

/-- Write bytes into a buffer. -/
def writeBytes (data : List Byte) (ii : Nat) (bytes : List Byte) : List Byte :=
  data.take ii ++ bytes ++ data.drop (ii + bytes.length)

/-- The end of a turn of `GetStructText`, where an expression is expected.  The result is the buffer,
how much of it is written, and whether the loop may go on. -/
def structTextExpression (len : Nat) (data : List Byte) (ii : Nat) :
    AsmProgram n m ((List Byte × Nat) × Bool) := do
  if len ≤ ii then
    error "Maximum length of struct text reached. Values over" (some (← get).lp) .suppress
    pure ((data, ii), false)
  else
    match ← parseExpressionNoSyntaxError with
    | some val =>
      report (check8 val)
      pure ((writeBytes data ii [val.setWidth 8], ii + 1), true)
    | none =>
      error "Syntax error" (some (← get).lp) .suppress
      pure ((data, ii), false)

/-- A turn of `GetStructText`: a string literal, or an expression. -/
def structTextElement (len : Nat) (data : List Byte) (ii : Nat) :
    AsmProgram n m ((List Byte × Nat) × Bool) := do
  let oldP := (← get).lp
  let (strRes, bytes) := (← read (getCharConstAsString (len - ii) 0)).getD (0, [])
  let p := Sjasmplus.skipBlanks (← get).lp
  let written := writeBytes data ii (bytes.map (BitVec.ofNat 8))
  if 0 < strRes then
    -- a single character may start an expression, like `'a'|128`
    if bytes.length = 1 ∧ cur p ≠ '\x00' ∧ cur p ≠ ',' ∧ cur p ≠ '\x7d' then
      modify fun s => { s with lp := oldP }
      structTextExpression len written ii
    else pure ((written, ii + bytes.length), true)
  else if strRes = -1 then pure ((written, ii + bytes.length), false)
  else if strRes = -2 then
    error "Maximum length of struct text reached. Values over" (some (← get).lp) .suppress
    pure ((written, ii + bytes.length), false)
  else structTextExpression len written (ii + bytes.length)

/-- The loop of `GetStructText`.  A turn that goes on has consumed a comma, so the length of the
source that is left is enough fuel. -/
def structTextLoop (len : Nat) : Nat → List Byte → Nat → AsmProgram n m (List Byte × Nat)
  | 0, data, ii => pure (data, ii)
  | fuel + 1, data, ii => do
    if ← prepareNonBlankMultiLine then
      if cur (← get).lp = '\x7d' then pure (data, ii)
      else
        let ((data, ii), goOn) ← structTextElement len data ii
        if goOn then
          if ← comma then structTextLoop len fuel data ii else pure (data, ii)
        else pure (data, ii)
    else pure (data, ii)

/-- What is left of the source. -/
def sourceLeft (s : AsmState n m) : Nat :=
  s.lp.length + (s.lines.map (·.substituted.length)).sum + 1

/-- The bytes behind those that the text gives. -/
def fillText (len : Nat) (initData : Option (List Byte)) (data : List Byte) (ii : Nat) : List Byte :=
  data.take ii ++ match initData with
    | some initData => initData.drop ii
    | none => List.replicate (len - ii) (if 0 < ii then data.getD (ii - 1) 0 else 0)

/-- The closing brace behind a text, perhaps on a later line. -/
def textEnd : AsmProgram n m Bool := do
  if ← prepareNonBlankMultiLine then need '\x7d' else pure false

/-- `GetStructText`: the bytes of a text member. -/
def getStructText (len : Nat) (initData : Option (List Byte)) : AsmProgram n m (List Byte) := do
  clearResultAffected
  if ← need '\x7b' then
    let (data, ii) ← structTextLoop len (sourceLeft (← get)) (List.replicate len 0) 0
    if ← textEnd then
      checkAndWarn
      pure (fillText len initData data ii)
    else
      error "TEXT field value must be enclosed in curly braces, missing '\x7d'" (some (← get).lp)
      pure data
  else
    match initData with
    | some initData => pure initData
    | none =>
      error "TEXT field value must be enclosed in curly braces, missing '\x7b'" (some (← get).lp)
      pure (List.replicate len 0)

/-! ### Copying the members of a nested structure -/

/-- The comma behind a member, unless the next one closes a nested structure. -/
def memberComma (rest : List StructureMember) : AsmProgram n m Unit :=
  match rest with
  | [] => pure ()
  | next :: _ => Program.when (next.kind ≠ .parenClose) <| do
    let _ ← anyComma

/-- The turns behind the last member: a closing brace each.  The result is how many are missing. -/
def closeBraces (turn : AsmProgram n m Unit) : Nat → AsmProgram n m Nat
  | 0 => pure 0
  | haakjes + 1 => do
    turn
    if ← prepareNonBlankMultiLine then
      if ← need '\x7d' then closeBraces turn haakjes else pure (haakjes + 1)
    else pure (haakjes + 1)

/-- An opening brace in front of a member list. -/
def openBrace (haakjes : Nat) : AsmProgram n m Nat :=
  scan fun p =>
    let p := Sjasmplus.skipBlanks p
    if cur p = '\x7b' then (haakjes + 1, p.tail) else (haakjes, p)

/-- A closing brace, when one is open. -/
def closeBrace (haakjes : Nat) : AsmProgram n m (Option Nat) :=
  scan fun p =>
    let p := Sjasmplus.skipBlanks p
    if haakjes ≠ 0 ∧ cur p = '\x7d' then (some (haakjes - 1), p.tail) else (none, p)

/-- Inside braces a turn starts on a line that is not blank. -/
def startTurn (haakjes : Nat) : AsmProgram n m Bool :=
  if 0 < haakjes then prepareNonBlankMultiLine else pure true

/-- Clear the flags of a default value, with a warning when it can not be relocated. -/
def clearFlags : ValueType → AsmProgram n m Unit
  | .word => resolveRelocationAffected none
  | .byte => resolveRelocationAffected none .high
  | .d24 | .dword => pure ()

/-- A default value that may be relocated. -/
def relocatableDefault (type : ValueType) (val : Aint) (flags : Relocation.Flags) : MemberKind :=
  .value type val
    (if flags.isResultAffected ∧ (type = .word ∨ type = .byte) then flags.deltaType else .off)

/-- The values of `CopyMembers`: the new default of a member and its class. -/
def copyValue (type : ValueType) (default : Aint) (defDeltaType : Relocation.EType) :
    AsmProgram n m MemberKind := do
  let val ← parseExpressionNoSyntaxError
  let flags := (← get).flags
  clearFlags type
  pure <| match val with
    | some val => relocatableDefault type val flags
    | none => .value type default defDeltaType

/-- A turn of `CStructure::CopyMembers`. -/
def copyMember (st : Structure) (haakjes : Nat) (rest : List StructureMember) :
    MemberKind → AsmProgram n m (Structure × Nat)
  | .block len default => pure (st.addMember (.block len default), haakjes)
  | .value type default defDeltaType => do
    let kind ← copyValue type default defDeltaType
    memberComma rest
    pure (st.addMember kind, haakjes)
  | .text data => do
    let textData ← getStructText data.length (some data)
    memberComma rest
    pure (st.addMember (.text textData), haakjes)
  | .parenOpen => do
    let haakjes ← openBrace haakjes
    pure (st.addMember .parenOpen, haakjes)
  | .parenClose => do
    match ← closeBrace haakjes with
    | some haakjes =>
      memberComma rest
      pure (st.addMember .parenClose, haakjes)
    | none => pure (st.addMember .parenClose, haakjes)

/-- The loop of `CStructure::CopyMembers`. -/
def copyMembersLoop : List StructureMember → Structure → Nat → AsmProgram n m (Structure × Nat)
  | [], st, haakjes => do
    let haakjes ← closeBraces clearResultAffected haakjes
    pure (st, haakjes)
  | ip :: rest, st, haakjes => do
    clearResultAffected
    if ← startTurn haakjes then
      let (st, haakjes) ← copyMember st haakjes rest ip.kind
      checkAndWarn
      copyMembersLoop rest st haakjes
    else pure (st, haakjes)

/-- `CStructure::CopyMembers`. -/
def copyMembers (st source : Structure) : AsmProgram n m Structure := do
  let haakjes ← openBrace 0
  let (st, haakjes) ← copyMembersLoop source.members (st.addMember .parenOpen) haakjes
  Program.when (haakjes ≠ 0) <| error "closing \x7d missing"
  pure (st.addMember .parenClose)

/-! ### The lines of a definition -/

/-- `GetID`. -/
def getID (p : Text) : Option Text × Text :=
  let p := Sjasmplus.skipBlanks p
  if cur p = '\x00' ∨ (!isLabelStart p false ∧ cur p ≠ '.') then (none, p)
  else (some (p.takeWhile islabchar), p.dropWhile islabchar)

/-- A name of a structure, perhaps with `@` in front: the name, whether it is global, and the text
behind it. -/
def structureName (p : Text) : Option Text × Bool × Text :=
  let pp := Sjasmplus.skipBlanks p
  let gl : Bool := cur pp = '@'
  let (id, pp) := getID (if gl then pp.tail else pp)
  (id, gl, pp)

/-- `CStructureTable::zoek`. -/
def zoek (s : AsmState n m) (naam : Text) (gl : Bool) : Option Structure :=
  let prependNS := if gl then []
    else if cur naam = '.' then s.scope.vorlab
    else if s.scope.moduleName ≠ [] then s.scope.moduleName ++ ['.']
    else []
  let sn := prependNS ++ naam
  match s.structures.find? (·.naam = sn) with
  | some st => some st
  | none =>
    if gl ∨ s.scope.moduleName = [] then none
    else s.structures.find? (·.naam = sn.drop (1 + s.scope.moduleName.length))

/-- The results of `GetStructMemberId`. -/
inductive MemberId
  | unknown | align | block | text
  | value (type : ValueType)
deriving DecidableEq, Repr

/-- The keywords of `GetStructMemberId`. -/
def memberKeywords : List (String × MemberId) :=
  [("byte", .value .byte), ("word", .value .word), ("block", .block), ("db", .value .byte),
    ("dw", .value .word), ("dword", .value .dword), ("ds", .block), ("dd", .value .dword),
    ("align", .align), ("defs", .block), ("defb", .value .byte), ("defw", .value .word),
    ("defd", .value .dword), ("d24", .value .d24), ("text", .text)]

/-- `GetStructMemberId`. -/
def getStructMemberId : AsmProgram n m MemberId :=
  scan fun p =>
    if cur p = '#' then
      if cur p.tail = '#' then (.align, p.tail.tail) else (.block, p.tail)
    else
      (memberKeywords.findSome? fun kw => (cmphstr p kw.1.toList).map fun q => (kw.2, q)).getD
        (.unknown, p)

/-- `ParseAlignArguments`: the alignment and the fill byte, -1 where there is none. -/
def parseAlignArguments (bp : Text) : AsmProgram n m (Aint × Aint) := do
  let _ ← skipBlanks
  let oldSrc := (← get).lp
  match ← parseExpression with
  | none => pure (-1, -1)
  | some alignment =>
    Program.when ((← get).relocationType ≠ .off) <|
      report [.warningById .relocatableAlign none .pass3]
    -- only the powers of two from the 0th to the 15th
    if alignment.toInt < 1 ∨ 0x8000 < alignment.toInt ∨ alignment &&& (alignment - 1) ≠ 0 then
      error "[ALIGN] Illegal align" (some oldSrc) .suppress
      pure (0, -1)
    else if ← comma then
      match ← read (parseExpressionEntry ((← get).exprEnv true)) with
      | none =>
        error "[ALIGN] fill-byte expected after comma" (some bp) .ifFirst
        pure (alignment, -1)
      | some fill =>
        if fill.toInt < 0 ∨ 255 < fill.toInt then
          error "[ALIGN] Illegal align fill-byte" (some oldSrc) .suppress
          pure (alignment, -1)
        else pure (alignment, fill)
    else pure (alignment, -1)

/-- The checks of a value and the bits that are kept of it. -/
def checkValue : ValueType → Aint → Reported Aint
  | .byte, val => (val &&& 0xFF, check8 val)
  | .word, val => (val &&& 0xFFFF, check16 val)
  | .d24, val => (val &&& 0xFFFFFF, check24 val)
  | .dword, val => (val, [])

/-- An expression of a `BLOCK` member, or an error and a default. -/
def blockArgument (default : Aint) : AsmProgram n m Aint := do
  match ← parseExpression with
  | some val => pure val
  | none =>
    error "[STRUCT] Expression expected"
    pure default

/-- The case `SMEMBBLOCK` of `ParseStructMember`. -/
def parseBlockMember (st : Structure) : AsmProgram n m Structure := do
  let len ← blockArgument 1
  if ← comma then
    let val ← blockArgument 0
    report (check8 val)
    pure (st.addMember (.block len (val &&& 255)))
  else pure (st.addMember (.block len (-1)))

/-- The cases of `ParseStructMember` for values.  The class of a default only matters where it may be
relocated. -/
def parseValueMember (st : Structure) (type : ValueType) : AsmProgram n m Structure := do
  let val := (← parseExpression).getD 0
  report (checkValue type val).2
  let flags := (← get).flags
  clearFlags type
  pure (st.addMember (relocatableDefault type val flags))

/-- `TEXT_MAX_SIZE`. -/
def textMaxSize : Int := 8192

/-- The case `SMEMBTEXT` of `ParseStructMember`. -/
def parseTextMember (st : Structure) : AsmProgram n m Structure := do
  let len := ((← parseExpression).map BitVec.toInt).getD 0
  if len < 1 ∨ textMaxSize < len then
    error "[STRUCT] Expression for length of text expected (1..8192)"
    modify fun s => { s with lp := [] }
    pure st
  else if ← comma then
    let textData ← getStructText len.toNat none
    pure (st.addMember (.text textData))
  else
    Program.when (!(← skipBlanks)) <|
      error "[STRUCT] Comma expected" (some (← get).lp) .suppress
    pure (st.addMember (.text (List.replicate len.toNat 0)))

/-- The bytes from an address to the next multiple of an alignment. -/
def alignmentGap (address alignment : Aint) : Aint := (~~~address + 1) &&& (alignment - 1)

/-- The case `SMEMBALIGN` of `ParseStructMember`. -/
def parseAlignMember (st : Structure) (bp : Text) : AsmProgram n m Structure := do
  let (val, fill) ← parseAlignArguments bp
  let val := if val = -1 then 4 else val
  let st := { st with maxAlignment := if st.maxAlignment.slt val then val else st.maxAlignment }
  let bytesToAdvance := alignmentGap st.noffset val
  pure (if bytesToAdvance.toInt < 1 then st else st.addMember (.block bytesToAdvance fill))

/-- A message about a structure that is not placed as its `ALIGN` members need it. -/
def misalignedMessage (st : Structure) (misalignment : Aint) : String :=
  "Struct " ++ String.ofList st.naam ++ " did use ALIGN " ++ toString st.maxAlignment.toInt ++
    " in definition, but here it is misaligned by " ++ toString misalignment.toInt ++ " bytes"

/-- The default case of `ParseStructMember`: an instance of another structure. -/
def parseNestedMember (st : Structure) : AsmProgram n m Structure := do
  let s ← get
  match structureName s.lp with
  | (some naam, gl, pp) =>
    match zoek s naam gl with
    | none => pure st
    | some source =>
      if source.naam = st.naam then
        error "[STRUCT] Can't include itself"
        modify fun s => { s with lp := [] }
        pure st
      else
        let misalignment := alignmentGap st.noffset source.maxAlignment
        Program.when (source.maxAlignment ≠ 0 ∧ misalignment ≠ 0) <|
          warning (misalignedMessage source misalignment)
        modify fun s => { s with lp := pp }
        copyMembers (st.copyLabels s.previousIsLabel source) source
  | (none, _, _) => pure st

/-- The `switch` of `ParseStructMember`. -/
def parseMember (st : Structure) (bp : Text) : MemberId → AsmProgram n m Structure
  | .block => parseBlockMember st
  | .value type => parseValueMember st type
  | .text => parseTextMember st
  | .align => parseAlignMember st bp
  | .unknown => parseNestedMember st

/-- `ParseStructMember`. -/
def parseStructMember (st : Structure) : AsmProgram n m Structure := do
  let bp := (← get).lp
  clearResultAffected
  let st ← parseMember st bp (← getStructMemberId)
  checkAndWarn
  pure st

/-- `ParseStructLabel`. -/
def parseStructLabel (st : Structure) : AsmProgram n m Structure := do
  let p := (← get).lp
  modify fun s => { s with previousIsLabel := none }
  if white (cur p) then pure st
  else
    let p := if cur p = '.' then p.tail else p
    let temp := p.takeWhile islabchar
    let p := p.dropWhile islabchar
    let p := if cur p = ':' then p.tail else p
    modify fun s => { s with lp := Sjasmplus.skipBlanks p }
    if (cur temp).isDigit then
      error "[STRUCT] Number labels not allowed within structs"
      pure st
    else
      modify fun s => { s with previousIsLabel := some temp }
      pure (st.addLabel temp)

/-- `ParseStructLine`, at the substituted line. -/
def parseStructLine (st : Structure) : AsmProgram n m Structure := do
  if cur (← get).lp = '\x00' then pure st
  else
    let st ← parseStructLabel st
    if ← skipBlanks then pure st
    else
      let st ← parseStructMember st
      if ← skipBlanks then pure st
      else
        error "[STRUCT] Unexpected" (some (← get).lp)
        pure st

end AsmProgram

end Sjasmplus
