import Sjasmplus.Lib.Restoration
import Sjasmplus.MacroLabels
import Sjasmplus.ReadLine
import Sjasmplus.Structure

/-!
# Macro calls (`CMacroTable::Emit` of `tables.cpp`)

`macroEmit` reads the arguments of a macro call, and processes the lines of the body.  A line may call
macros again, repeat or skip lines, open modules, or include files, so the statements that do something
to the lines, or around them, are modelled here with it: `DUP` and `WHILE`, `IF`, `MODULE`,
`INCLUDE` and the dot repeater.

How the text of a line is read is a parameter (`StatementParser`): any function of the state may say
what a line is.  What all other statements do is an update of a world of any type.
-/

namespace Sjasmplus

open Program

/-! ### The state -/

/-- A line of a `CStringsList`; the list itself is a `List`. -/
structure BodyLine where
  string : Option Text
  source : TextFilePos
deriving DecidableEq, Repr

/-- `CMacroTableEntry`. -/
structure MacroTableEntry where
  args : List Text
  body : List BodyLine

/-- `SRepeatStack`.  `Pointer` is the last one of the lines. -/
structure Repeat where
  repeatCount : Int
  repeatCondition : Option Text
  sourcePos : TextFilePos
  lines : List BodyLine
  isInWork : Bool
  level : Nat

/-- The globals that macro calls and the statements around lines use.  The stacks of sources and repeats
have their top at the end.  `source` has the lines that are left in the current file.  `opened` and
`closed` only count the modules. -/
structure ExpandState (ω : Type) where
  macs : Text → Option MacroTableEntry
  macsUsed : Nat → Bool
  macronummer : Nat
  macrolabp : Option Text
  defs : List (Text × Text)
  used : Nat → Bool
  lijstp : List BodyLine
  lijst : Nat
  listmacro : Nat
  sourceBlockLevel : Int
  sourcePosStack : List TextFilePos
  line : Text
  repeatStack : List Repeat
  moduleName : Text
  includeLevel : Int
  source : List Text
  isRunning : Bool
  world : ω
  log : List Event
  opened : Nat
  closed : Nat

variable {ω : Type}

/-- A function of the assembler; a fatal error ends it. -/
abbrev ExpandProgram (ω : Type) := Program (ExpandState ω)

/-- `Error`. -/
def reportError (message : String) (badValueMessage : Option Text := none)
    (type : EStatus := .pass3) : ExpandProgram ω Unit :=
  modify fun s => { s with log := s.log ++ [.error message badValueMessage type] }

/-- `sourcePosStack.back() = pos`. -/
def setSourcePos (pos : TextFilePos) : ExpandProgram ω Unit :=
  modify fun s => { s with sourcePosStack := s.sourcePosStack.dropLast ++
    s.sourcePosStack.getLast?.toList.map fun _ => pos }

/-- `(*name)&127`. -/
def nameSlot (name : Text) : Nat := (cur name).toNat % 128

/-! ### Macro defines -/

/-- `CMacroDefineTable::ReInit`. -/
def reInit : ExpandProgram ω Unit := modify fun s => { s with defs := [], used := fun _ => false }

/-- `CMacroDefineTable::AddMacro`. -/
def addMacro (naam vervanger : Text) : ExpandProgram ω Unit :=
  modify fun s => { s with
    defs := (naam, vervanger) :: s.defs
    used := fun slot => slot = nameSlot naam || s.used slot }

/-- `CMacroDefineTable::getverv`. -/
def getverv (s : ExpandState ω) (name : Text) : Option Text :=
  if s.used (nameSlot name) then s.defs.lookup name else none

/-! ### Arguments -/

/-- `comma`: the position is behind a comma that is not doubled, or else behind the blanks. -/
def takeComma (p : Text) : Bool × Text :=
  let p := skipBlanks p
  if cur p ≠ ',' ∨ cur p.tail = ',' then (false, p) else (true, p.tail)

/-- `EDelimiterType`, without `DT_NONE`. -/
inductive Delimiter
  | quotes | apostrophe | angle
deriving DecidableEq, Repr

/-- `DelimiterBegins`, with `delimiters_all` or `delimiters_noAngle`. -/
def delimiterBegins (c : Char) (angle : Bool) : Option Delimiter :=
  if c = '"' then some .quotes
  else if c = '\'' then some .apostrophe
  else if angle && c = '<' then some .angle
  else none

/-- `delimiters_e`. -/
def Delimiter.ending : Delimiter → Char
  | .quotes => '"'
  | .apostrophe => '\''
  | .angle => '>'

/-- A character that may be a digit of a number. -/
def isDigitLike (c : Char) : Bool :=
  let prevC := lower20 c
  ('0'.toNat ≤ prevC && prevC ≤ '9'.toNat) || ('a'.toNat ≤ prevC && prevC ≤ 'f'.toNat)

/-- The delimiter at a character, when no digits of a number are around it. -/
def argumentDelimiter (prev : Option Char) (c next : Char) : Option Delimiter :=
  match delimiterBegins c prev.isNone with
  | some .apostrophe =>
    if prev.any isDigitLike && isDigitLike next then none else some .apostrophe
  | delI => delI

/-- The two characters of an escape sequence inside of delimiters, as they are copied. -/
def argumentEscape (delI : Delimiter) (c next : Char) : Option Text :=
  match delI with
  | .angle => if c = '!' ∧ (next = '!' ∨ next = '>') then some [next] else none
  | .quotes => if c = '\\' then some [c, next] else none
  | .apostrophe => if c = '\'' ∧ next = '\'' then some [c, next] else none

/-- The loops of `GetMacroArgumentValue`, with the delimiter that is open, the character in front, the
value so far and how much of it must not be trimmed.  There is no value when a delimiter is missing. -/
def argumentLoop (delI : Option Delimiter) (prev : Option Char) (dst : Text) (dstStopTrim : Nat) :
    Text → Option Text × Text
  | [] =>
    match delI with
    | some _ => (none, [])
    | none => (some (dst.take dstStopTrim ++ (dst.drop dstStopTrim).rdropWhile white), [])
  | [c] =>
    match delI with
    | some delI =>
      if c = delI.ending then
        (some (if delI = .angle then dst else dst ++ [c]), [])
      else (none, [])
    | none =>
      if c = ',' then (some (dst.take dstStopTrim ++ (dst.drop dstStopTrim).rdropWhile white), [c])
      else
        match argumentDelimiter prev c '\x00' with
        | some _ => (none, [])
        | none =>
          let dst := dst ++ [c]
          (some (dst.take dstStopTrim ++ (dst.drop dstStopTrim).rdropWhile white), [])
  | c :: next :: src =>
    match delI with
    | some delI =>
      match argumentEscape delI c next with
      | some copied => argumentLoop (some delI) (some next) (dst ++ copied) dstStopTrim src
      | none =>
        if c = delI.ending then
          let dst := if delI = .angle then dst else dst ++ [c]
          argumentLoop none (some c) dst dst.length (next :: src)
        else argumentLoop (some delI) (some c) (dst ++ [c]) dstStopTrim (next :: src)
    | none =>
      if c = ',' then
        (some (dst.take dstStopTrim ++ (dst.drop dstStopTrim).rdropWhile white), c :: next :: src)
      else
        match argumentDelimiter prev c next with
        | some delI =>
          argumentLoop (some delI) (some c) (if delI = .angle then dst else dst ++ [c]) dstStopTrim
            (next :: src)
        | none => argumentLoop none (some c) (dst ++ [c]) dstStopTrim (next :: src)

/-- `GetMacroArgumentValue`: the value, if it is complete, and the text behind it. -/
def getMacroArgumentValue (p : Text) : ExpandProgram ω (Option Text × Text) := do
  let src := skipBlanks p
  let (value, rest) := argumentLoop none none [] 0 src
  when (value = some []) <| modify fun s => { s with
    log := s.log ++ [.warning "[Macro argument parser] empty value" (some src) .pass3] }
  pure (value, rest)

/-- `IsNamedMacroArg`. -/
def isNamedMacroArg (p : Text) : Bool :=
  let (name, p) := AsmProgram.getID p
  let p := skipBlanks p
  name.isSome && cur p = '=' && cur p.tail ≠ '='

/-- What is wrong with a call, and the text of the message. -/
abbrev CallError := String × Text

/-- The name of the next argument, which is given with it or comes from the definition. -/
def argumentName (args : List Text) (macName : Text) (isNamed : Bool) (seen : List Text) (a : Text)
    (p : Text) : Except CallError Text × Text :=
  if isNamed then
    match AsmProgram.getID p with
    | (none, p) =>
      (.error ("Named arguments must be used for all parameters or none", macName), p)
    | (some argName, p) =>
      let p := skipBlanks p
      if cur p ≠ '=' ∨ cur p.tail = '=' then
        (.error ("Named arguments must be used for all parameters or none", macName), p)
      else if argName ∉ args then (.error ("Invalid named argument", argName), p)
      else if argName ∈ seen then (.error ("Duplicate named argument", argName), p)
      else (.ok argName, p.tail)
  else if isNamedMacroArg p then
    (.error ("Named arguments must be used for all parameters or none", macName), p)
  else (.ok a, p)

/-- The loop over the arguments of the definition.  The result has what is wrong, and the text behind the
arguments. -/
def parseArguments (args : List Text) (macName : Text) (isNamed : Bool) :
    List Text → List Text → Text → ExpandProgram ω (Option CallError × Text)
  | [], _, p => pure (none, p)
  | a :: next, seen, p =>
    match argumentName args macName isNamed seen a p with
    | (.error e, p) => pure (some e, p)
    | (.ok argName, p) => do
      let (value, p) ← getMacroArgumentValue p
      match value with
      | none => pure (some ("Not enough arguments for macro", macName), p)
      | some ml =>
        let (separated, p) := if next = [] then (true, p) else takeComma p
        if separated then do
          addMacro argName ml
          parseArguments args macName isNamed next (argName :: seen) p
        else pure (some ("Not enough arguments for macro", macName), p)

/-! ### Statements -/

/-- What the directives for repeats are. -/
inductive RepeatDirective
  | dirDUP | dirEDUP | dirENDM
deriving DecidableEq, Repr

/-- A statement behind the label of a line: the directives that do something to the lines, with their
arguments, and all others as what they do to the world.  `readUntil` reads lines up to a last one, as
`STRUCT` and `LUA` do. -/
inductive Instruction (ω : Type)
  | other (world : ω) (log : List Event)
  | fatal (log : List Event)
  | dirEND (world : ω) (log : List Event)
  | dirDUP (val : Int) (condition : Option Text) (indexVar : Text)
  | dirEDUP
  | dirENDM
  | dirIF (dirName : String) (val : Bool)
  | dirELSE
  | dirELSEIF
  | dirENDIF
  | dirMODULE (n : Option Text) (bp : Text)
  | dirENDMODULE
  | dirINCLUDE (file : Option (List Text))
  | dotRepeat (val : Nat) (pp : Text)
  | readUntil (last : Text → Bool) (parse : ω → Text → ω)

/-- How a line is read, in the state in front of it: what `ReplaceDefine` and `ParseLabel` do, the macro
that `ParseMacro` finds with the text behind its name, the statement (which a call that failed leaves
behind its arguments), a directive for repeats in a line that is only collected, and expressions. -/
structure StatementParser (ω : Type) where
  parseLabel : ExpandState ω → ω × List Event
  macroCall : ExpandState ω → Option (Text × Text)
  instruction : Option Text → ExpandState ω → Instruction ω
  repeatDirective : Text → Option RepeatDirective
  ifExpression : ExpandState ω → Option Bool × List Event
  repeatExpression : ExpandState ω → Text → Bool × List Event
  indexVariable : ExpandState ω → Text → Nat → ω × List Event
  isPseudoOpBOF : Bool

/-- An update of the world, with its messages. -/
def modifyWorld (f : ExpandState ω → ω × List Event) : ExpandProgram ω Unit :=
  modify fun s => { s with world := (f s).1, log := s.log ++ (f s).2 }

/-! ### Reading lines -/

/-- `STRCPY(line, LINEMAX, lijstp->string)`; there is no string behind the last line of a repeat. -/
def copyLijstp (string : Option Text) (rest : List BodyLine) : ExpandProgram ω Unit := do
  match string with
  | some string => modify fun s => { s with line := string, lijstp := rest }
  | none => do
    modify fun s => { s with log := s.log ++ [.undefined "strcpy"] }
    exit

/-- `ReadLineNoMacro`: the next line of the current file. -/
def readLineNoMacro : ExpandProgram ω Bool := do
  let s ← get
  match s.source with
  | [] => pure false
  | line :: source =>
    if s.isRunning then do
      modify fun s => { s with line := line, source := source }
      setSourcePos ((s.sourcePosStack.getLast?.getD ⟨0, 0, 0⟩).nextSegment false 0)
      pure true
    else pure false

/-- `ReadLine`: the next line of a macro or of a repeat while one is processed. -/
def readLine : ExpandProgram ω Bool := do
  let s ← get
  if s.isRunning ∧ s.lijst ≠ 0 then
    match s.lijstp with
    | ⟨some string, source⟩ :: rest => do
      setSourcePos source
      copyLijstp (some string) rest
      pure true
    | _ => pure false
  else readLineNoMacro

/-- `EReturn`. -/
inductive EReturn
  | END | ELSE | ELSEIF | ENDIF
deriving DecidableEq, Repr

/-- The top of the repeats only collects lines. -/
def collectsLines (s : ExpandState ω) : Bool := s.repeatStack.getLast?.any (!·.isInWork)

/-- The keyword that ends a branch at the start of a line. -/
def branchEnd (p : Text) : Option EReturn :=
  if (cmphstr p "endif".toList).isSome then some .ENDIF
  else if (cmphstr p "else".toList).isSome then some .ELSE
  else if (cmphstr p "elseif".toList).isSome then some .ELSEIF
  else none

/-- A dot in front of a keyword. -/
def skipDot (p : Text) : Text := if cur p = '.' then p.tail else p

/-- A turn of `ReadFile`. -/
def readFileTurn (parseLine : ExpandProgram ω Unit) (_ : Unit) :
    ExpandProgram ω (Unit ⊕ EReturn) := do
  if ← readLine then do
    let s ← get
    match if collectsLines s then none else branchEnd (skipDot (skipBlanks s.line)) with
    | some retVal => pure (.inr retVal)
    | none => do
      parseLine
      pure (.inl ())
  else pure (.inr .END)

/-- `ReadFile`: process lines up to the end of a branch. -/
def readFile (parseLine : ExpandProgram ω Unit) (fuel : Nat) : ExpandProgram ω EReturn :=
  loop (readFileTurn parseLine) fuel ()

/-- The keywords that start an `IF` block. -/
def startsIf (p : Text) : Bool :=
  ["if", "ifn", "ifused", "ifnused", "ifdef", "ifndef"].any fun kw => (cmphstr p kw.toList).isSome

/-- The keyword of a line that is skipped. -/
def skippedKeyword (isPseudoOpBOF : Bool) (line : Text) : Text :=
  let p := if isLabelStart line && !isPseudoOpBOF then
      let p := line.dropWhile islabchar
      if cur p = ':' then p.tail else p
    else line
  skipDot (skipBlanks p)

/-- The lines up to one that starts with a keyword, or all. -/
def skipUntil (last : Text → Bool) (fuel : Nat) : ExpandProgram ω Unit :=
  loop (fun _ : Unit => do
    if ← readLine then do
      let s ← get
      pure (if last s.line then .inr () else .inl ())
    else pure (.inr ())) fuel ()

/-- Lines that a statement reads itself, up to its last one. -/
def readUntil (last : Text → Bool) (parse : ω → Text → ω) (fuel : Nat) : ExpandProgram ω Unit :=
  loop (fun _ : Unit => do
    if ← readLine then do
      let s ← get
      if last s.line then pure (.inr ())
      else do
        modifyWorld fun s => (parse s.world s.line, [])
        pure (.inl ())
    else pure (.inr ())) fuel ()

/-- A turn of `SkipFile`, with `iflevel`. -/
def skipFileTurn (isPseudoOpBOF : Bool) (fuel : Nat) (iflevel : Nat) :
    ExpandProgram ω (Nat ⊕ EReturn) := do
  if ← readLine then do
    let s ← get
    let p := skippedKeyword isPseudoOpBOF s.line
    if startsIf p then pure (.inl (iflevel + 1))
    else
      match branchEnd p with
      | some .ENDIF => pure (if iflevel ≠ 0 then .inl (iflevel - 1) else .inr .ENDIF)
      | some retVal => pure (if iflevel ≠ 0 then .inl iflevel else .inr retVal)
      | none => do
        when ((cmphstr p "lua".toList).isSome) <|
          skipUntil (fun line => (cmphstr (skipBlanks line) "endlua".toList).isSome) fuel
        pure (.inl iflevel)
  else pure (.inr .END)

/-- `SkipFile`: skip lines up to the end of a branch. -/
def skipFile (isPseudoOpBOF : Bool) (fuel : Nat) : ExpandProgram ω EReturn :=
  loop (skipFileTurn isPseudoOpBOF fuel) fuel 0

/-! ### Conditions -/

/-- The variables of `dirIfInternal`. -/
structure IfState where
  val : Bool
  orVal : Bool
  elseCounter : Nat

/-- The expression of an `ELSEIF`: its value, and whether it can be read. -/
def elseifValue (parser : StatementParser ω) (state : IfState) : ExpandProgram ω IfState := do
  let val ← asks fun s => (parser.ifExpression s).1
  modify fun s => { s with log := s.log ++ (parser.ifExpression s).2 }
  match val with
  | some val => pure { state with val := val }
  | none => pure { state with val := false, orVal := true }

/-- A branch of an `IF`, processed or skipped. -/
def readBranch (parser : StatementParser ω) (parseLine : ExpandProgram ω Unit) (fuel : Nat)
    (val : Bool) : ExpandProgram ω EReturn :=
  if val then readFile parseLine fuel else skipFile parser.isPseudoOpBOF fuel

/-- A turn of `dirIfInternal`. -/
def ifTurn (parser : StatementParser ω) (parseLine : ExpandProgram ω Unit) (fuel : Nat)
    (dirName : String) (state : IfState) : ExpandProgram ω (IfState ⊕ Unit) := do
  let state := { state with orVal := state.orVal || state.val }
  let ret ← readBranch parser parseLine fuel state.val
  let val := !state.val && !state.orVal
  match ret with
  | .ELSE => do
    when (state.elseCounter ≠ 0) <| reportError ("[" ++ dirName ++ "] one ELSE only expected")
    pure (.inl { state with val := val, elseCounter := state.elseCounter + 1 })
  | .ELSEIF =>
    if val then do
      let state ← elseifValue parser { state with val := val }
      pure (.inl state)
    else pure (.inl { state with val := val })
  | .ENDIF => pure (.inr ())
  | .END => do
    let isRunning ← asks fun s => s.isRunning
    when isRunning <| reportError ("[" ++ dirName ++ "] No ENDIF")
    pure (.inr ())

/-- `dirIfInternal`. -/
def dirIfInternal (parser : StatementParser ω) (parseLine : ExpandProgram ω Unit) (fuel : Nat)
    (dirName : String) (val : Bool) : ExpandProgram ω Unit :=
  loop (ifTurn parser parseLine fuel dirName) fuel ⟨val, false, 0⟩

/-- `dirElseCheckLiveDup`. -/
def dirElseCheckLiveDup : ExpandProgram ω Unit := do
  let s ← get
  if s.repeatStack.getLast?.any (·.isInWork) then do
    reportError "Conditional block must start and finish inside the repeat block, nested completely"
    modify fun s => { s with
      lijstp := []
      repeatStack := s.repeatStack.modify (s.repeatStack.length - 1) fun dup =>
        { dup with repeatCount := 0 } }
  else pure ()

/-! ### Modules -/

/-- `dirMODULE`, with the name behind it. -/
def dirMODULE (n : Option Text) (bp : Text) : ExpandProgram ω Unit :=
  match n with
  | some n =>
    if '.' ∈ n then reportError "[MODULE] Dots not allowed in <module_name>" (some n) .suppress
    else modify fun s => { s with
      sourceBlockLevel := s.sourceBlockLevel + 2
      moduleName :=
        let prefixed := if s.moduleName ≠ [] then
            s.moduleName ++ ['.'].take (lineMax - 1 - s.moduleName.length)
          else []
        prefixed ++ n.take (lineMax - 1 - prefixed.length)
      opened := s.opened + 1 }
  | none => reportError "[MODULE] Syntax error in <name>" (some bp) .suppress

/-- `dirENDMODULE`. -/
def dirENDMODULE : ExpandProgram ω Unit := do
  let s ← get
  if s.moduleName = [] then reportError "ENDMODULE without MODULE"
  else modify fun s => { s with
    sourceBlockLevel := s.sourceBlockLevel - 2
    moduleName := (s.moduleName.rdropWhile (· ≠ '.')).dropLast
    closed := s.closed + 1 }

/-! ### Repeats -/

/-- The end of `DupWhileImplementation`: a repeat that starts to collect lines. -/
def dirDUP (val : Int) (condition : Option Text) (indexVar : Text) : ExpandProgram ω Unit :=
  modify fun s =>
    let pos := s.sourcePosStack.getLast?.getD ⟨0, 0, 0⟩
    { s with repeatStack := s.repeatStack ++
      [⟨val, condition, pos, [⟨some indexVar, pos⟩], false, 0⟩] }

/-- An update of a repeat. -/
def modifyRepeat (i : Nat) (f : Repeat → Repeat) : ExpandProgram ω Unit :=
  modify fun s => { s with repeatStack := s.repeatStack.modify i f }

/-- `shouldRepeat`. -/
def shouldRepeat (parser : StatementParser ω) (i : Nat) (dup : Repeat) : ExpandProgram ω Bool := do
  modifyRepeat i fun dup => { dup with repeatCount := dup.repeatCount - 1 }
  match dup.repeatCondition with
  | none => pure (0 ≤ dup.repeatCount - 1)
  | some condition =>
    if dup.repeatCount = 0 then do
      reportError "[WHILE] infinite loop? (reaching the guardian value, default 100k)"
      pure false
    else do
      let val ← asks fun s => (parser.repeatExpression s condition).1
      modify fun s => { s with log := s.log ++ (parser.repeatExpression s condition).2 }
      pure val

/-- A turn over the lines of a repeat. -/
def repeatLineTurn (parseLine : ExpandProgram ω Unit) (_ : Unit) :
    ExpandProgram ω (Unit ⊕ Unit) := do
  let s ← get
  match s.isRunning, s.lijstp with
  | true, ⟨some string, source⟩ :: rest => do
    when (source.line ≠ 0) <| setSourcePos source
    copyLijstp (some string) rest
    parseLine
    let pos ← asks fun s => s.sourcePosStack.getLast?.getD ⟨0, 0, 0⟩
    setSourcePos (pos.nextSegment false 0)
    pure (.inl ())
  | _, _ => pure (.inr ())

/-- The index of a repeat, when it has a variable for it. -/
def setIndexVariable (parser : StatementParser ω) (indexVar : Text) (currentRepeatIndex : Nat) :
    ExpandProgram ω Nat :=
  if indexVar ≠ [] then do
    modifyWorld fun s => parser.indexVariable s indexVar currentRepeatIndex
    pure (currentRepeatIndex + 1)
  else pure currentRepeatIndex

/-- A turn of the repeat with a number. -/
def repeatTurn (parser : StatementParser ω) (parseLine : ExpandProgram ω Unit) (fuel i : Nat)
    (currentRepeatIndex : Nat) : ExpandProgram ω (Nat ⊕ Unit) := do
  let s ← get
  match s.repeatStack[i]? with
  | none => pure (.inr ())
  | some dup =>
    if !s.isRunning then pure (.inr ())
    else if ← shouldRepeat parser i dup then do
      setSourcePos dup.sourcePos
      let index ← setIndexVariable parser ((dup.lines.head?.bind (·.string)).getD [])
        currentRepeatIndex
      modify fun s => { s with lijstp := dup.lines.tail }
      loop (repeatLineTurn parseLine) fuel ()
      pure (.inl index)
    else pure (.inr ())

/-- `dirEDUP`. -/
def dirEDUP (parser : StatementParser ω) (parseLine : ExpandProgram ω Unit) (fuel : Nat) :
    ExpandProgram ω Unit := do
  let s ← get
  let i := s.repeatStack.length - 1
  match s.repeatStack.getLast? with
  | none => reportError "[EDUP/ENDR/ENDW] End repeat without repeat"
  | some dup =>
    if dup.isInWork then reportError "[EDUP/ENDR/ENDW] End repeat without repeat"
    else if dup.level ≠ 0 then modifyRepeat i fun dup => { dup with level := dup.level - 1 }
    else do
      modifyRepeat i fun dup => { dup with
        isInWork := true
        lines := dup.lines.modify (dup.lines.length - 1) fun last => { last with string := none } }
      bracket
        (fun s => { s with listmacro := s.listmacro + 1, lijst := s.lijst + 1 })
        (fun olds s => { s with
          sourcePosStack := s.sourcePosStack.dropLast ++ olds.sourcePosStack.getLast?.toList
          repeatStack := s.repeatStack.dropLast
          lijstp := olds.lijstp
          lijst := s.lijst - 1
          listmacro := s.listmacro - 1
          line := olds.line })
        (loop (repeatTurn parser parseLine fuel i) fuel 0)

/-- The warning about `ENDM` behind a repeat. -/
def endmMessage : String :=
  "ENDM used as DUP/REPT block terminator, this is deprecated " ++
    "(and bugged when used inside macro), change to EDUP or ENDR"

/-- `dirENDM`. -/
def dirENDM (parser : StatementParser ω) (parseLine : ExpandProgram ω Unit) (fuel : Nat) :
    ExpandProgram ω Unit := do
  let s ← get
  if s.repeatStack ≠ [] then do
    modify fun s => { s with log := s.log ++ [.warning endmMessage none .pass3] }
    dirEDUP parser parseLine fuel
  else reportError "[ENDM] End macro without macro"

/-- A turn of the dot repeater. -/
def dotRepeatTurn (parseLine : ExpandProgram ω Unit) (pp : Text) (val : Nat) :
    ExpandProgram ω (Nat ⊕ Unit) := do
  modify fun s => { s with line := ' ' :: pp }
  parseLine
  pure (if val - 1 ≠ 0 then .inl (val - 1) else .inr ())

/-- The dot repeater of `ParseDirective`. -/
def dotRepeat (parseLine : ExpandProgram ω Unit) (fuel val : Nat) (pp : Text) :
    ExpandProgram ω Unit :=
  bracket (fun s => { s with listmacro := s.listmacro + 1 })
    (fun olds s => { s with line := olds.line, listmacro := s.listmacro - 1 })
    (loop (dotRepeatTurn parseLine pp) fuel val)

/-! ### Files -/

/-- The loop of `ReadBufLine` over a file that is open: every line is parsed. -/
def readBufLines (parseLine : ExpandProgram ω Unit) (fuel : Nat) : ExpandProgram ω Unit :=
  loop (fun _ : Unit => do
    if ← readLineNoMacro then do
      parseLine
      pure (.inl ())
    else pure (.inr ())) fuel ()

/-- `IncludeFile` and `OpenFile`, with the lines of the file when it can be opened. -/
def includeFile (parseLine : ExpandProgram ω Unit) (fuel : Nat) (file : Option (List Text)) :
    ExpandProgram ω Unit := do
  let s ← get
  if 20 < s.includeLevel + 1 then reportError "Over 20 files nested" none .all
  else
    match file with
    | none => reportError "opening file" none .all
    | some lines =>
      bracket
        (fun s => { s with
          includeLevel := s.includeLevel + 1
          sourceBlockLevel := s.sourceBlockLevel + 2
          sourcePosStack := s.sourcePosStack ++ [⟨0, 0, 0⟩]
          source := lines })
        (fun olds s => { s with
          includeLevel := s.includeLevel - 1
          sourceBlockLevel := s.sourceBlockLevel - 2
          sourcePosStack := s.sourcePosStack.dropLast
          source := olds.source })
        (readBufLines parseLine fuel)

/-! ### Macro calls -/

/-- `FailMacroEmit`. -/
def failMacroEmit (omacrolabp : Option Text) (odefs : List (Text × Text)) (e : CallError) :
    ExpandProgram ω Nat := do
  reportError e.1 (some e.2) .suppress
  modify fun s => { s with defs := odefs, macrolabp := omacrolabp }
  pure 1

/-- A turn over the lines of a macro. -/
def emitTurn (parseLine : ExpandProgram ω Unit) (_ : Unit) : ExpandProgram ω (Unit ⊕ Unit) := do
  let s ← get
  match s.lijstp with
  | [] => pure (.inr ())
  | ⟨string, source⟩ :: rest => do
    setSourcePos source
    copyLijstp string rest
    parseLine
    pure (.inl ())

/-- The lines of a macro, behind its arguments. -/
def emitBody (parseLine : ExpandProgram ω Unit) (fuel : Nat) (body : List BodyLine) :
    ExpandProgram ω Unit :=
  bracket
    (fun s => { s with
      sourceBlockLevel := s.sourceBlockLevel + 2
      listmacro := s.listmacro + 1
      lijstp := body
      lijst := s.lijst + 1
      sourcePosStack := s.sourcePosStack ++ [⟨0, 0, 0⟩] })
    (fun olds s => { s with
      sourceBlockLevel := s.sourceBlockLevel - 2
      sourcePosStack := s.sourcePosStack.dropLast
      line := olds.line
      lijstp := olds.lijstp
      lijst := s.lijst - 1
      listmacro := s.listmacro - 1 })
    (loop (emitTurn parseLine) fuel ())

/-- The number of the call and its prefix for local labels, as long as it fits its buffer. -/
def startEmit : ExpandProgram ω Unit := do
  let s ← get
  match emitLabel s.macronummer s.macrolabp with
  | none => do
    modify fun s => { s with log := s.log ++ [.undefined "strcat"] }
    exit
  | some labnr => do
    modify fun s => { s with macronummer := s.macronummer + 1, macrolabp := some labnr }
    when (s.macrolabp = none) reInit

/-- The call of a macro that was found: 1 when it fails, 2 when its lines are processed.  The text is
what is left behind the arguments. -/
def emitFound (parseLine : ExpandProgram ω Unit) (fuel : Nat) (macName : Text)
    (entry : MacroTableEntry) (p : Text) : ExpandProgram ω (Nat × Text) := do
  let omacrolabp ← asks fun s => s.macrolabp
  startEmit
  let odefs ← asks fun s => s.defs
  let (e, p) ← parseArguments entry.args macName (isNamedMacroArg p) entry.args [] p
  match e with
  | some e => do
    let r ← failMacroEmit omacrolabp odefs e
    pure (r, p)
  | none =>
    if skipBlanks p ≠ [] then do
      let r ← failMacroEmit omacrolabp odefs ("Too many arguments for macro", macName)
      pure (r, skipBlanks p)
    else do
      emitBody parseLine fuel entry.body
      modify fun s => { s with defs := odefs, macrolabp := omacrolabp }
      pure (2, skipBlanks p)

/-- `CMacroTable::Emit`: 0 when there is no macro of this name. -/
def macroEmit (parseLine : ExpandProgram ω Unit) (fuel : Nat) (naam p : Text) :
    ExpandProgram ω (Nat × Text) := do
  let s ← get
  match if s.macsUsed (nameSlot naam) then s.macs naam else none with
  | none => pure (0, p)
  | some entry => emitFound parseLine fuel naam entry p

/-! ### Lines -/

/-- The part of `PrepareLine` for a line that a repeat collects. -/
def collectLine (parser : StatementParser ω) (parseLine : ExpandProgram ω Unit) (fuel : Nat) :
    ExpandProgram ω Unit := do
  let s ← get
  let i := s.repeatStack.length - 1
  modifyRepeat i fun dup => { dup with
    lines := dup.lines ++ [⟨some s.line, s.sourcePosStack.getLast?.getD ⟨0, 0, 0⟩⟩] }
  match parser.repeatDirective s.line with
  | none => pure ()
  | some .dirDUP => modifyRepeat i fun dup => { dup with level := dup.level + 1 }
  | some .dirEDUP => dirEDUP parser parseLine fuel
  | some .dirENDM => dirENDM parser parseLine fuel

/-- `ParseInstruction`, perhaps behind a macro call that failed. -/
def parseInstruction (parser : StatementParser ω) (parseLine : ExpandProgram ω Unit) (fuel : Nat)
    (lp : Option Text) : ExpandProgram ω Unit := do
  match ← asks (parser.instruction lp) with
  | .other world log => modifyWorld fun _ => (world, log)
  | .fatal log => do
    modify fun s => { s with log := s.log ++ log }
    exit
  | .dirEND world log => do
    modifyWorld fun _ => (world, log)
    modify fun s => { s with isRunning := false }
  | .dirDUP val condition indexVar => dirDUP val condition indexVar
  | .dirEDUP => dirEDUP parser parseLine fuel
  | .dirENDM => dirENDM parser parseLine fuel
  | .dirIF dirName val => dirIfInternal parser parseLine fuel dirName val
  | .dirELSE => do
    dirElseCheckLiveDup
    reportError "ELSE without IF/IFN/IFUSED/IFNUSED/IFDEF/IFNDEF"
  | .dirELSEIF => do
    dirElseCheckLiveDup
    reportError "ELSEIF without IF/IFN"
  | .dirENDIF => do
    dirElseCheckLiveDup
    reportError "ENDIF without IF/IFN/IFUSED/IFNUSED/IFDEF/IFNDEF"
  | .dirMODULE n bp => dirMODULE n bp
  | .dirENDMODULE => dirENDMODULE
  | .dirINCLUDE file => includeFile parseLine fuel file
  | .dotRepeat val pp => dotRepeat parseLine fuel val pp
  | .readUntil last parse => readUntil last parse fuel

/-- `ParseLine`, with the lines that it processes itself parsed by `parseLine`. -/
def parseLineWith (parser : StatementParser ω) (parseLine : ExpandProgram ω Unit) (fuel : Nat) :
    ExpandProgram ω Unit := do
  if ← asks collectsLines then collectLine parser parseLine fuel
  else do
    modifyWorld parser.parseLabel
    match ← asks parser.macroCall with
    | none => parseInstruction parser parseLine fuel none
    | some (naam, p) => do
      let (r, p) ← macroEmit parseLine fuel naam p
      if r = 2 then pure ()
      else parseInstruction parser parseLine fuel (if r = 1 then some p else none)

/-- `ParseLine` with nesting and loops up to a depth. -/
def parseLine (parser : StatementParser ω) : Nat → ExpandProgram ω Unit
  | 0 => exit
  | fuel + 1 => parseLineWith parser (parseLine parser fuel) fuel

end Sjasmplus
