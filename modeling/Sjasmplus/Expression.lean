import Sjasmplus.CharConst
import Sjasmplus.Labels
import Sjasmplus.Lib.Precedence

/-!
# The expression parser (`parser.cpp`)

Each `ParseExp…` function of the source is a definition of the same name.  The binary levels are one
combinator, `chainLeft`, applied to the level's operators.  The recursion from `ParseExpUnair`
through parentheses back to the weakest level is cut by fuel in `parseExpUnairFuel`;
`parseExpUnair_eq` of `Sjasmplus.ExpressionFuel` shows that the length of the text is enough fuel and
gives the recursive equation of the source.

The globals that expressions read are the fields of `ExprEnv`.  `areLabelsOffset` and `synerr`,
which the source sets and restores around a call, are passed to that call in its environment.
-/

namespace Sjasmplus

open Parsing ParseFn

/-- `EDispMode`. -/
inductive DispMode
  | none | active | insideRelocate
deriving DecidableEq, Repr

/-- The globals that an expression reads. -/
structure ExprEnv where
  labels : LabelEnv
  pass : Nat
  synerr : Bool
  /-- A device is selected. -/
  deviceID : Bool
  memGetByte : Aint → Reported Nat
  /-- `Page->Number`. -/
  pageNumber : Page
  pseudoORG : DispMode
  curAddress : Aint
  adrdisp : Aint
  dispPageNum : Page
  relocationType : Relocation.EType
  areLabelsOffset : Bool
  alternativeOffset : Aint

/-- The globals in the last pass, without labels, device and relocation. -/
def ExprEnv.plain : ExprEnv where
  labels := ⟨fun _ => none, ⟨[], ['_'], none⟩, false, [], []⟩
  pass := lastPass
  synerr := true
  deviceID := false
  memGetByte := fun _ => (0, [])
  pageNumber := 0
  pseudoORG := .none
  curAddress := 0
  adrdisp := 0
  dispPageNum := labelPageUndefined
  relocationType := .off
  areLabelsOffset := false
  alternativeOffset := 0

/-! ### Reading tokens -/

/-- `SkipBlanks`. -/
def blanks : Reader Unit := scan fun p => ((), skipBlanks p)

/-- `need(p, c)`: skip blanks, and the character `c` if it is there. -/
def need (c : Char) : Reader Bool :=
  scan fun p => if cur (skipBlanks p) = c then (true, (skipBlanks p).tail) else (false, skipBlanks p)

/-- `cmphstr`: skip the keyword if it is there. -/
def keyword (kw : List Char) (allowParenthesisEnd : Bool := true) : Reader Bool :=
  scan fun p => match cmphstr p kw allowParenthesisEnd with
    | some q => (true, q)
    | none => (false, p)

/-- `need(p, table) || needa(p, kws)`. -/
def needOper (table : List (Char × Char)) (kws : List (List Char × Nat)) (p : Text) : Nat × Text :=
  let (oper, q) := needTable table (skipBlanks p)
  if oper ≠ 0 then (oper, q) else needa q kws true

/-- An operator of the text, if there is one. -/
def operOption (f : Text → Nat × Text) : Reader (Option Nat) :=
  scan fun p => (if (f p).1 = 0 then none else some (f p).1, (f p).2)

/-! ### Labels in expressions -/

/-- The offset added to a label of class `isRelocatable` in the alternative evaluation. -/
def labelOffset (env : ExprEnv) (isRelocatable : Relocation.EType) : Aint :=
  if env.areLabelsOffset then
    match isRelocatable with
    | .regular => env.alternativeOffset
    | .high => env.alternativeOffset.sshiftRight 8
    | .off => 0
  else 0

/-- A value of the label ahead, with a default when the label is not found. -/
def labelField (env : ExprEnv) (field : LabelEntry → Aint) (default : Aint) : Reader Aint := do
  match ← getLabel env.labels with
  | .invalidName => fail
  | .missing => pure default
  | .found entry => pure (field entry)

/-- `GetLabelValue`. -/
def getLabelValue (env : ExprEnv) : Reader Aint :=
  labelField env (fun entry => entry.value + labelOffset env entry.isRelocatable) 0

/-- `GetLabelPage`. -/
def getLabelPage (env : ExprEnv) : Reader Aint :=
  labelField env (fun entry => BitVec.ofInt 32 entry.page) (BitVec.ofInt 32 labelPageUndefined)

/-- `GetLabelPhPage`. -/
def getLabelPhPage (env : ExprEnv) : Reader Aint :=
  labelField env (fun entry => BitVec.ofInt 32 entry.phPage) (BitVec.ofInt 32 labelPageUndefined)

/-- `GetLabelPhValue`. -/
def getLabelPhValue (env : ExprEnv) : Reader Aint := labelField env LabelEntry.phValue 0

/-- `GetLabelSize`. -/
def getLabelSize (env : ExprEnv) : Reader Aint := labelField env LabelEntry.size 0

/-- `LabelExist`. -/
def labelExist (env : ExprEnv) : Reader Aint := do
  match ← searchLabel env.labels with
  | none => fail
  | some (entry, _) => pure (truth (entry.any (·.page ≠ labelPageUndefined)))

/-- The temporary label ahead.  A number that overflows fails with the cursor behind its digits. -/
def getTemporaryLabel (env : ExprEnv) (requireUnderscore : Bool) :
    Reader (Option TemporaryLabel) := do
  let op ← peek
  let numberB := skipBlanks op
  let p := numberB.dropWhile Char.isDigit
  let hasUnderscore : Bool := cur p = '_'
  let suffix := if hasUnderscore then p.tail else p
  let type := lower20 (cur suffix)
  if !(cur numberB).isDigit || (requireUnderscore && !hasUnderscore) then fail
  else if (type ≠ 'b'.toNat ∧ type ≠ 'f'.toNat) ∨ islabchar (cur suffix.tail) then fail
  else
    let (val, err, _) := getNumericValueIntBased numberB (numberB.length - p.length) 10
    skip (op.length - p.length)
    if err ≠ none then fail
    else
      skip (p.length - suffix.tail.length)
      let label := if type = 'b'.toNat then seekBack env.labels val else seekForward env.labels val
      report (if label.isNone && env.pass = lastPass then
        [.error "Temporary label not found" (some numberB) .suppress] else [])
      pure label

/-- `GetTemporaryLabelValue` inside an expression. -/
def getTemporaryLabelValue (env : ExprEnv) : Reader Aint := do
  match ← getTemporaryLabel env true with
  | none => pure 0
  | some label =>
    pure (label.value + labelOffset env (if label.isRelocatable then .regular else .off))

/-! ### Primary expressions -/

section Primary

variable (entry : ExprEnv → Reader Aint) (env : ExprEnv)

/-- The text starts with `n` dollars and, behind them, a label. -/
def dollarLabel (n : Nat) (p : Text) : Bool :=
  (p.take n = List.replicate n '$') && isLabelStart (p.drop n)

/-- `{…}` reads a word, `{b …}` a byte of the virtual device. -/
def parseMemoryRead : Reader Aint := do
  let readMemP ← peek
  skip 1
  let byteOnly ← keyword ['b'] false
  let nval ← entry { env with areLabelsOffset := false }
  if ← need '}' then
    if nval.toInt < 0 ∨ 0xFFFE + (if byteOnly then 1 else 0) < nval.toInt then
      report [.error "Address in \x7b..\x7d must fetch bytes from 0x0000..0xFFFF range"
        (some readMemP) .pass3]
      pure 0
    else
      let (low, reports) := env.memGetByte nval
      report reports
      if byteOnly then pure (BitVec.ofNat 32 low)
      else
        let (high, reports) := env.memGetByte (nval + 1)
        report reports
        pure (BitVec.ofNat 32 (low + high <<< 8))
  else
    report [.error "'\x7d' expected" (some readMemP) .suppress]
    fail

/-- The branches of `ParseExpPrim` behind the one for temporary labels. -/
def parseOperand : Reader Aint := do
  let p ← peek
  if (cur p).isDigit ∨ (cur p = '#' ∧ (cur p.tail).isAlphanum) ∨
      (cur p = '$' ∧ (cur p.tail).isAlphanum) ∨ cur p = '%' then
    getConstant
  else if isLabelStart p then getLabelValue env
  else if cur p = '?' ∧ isLabelStart p.tail then
    report [.warning "?<symbol> operator is deprecated and will be removed in v2.x" (some p) .pass3]
    skip 1
    getLabelValue env
  else if dollarLabel 4 p then
    skip 4
    getLabelPhPage env
  else if dollarLabel 3 p then
    skip 3
    getLabelPhValue env
  else if env.pseudoORG ≠ .none ∧ p.take 3 = ['$', '$', '$'] then
    if cur (p.drop 3) = '$' then
      skip 4
      pure (if env.deviceID then BitVec.ofInt 32 env.pageNumber
        else BitVec.ofInt 32 labelPageUndefined)
    else
      skip 3
      pure env.adrdisp
  else if env.deviceID ∧ p.take 2 = ['$', '$'] then
    skip 2
    if isLabelStart (p.drop 2) then getLabelPage env
    else if env.pseudoORG ≠ .none ∧ env.dispPageNum ≠ labelPageUndefined then
      pure (BitVec.ofInt 32 env.dispPageNum)
    else pure (BitVec.ofInt 32 env.pageNumber)
  else if cur p = '$' then
    skip 1
    pure (env.curAddress + (if env.relocationType ≠ .off ∧ env.areLabelsOffset ∧
      env.pseudoORG ≠ .insideRelocate then env.alternativeOffset else 0))
  else
    match ← attempt getCharConst with
    | some val => pure val
    | none =>
      let p ← peek
      report (if env.synerr then [.error "Syntax error" (some p) .ifFirst] else [])
      fail

/-- `ParseExpPrim`. -/
def parseExpPrim : Reader Aint := do
  blanks
  let p ← peek
  if cur p = '\x00' then fail
  else if cur p = '(' then
    skip 1
    let res ← attempt (entry env)
    if ← need ')' then
      match res with
      | some nval => pure nval
      | none => fail
    else
      report [.error "')' expected" none .pass3]
      fail
  else if env.deviceID ∧ cur p = '{' then parseMemoryRead entry env
  else
    let temporary : Reader (Option Aint) :=
      if (cur p).isDigit then attempt (getTemporaryLabelValue env) else pure none
    match ← temporary with
    | some nval => pure nval
    | none => parseOperand env

end Primary

/-! ### Unary operators -/

/-- The operator that `ParseExpUnair` finds, 0 for none. -/
def unaryOper : Text → Nat × Text :=
  needOper [('!', ' '), ('~', ' '), ('+', ' '), ('-', ' ')]
    [(['n', 'o', 't'], '!'.toNat), (['l', 'o', 'w'], 'l'.toNat), (['h', 'i', 'g', 'h'], 'h'.toNat),
      (['a', 'b', 's'], 'a'.toNat), (['u', '1', '6'], 'u'.toNat)]

/-- The `switch` of `ParseExpUnair`. -/
def applyUnary (oper : Nat) (right : Aint) : Reported Aint :=
  if oper = '!'.toNat then (truth (right = 0), [])
  else if oper = '~'.toNat then (~~~right, [])
  else if oper = '+'.toNat then (right, [])
  else if oper = '-'.toNat then negate right
  else if oper = 'l'.toNat then (right &&& 255, [])
  else if oper = 'h'.toNat then (right.sshiftRight 8 &&& 255, [])
  else if oper = 'a'.toNat then absolute right
  else (right &&& 0xFFFF, [])

section Unary

variable (unair entry : ExprEnv → Reader Aint) (env : ExprEnv)

/-- `norel` switches off the alternative evaluation for a primary expression. -/
def parseNorel : Reader Aint := do
  if ← keyword ['n', 'o', 'r', 'e', 'l'] then
    parseExpPrim entry { env with areLabelsOffset := false }
  else fail

/-- `exist` and `sizeof` take a label, with or without parentheses. -/
def parseLabelOperator (kw : List Char) (field : Reader Aint) : Reader Aint := do
  if ← keyword kw then
    let hasParentheses ← need '('
    let p ← peek
    if hasParentheses || isLabelStart p then
      let val ← field
      if hasParentheses then
        if ← need ')' then pure val else fail
      else pure val
    else fail
  else fail

/-- `pair(hi, lo)`. -/
def parsePair : Reader Aint := do
  if ← need '(' then
    let hi ← entry env
    if ← need ',' then
      let lo ← entry env
      if ← need ')' then
        report (check8 hi ++ check8 lo)
        pure (((hi &&& 0xFF) <<< 8) ||| (lo &&& 0xFF))
      else fail
    else fail
  else fail

/-- The part of `ParseExpUnair` behind the keywords that may also be labels. -/
def parseUnaryOperators : Reader Aint := do
  match ← operOption unaryOper with
  | none => parseExpPrim entry env
  | some oper =>
    let right ← unair env
    report (applyUnary oper right).2
    pure (applyUnary oper right).1

/-- `ParseExpUnair`, with the recursive calls as parameters. -/
def parseExpUnairBody : Reader Aint := do
  blanks
  orElse (parseNorel entry env) <|
    orElse (parseLabelOperator ['e', 'x', 'i', 's', 't'] (labelExist env)) <|
      orElse (parseLabelOperator ['s', 'i', 'z', 'e', 'o', 'f'] (getLabelSize env)) <| do
        let p ← peek
        if (cmphstr p ['p', 'a', 'i', 'r'] true).isSome then
          orElse (do
            skip 4
            parsePair entry env) fail
        else parseUnaryOperators unair entry env

end Unary

/-! ### Binary operators -/

section Binary

variable (unair : Reader Aint)

def mulOper : Text → Nat × Text :=
  needOper [('*', ' '), ('/', ' '), ('%', ' ')] [(['m', 'o', 'd'], '%'.toNat)]

def mulApply (oper : Nat) (left right : Aint) : Reported Aint :=
  if oper = '*'.toNat then (left * right, [])
  else if oper = '/'.toNat then divide left right
  else modulo left right

/-- `ParseExpMul`. -/
def parseExpMul : Reader Aint := chainLeft unair (operOption mulOper) mulApply

def addOper : Text → Nat × Text := needOper [('+', ' '), ('-', ' ')] []

def addApply (oper : Nat) (left right : Aint) : Reported Aint :=
  if oper = '-'.toNat then (left + -right, oppositeReports right) else (left + right, [])

/-- `ParseExpAdd`. -/
def parseExpAdd : Reader Aint := chainLeft (parseExpMul unair) (operOption addOper) addApply

def shiftOper (p : Text) : Nat × Text :=
  let (oper, q) := needOper [('<', '<'), ('>', '>')]
    [(['s', 'h', 'l'], '<'.toNat + '<'.toNat), (['s', 'h', 'r'], '>'.toNat + '>'.toNat)] p
  if oper = '>'.toNat + '>'.toNat ∧ cur q = '>' then (oper + '>'.toNat, q.tail) else (oper, q)

def shiftApply (oper : Nat) (left right : Aint) : Reported Aint :=
  if oper = '<'.toNat + '<'.toNat then shiftLeft left right
  else if oper = '>'.toNat + '>'.toNat then shiftRight left right
  else shiftRightUnsigned left right

/-- `ParseExpShift`. -/
def parseExpShift : Reader Aint := chainLeft (parseExpAdd unair) (operOption shiftOper) shiftApply

def minMaxOper : Text → Nat × Text := needOper [('<', '?'), ('>', '?')] []

def minMaxApply (oper : Nat) (left right : Aint) : Reported Aint :=
  if oper = '<'.toNat + '?'.toNat then (if left.slt right then left else right, [])
  else (if right.slt left then left else right, [])

/-- `ParseExpMinMax`. -/
def parseExpMinMax : Reader Aint :=
  chainLeft (parseExpShift unair) (operOption minMaxOper) minMaxApply

def cmpOper : Text → Nat × Text := needOper [('<', '='), ('>', '='), ('<', ' '), ('>', ' ')] []

def cmpApply (oper : Nat) (left right : Aint) : Reported Aint :=
  if oper = '<'.toNat then (truth (left.slt right), [])
  else if oper = '>'.toNat then (truth (right.slt left), [])
  else if oper = '<'.toNat + '='.toNat then (truth (left.sle right), [])
  else (truth (right.sle left), [])

/-- `ParseExpCmp`. -/
def parseExpCmp : Reader Aint := chainLeft (parseExpMinMax unair) (operOption cmpOper) cmpApply

def equOper : Text → Nat × Text := needOper [('=', '_'), ('=', '='), ('!', '=')] []

def equApply (oper : Nat) (left right : Aint) : Reported Aint :=
  (truth (if oper = '!'.toNat + '='.toNat then left ≠ right else left = right), [])

/-- `ParseExpEqu`. -/
def parseExpEqu : Reader Aint := chainLeft (parseExpCmp unair) (operOption equOper) equApply

def bitAndOper : Text → Nat × Text := needOper [('&', '_')] [(['a', 'n', 'd'], '&'.toNat)]

/-- `ParseExpBitAnd`. -/
def parseExpBitAnd : Reader Aint :=
  chainLeft (parseExpEqu unair) (operOption bitAndOper) fun _ left right => (left &&& right, [])

def bitXorOper : Text → Nat × Text := needOper [('^', ' ')] [(['x', 'o', 'r'], '^'.toNat)]

/-- `ParseExpBitXor`. -/
def parseExpBitXor : Reader Aint :=
  chainLeft (parseExpBitAnd unair) (operOption bitXorOper) fun _ left right => (left ^^^ right, [])

def bitOrOper : Text → Nat × Text := needOper [('|', '_')] [(['o', 'r'], '|'.toNat)]

/-- `ParseExpBitOr`. -/
def parseExpBitOr : Reader Aint :=
  chainLeft (parseExpBitXor unair) (operOption bitOrOper) fun _ left right => (left ||| right, [])

def logAndOper : Text → Nat × Text := needOper [('&', '&')] []

/-- `ParseExpLogAnd`. -/
def parseExpLogAnd : Reader Aint :=
  chainLeft (parseExpBitOr unair) (operOption logAndOper) fun _ left right =>
    (truth (left ≠ 0 && right ≠ 0), [])

def logOrOper : Text → Nat × Text := needOper [('|', '|')] []

/-- `ParseExpLogOr`. -/
def parseExpLogOr : Reader Aint :=
  chainLeft (parseExpLogAnd unair) (operOption logOrOper) fun _ left right =>
    (truth (left ≠ 0 || right ≠ 0), [])

/-- The operators of the binary levels, from the tightest. -/
def levelOper : Nat → Reader (Option Nat)
  | 0 => operOption mulOper
  | 1 => operOption addOper
  | 2 => operOption shiftOper
  | 3 => operOption minMaxOper
  | 4 => operOption cmpOper
  | 5 => operOption equOper
  | 6 => operOption bitAndOper
  | 7 => operOption bitXorOper
  | 8 => operOption bitOrOper
  | 9 => operOption logAndOper
  | _ => operOption logOrOper

/-- The arithmetic of the binary levels, from the tightest. -/
def levelApply : Nat → Nat → Aint → Aint → Reported Aint
  | 0 => mulApply
  | 1 => addApply
  | 2 => shiftApply
  | 3 => minMaxApply
  | 4 => cmpApply
  | 5 => equApply
  | 6 => fun _ left right => (left &&& right, [])
  | 7 => fun _ left right => (left ^^^ right, [])
  | 8 => fun _ left right => (left ||| right, [])
  | 9 => fun _ left right => (truth (left ≠ 0 && right ≠ 0), [])
  | _ => fun _ left right => (truth (left ≠ 0 || right ≠ 0), [])

/-- The functions from `ParseExpMul` to `ParseExpLogOr` are the levels of a precedence ladder. -/
theorem parseExpLogOr_eq_ladder : parseExpLogOr unair = ladder unair levelOper levelApply 11 := rfl

end Binary

/-! ### The recursion -/

/-- `ParseExpUnair` with a bound on the depth of the recursion. -/
def parseExpUnairFuel : Nat → ExprEnv → Reader Aint
  | 0, _ => fail
  | fuel + 1, env =>
    parseExpUnairBody (parseExpUnairFuel fuel) (fun env => parseExpLogOr (parseExpUnairFuel fuel env))
      env

/-- `ParseExpUnair`. -/
def parseExpUnair (env : ExprEnv) : Reader Aint := fun p => parseExpUnairFuel p.length env p

/-- `ParseExpressionEntry`. -/
def parseExpressionEntry (env : ExprEnv) : Reader Aint := parseExpLogOr (parseExpUnair env)

/-! ### Whole expressions -/

/-- `Relocation::isResultAffected` and `Relocation::deltaType`. -/
structure Relocation.Flags where
  isResultAffected : Bool
  deltaType : Relocation.EType
deriving DecidableEq, Repr

/-- The delta type of an expression from its regular value and its alternative value. -/
def relocationDelta (env : ExprEnv) (nval relocationVal : Aint) : Relocation.EType :=
  if env.alternativeOffset = relocationVal - nval then .regular
  else if env.relocationType = .high ∧
      env.alternativeOffset.sshiftRight 8 = relocationVal - nval then .high
  else .off

/-- `ParseExpression`: inside a relocation block the expression is first evaluated with all
relocatable labels moved by the alternative offset, and both values are compared. -/
def parseExpression (env : ExprEnv) (flags : Relocation.Flags) (p : Text) :
    Outcome Char Event Aint × Relocation.Flags :=
  let regular := parseExpressionEntry { env with areLabelsOffset := false } p
  if env.relocationType = .off then (regular, flags)
  else
    let alternative := parseExpressionEntry { env with areLabelsOffset := true, synerr := false } p
    (regular.after alternative.log,
      match regular.val, alternative.val with
      | some nval, some relocationVal =>
        ⟨flags.isResultAffected || relocationVal ≠ nval, relocationDelta env nval relocationVal⟩
      | _, _ => flags)

end Sjasmplus
