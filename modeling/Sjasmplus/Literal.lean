import Sjasmplus.Aint

/-!
# Numeric literals (`GetNumericValue_…`, `GetConstant` in `reader.cpp`)

The two digit loops share everything but the step that takes one more digit into the value, so they
are one loop `getNumericValueLoop` with that step as a parameter.  The pointer `pend` is the number
of characters from the pointer to it.
-/

namespace Sjasmplus

/-- `getNumericValueLastErr`. -/
inductive NumericError
  | syntaxError | digit | noDigit | overflow
deriving DecidableEq, Repr

def NumericError.message : NumericError → String
  | .syntaxError => "Syntax error"
  | .digit => "Digit not in base"
  | .noDigit => "Missing next digit"
  | .overflow => "Overflow"

/-- `getval`. -/
def getval (c : Char) : Nat := if c ≤ '9' then c.toNat - '0'.toNat else lower20 c - 'a'.toNat + 10

/-- The character separates groups of digits when an alphanumeric character follows. -/
def isDigitSeparator (c : Char) : Bool := c = '\'' || c = '_'

/-- One more digit in base `2 ^ shiftBase`, and whether bits are lost at the top. -/
def twoBasedStep (shiftBase : Nat) (val digit : Aint) : Aint × Bool :=
  ((val <<< shiftBase) + digit, val &&& (BitVec.allOnes 32 <<< (32 - shiftBase)) ≠ 0)

/-- One more digit in base `base`, and whether the unsigned value fell. -/
def intBasedStep (base : Nat) (val digit : Aint) : Aint × Bool :=
  let val' := val * BitVec.ofNat 32 base + digit
  (val', val'.ult val)

/-- The digit loop over the `n` characters in front of `pend`. -/
def getNumericValueLoop (base : Nat) (step : Aint → Aint → Aint × Bool) :
    Nat → Text → Aint → Option NumericError → Aint × Option NumericError × Text
  | 0, p, val, err => (val, err, p)
  | n + 1, p, val, err =>
    if isDigitSeparator (cur p) && (cur p.tail).isAlphanum then
      getNumericValueLoop base step n p.tail val err
    else if !(cur p).isAlphanum then (val, some .noDigit, p.tail)
    else if base ≤ getval (cur p) then (val, some .digit, p.tail)
    else
      let (val', lost) := step val (BitVec.ofNat 32 (getval (cur p)))
      getNumericValueLoop base step n p.tail val' (if lost then some .overflow else err)

/-- `GetNumericValue_TwoBased`, with the last error instead of the result `NULL == lastErr`. -/
def getNumericValueTwoBased (p : Text) (n : Nat) (shiftBase : Nat) :
    Aint × Option NumericError × Text :=
  if n = 0 then (0, some .syntaxError, p)
  else getNumericValueLoop (1 <<< shiftBase) (twoBasedStep shiftBase) n p 0 none

/-- `GetNumericValue_IntBased`, with the last error instead of the result `NULL == lastErr`. -/
def getNumericValueIntBased (p : Text) (n : Nat) (base : Nat) :
    Aint × Option NumericError × Text :=
  if n = 0 then (0, some .syntaxError, p)
  else getNumericValueLoop base (intBasedStep base) n p 0 none

/-- `GetNumericValue_ProcessLastError`: report the last error; an overflow does not stop. -/
def processLastError (err : Option NumericError) (srcLine : Text) : Reader Unit :=
  match err with
  | none => pure ()
  | some e => do
    Parsing.ParseFn.report [.error e.message (some srcLine) .suppress]
    if e = .overflow then pure () else Parsing.ParseFn.fail

/-- The end of the digits and letters of a literal, with separators in front of one of them. -/
def literalEnd : Text → Text
  | [] => []
  | c :: p =>
    if c.isAlphanum || (isDigitSeparator c && (cur p).isAlphanum) then literalEnd p else c :: p

/-- The base of a literal: a power of two given by its exponent, or any base. -/
inductive NumberBase
  | shift (shiftBase : Nat)
  | int (base : Nat)
deriving DecidableEq, Repr

def getNumericValue (p : Text) (n : Nat) : NumberBase → Aint × Option NumericError × Text
  | .shift shiftBase => getNumericValueTwoBased p n shiftBase
  | .int base => getNumericValueIntBased p n base

/-- The base given by a prefix, and the text behind it. -/
def prefixBase (op : Text) (last : Char) : Option Nat × Text :=
  if cur op = '#' ∨ cur op = '$' then (some 4, op.tail)
  else if cur op = '0' ∧ lower20 (cur op.tail) = 'x'.toNat then (some 4, op.tail.tail)
  else if cur op = '0' ∧ lower20 (cur op.tail) = 'b'.toNat ∧ lower20 last ≠ 'h'.toNat then
    (some 1, op.tail.tail)
  else if cur op = '0' ∧ lower20 (cur op.tail) = 'q'.toNat then (some 3, op.tail.tail)
  else if cur op = '%' then (some 1, op.tail)
  else (none, op)

/-- The base given by the last character, when that is a suffix. -/
def suffixBase (last : Char) : Option NumberBase :=
  if lower20 last = 'h'.toNat then some (.shift 4)
  else if lower20 last = 'q'.toNat then some (.shift 3)
  else if lower20 last = 'o'.toNat then some (.shift 3)
  else if lower20 last = 'b'.toNat then some (.shift 1)
  else if lower20 last = 'd'.toNat then some (.int 10)
  else none

/-- The last of the `n` characters at `p`. -/
def charBefore (p : Text) (n : Nat) : Char := cur (p.drop (n - 1))

/-- The format of the literal of `size` characters at `op`: its base, where its digits start, how
many characters they take, and whether a decimal part may follow. -/
def literalFormat (op : Text) (size : Nat) : NumberBase × Text × Nat × Bool :=
  match prefixBase op (charBefore op size) with
  | (some shiftBase, p) => (.shift shiftBase, p, size - (op.length - p.length), true)
  | (none, p) =>
    match suffixBase (charBefore op size) with
    | some base => (base, p, size - 1, false)
    | none => (.int 10, p, size, true)

/-- The decimal part is parsed to be thrown away, with a warning; `hardEnd` is at its point. -/
def skipDecimalPart (op hardEnd : Text) (base : NumberBase) : Reader Unit := do
  let pend := literalEnd hardEnd.tail
  let (fraction, err, _) := getNumericValue hardEnd.tail (hardEnd.tail.length - pend.length) base
  if err = none ∨ err = some .overflow then
    let nonZero := err = some .overflow ∨ fraction ≠ 0
    Parsing.ParseFn.report
      [.warningById (if nonZero then .nonZeroDecimal else .zeroDecimal) (some op) .pass3]
    Parsing.ParseFn.seek pend
  else
    processLastError err hardEnd
    Parsing.ParseFn.fail

/-- `GetConstant`. -/
def getConstant : Reader Aint := do
  let op ← Parsing.ParseFn.peek
  let hardEnd := literalEnd (if cur op = '#' ∨ cur op = '$' ∨ cur op = '%' then op.tail else op)
  let (base, p, n, mayHaveDecimalPart) := literalFormat op (op.length - hardEnd.length)
  if isDigitSeparator (cur p) || isDigitSeparator (charBefore p n) then
    Parsing.ParseFn.report [.error NumericError.noDigit.message (some op) .suppress]
    Parsing.ParseFn.fail
  else
    let (val, err, _) := getNumericValue p n base
    processLastError err op
    if mayHaveDecimalPart && cur hardEnd = '.' && (cur hardEnd.tail).isAlphanum then
      skipDecimalPart op hardEnd base
    else
      Parsing.ParseFn.seek hardEnd
    pure val

end Sjasmplus
