import Sjasmplus.Statements
import Sjasmplus.ExpressionArithmetic
import Sjasmplus.Lib.Mirror

/-!
# The operations of an expression (`parser.cpp`)

Division of the smallest number by `-1`, shifts by counts outside `0..31` and the opposite of the
smallest number are not defined for 32-bit integers.  The operators guard a zero divisor only.

`syntaxEntry` reads the syntax of an expression: it goes through the text as `ParseExpressionEntry` does,
but it builds trees over the values of the leaves, and it lists every operation on its way, those of a
part that is given up included.  The values of the trees are those of `ExprTree.value`: they are
computed with integers, and say nothing about how the parser computes.

* `parseExpression_defined_iff` — for every text, every state and all labels, an evaluation applies no
  operation that is not defined exactly when every operation of the syntax has a value.
-/

namespace Sjasmplus

open Parsing ParseFn

/-- The event stands for an operation that is not defined. -/
def Event.isUndefined : Event → Bool
  | .undefined _ => true
  | _ => false

/-! ### The syntax of expressions -/

/-- Trees over the values of the leaves. -/
abbrev SyntaxTree := ExprTree Aint

/-- The value of a tree, in integers wrapped to 32 bits. -/
abbrev treeValue : SyntaxTree → Aint := ExprTree.value id

/-- Readers of the syntax report the operations that they come across. -/
abbrev SyntaxReader := ParseFn Char SyntaxTree

/-- The binary operator that a level gives a code. -/
def binaryOf (n oper : Nat) : BinaryOp :=
  match n with
  | 0 => if oper = '*'.toNat then .mul else if oper = '/'.toNat then .div else .mod
  | 1 => if oper = '-'.toNat then .sub else .add
  | 2 =>
    if oper = '<'.toNat + '<'.toNat then .shl else if oper = '>'.toNat + '>'.toNat then .shr else .ushr
  | 3 => if oper = '<'.toNat + '?'.toNat then .min else .max
  | 4 =>
    if oper = '<'.toNat then .lt else if oper = '>'.toNat then .gt
    else if oper = '<'.toNat + '='.toNat then .le else .ge
  | 5 => if oper = '!'.toNat + '='.toNat then .ne else .eq
  | 6 => .bitAnd
  | 7 => .bitXor
  | 8 => .bitOr
  | 9 => .logAnd
  | _ => .logOr

/-- The unary operator with a code. -/
def unaryOf (oper : Nat) : UnaryOp :=
  if oper = '!'.toNat then .bang
  else if oper = '~'.toNat then .tilde
  else if oper = '+'.toNat then .plus
  else if oper = '-'.toNat then .minus
  else if oper = 'l'.toNat then .low
  else if oper = 'h'.toNat then .high
  else if oper = 'a'.toNat then .abs
  else .u16

/-- An operation of the syntax is listed. -/
def treeApply (n oper : Nat) (l r : SyntaxTree) : SyntaxTree × List SyntaxTree :=
  (.binary (binaryOf n oper) l r, [.binary (binaryOf n oper) l r])

/-- The last branches of `ParseExpPrim`: a temporary label, or an operand. -/
def parseLeaf (env : ExprEnv) (p : Text) : Reader Aint := do
  let temporary : Reader (Option Aint) :=
    if (cur p).isDigit then attempt (getTemporaryLabelValue env) else pure none
  match ← temporary with
  | some nval => pure nval
  | none => parseOperand env

/-- What `{…}` and `{b …}` read at an address. -/
def memoryRead (env : ExprEnv) (byteOnly : Bool) (nval : Aint) : Aint :=
  if nval.toInt < 0 ∨ 0xFFFE + (if byteOnly then 1 else 0) < nval.toInt then 0
  else if byteOnly then BitVec.ofNat 32 (env.memGetByte nval).1
  else BitVec.ofNat 32 ((env.memGetByte nval).1 + (env.memGetByte (nval + 1)).1 <<< 8)

section Body

variable (unair entry : ExprEnv → SyntaxReader SyntaxTree) (env : ExprEnv)

def syntaxMemoryRead : SyntaxReader SyntaxTree := do
  skip 1
  let byteOnly ← mute (keyword ['b'] false)
  let e ← entry { env with areLabelsOffset := false }
  if ← mute (need '}') then pure (.atom (memoryRead env byteOnly (treeValue e))) else fail

def syntaxPrim : SyntaxReader SyntaxTree := do
  mute blanks
  let p ← ParseFn.peek
  if cur p = '\x00' then fail
  else if cur p = '(' then
    skip 1
    let res ← attempt (entry env)
    if ← mute (need ')') then
      match res with
      | some e => pure e
      | none => fail
    else fail
  else if env.deviceID ∧ cur p = '{' then syntaxMemoryRead entry env
  else
    let val ← mute (parseLeaf env p)
    pure (.atom val)

def syntaxNorel : SyntaxReader SyntaxTree := do
  if ← mute (keyword ['n', 'o', 'r', 'e', 'l']) then
    syntaxPrim entry { env with areLabelsOffset := false }
  else fail

/-- A reader of values reads a leaf. -/
def syntaxLeaf (x : Reader Aint) : SyntaxReader SyntaxTree := do
  let val ← mute x
  pure (.atom val)

def syntaxPair : SyntaxReader SyntaxTree := do
  if ← mute (need '(') then
    let hi ← entry env
    if ← mute (need ',') then
      let lo ← entry env
      if ← mute (need ')') then
        pure (.atom (((treeValue hi &&& 0xFF) <<< 8) ||| (treeValue lo &&& 0xFF)))
      else fail
    else fail
  else fail

def syntaxUnaryOperators : SyntaxReader SyntaxTree := do
  match ← mute (operOption unaryOper) with
  | none => syntaxPrim entry env
  | some oper =>
    let e ← unair env
    report [.unary (unaryOf oper) e]
    pure (.unary (unaryOf oper) e)

def syntaxUnairBody : SyntaxReader SyntaxTree := do
  mute blanks
  orElse (syntaxNorel entry env) <|
    orElse (syntaxLeaf (parseLabelOperator ['e', 'x', 'i', 's', 't'] (labelExist env))) <|
      orElse (syntaxLeaf (parseLabelOperator ['s', 'i', 'z', 'e', 'o', 'f'] (getLabelSize env))) <| do
        let p ← ParseFn.peek
        if (cmphstr p ['p', 'a', 'i', 'r'] true).isSome then
          orElse (do
            skip 4
            syntaxPair entry env) fail
        else syntaxUnaryOperators unair entry env

end Body

/-- The levels of the binary operators. -/
def syntaxLogOr (unair : SyntaxReader SyntaxTree) : SyntaxReader SyntaxTree :=
  ladder unair (fun n => mute (levelOper n)) treeApply 11

def syntaxUnairFuel : Nat → ExprEnv → SyntaxReader SyntaxTree
  | 0, _ => fail
  | fuel + 1, env =>
    syntaxUnairBody (syntaxUnairFuel fuel) (fun env => syntaxLogOr (syntaxUnairFuel fuel env)) env

def syntaxUnair (env : ExprEnv) : SyntaxReader SyntaxTree := fun p => syntaxUnairFuel p.length env p

/-- The syntax of an expression. -/
def syntaxEntry (env : ExprEnv) : SyntaxReader SyntaxTree := syntaxLogOr (syntaxUnair env)

/-- Every operation of the text, behind its operands. -/
def operations (env : ExprEnv) (p : Text) : List SyntaxTree := (syntaxEntry env p).log

/-- The operations of a whole expression: inside a relocation block those of the evaluation with moved
labels too. -/
def expressionOperations (env : ExprEnv) (p : Text) : List SyntaxTree :=
  (if env.relocationType = .off then []
    else operations { env with areLabelsOffset := true, synerr := false } p) ++
  operations { env with areLabelsOffset := false } p

/-! ### Operations that have a value -/

/-- An operation of the syntax has a value: a shift has a count in `0..31`, a division is not that of the
smallest number by -1, and it is not the smallest number whose opposite is taken or that is
subtracted. -/
def HasValue : SyntaxTree → Prop
  | .atom _ => True
  | .unary u e => u.isOpposite = true → treeValue e ≠ BitVec.intMin 32
  | .binary b l r =>
    (b.isShift = true → (treeValue r).toNat < 32) ∧
      (b.isDivision = true → ¬(treeValue l = BitVec.intMin 32 ∧ treeValue r = -1)) ∧
      (b = .sub → treeValue r ≠ BitVec.intMin 32)

theorem isUndefined_shiftReports (y : Aint) :
    (∃ e ∈ shiftReports y, e.isUndefined = true) ↔ ¬y.toNat < 32 := by
  unfold shiftReports
  split_ifs with h <;> simp [h, Event.isUndefined]

theorem isUndefined_divisionReports (x y : Aint) :
    (∃ e ∈ divisionReports x y, e.isUndefined = true) ↔ x = BitVec.intMin 32 ∧ y = -1 := by
  unfold divisionReports
  split_ifs with hzero hmin
  · subst hzero
    simp [Event.isUndefined]
  · simp [hmin, Event.isUndefined]
  · exact iff_of_false (fun ⟨_, he, _⟩ => List.not_mem_nil he) hmin

theorem isUndefined_oppositeReports (x : Aint) :
    (∃ e ∈ oppositeReports x, e.isUndefined = true) ↔ x = BitVec.intMin 32 := by
  unfold oppositeReports
  split_ifs with hmin
  · simp [hmin, oppositeOverflow, Event.isUndefined]
  · exact iff_of_false (fun ⟨_, he, _⟩ => List.not_mem_nil he) hmin

/-- A unary operator reports an operation that is not defined where it has no value. -/
theorem isUndefined_unary (u : UnaryOp) (t : SyntaxTree) :
    (∃ e ∈ (applyUnary u.code (treeValue t)).2, e.isUndefined = true) ↔ ¬HasValue (.unary u t) := by
  rw [applyUnary_code_snd, HasValue]
  by_cases hopposite : u.isOpposite = true
  · rw [if_pos hopposite, isUndefined_oppositeReports]
    exact ⟨fun hmin hvalue => hvalue hopposite hmin, fun hnot => by_contra fun hmin => hnot fun _ => hmin⟩
  · rw [if_neg hopposite]
    exact iff_of_false (fun ⟨_, he, _⟩ => List.not_mem_nil he) fun hnot =>
      hnot fun hyes => absurd hyes hopposite

/-- The operators report an operation that is not defined where it has no value. -/
theorem isUndefined_levelApply (b : BinaryOp) (l r : SyntaxTree) :
    (∃ e ∈ (levelApply b.rank b.code (treeValue l) (treeValue r)).2, e.isUndefined = true) ↔
      ¬HasValue (.binary b l r) := by
  have hshift := isUndefined_shiftReports (treeValue r)
  have hdivision := isUndefined_divisionReports (treeValue l) (treeValue r)
  have hopposite := isUndefined_oppositeReports (treeValue r)
  unfold HasValue
  -- the shifts, the divisions and the subtraction report; no other operator does
  cases b
  case shl => exact hshift.trans (by simp [BinaryOp.isShift, BinaryOp.isDivision])
  case shlWord => exact hshift.trans (by simp [BinaryOp.isShift, BinaryOp.isDivision])
  case shr => exact hshift.trans (by simp [BinaryOp.isShift, BinaryOp.isDivision])
  case shrWord => exact hshift.trans (by simp [BinaryOp.isShift, BinaryOp.isDivision])
  case ushr => exact hshift.trans (by simp [BinaryOp.isShift, BinaryOp.isDivision])
  case div => exact hdivision.trans (by simp [BinaryOp.isShift, BinaryOp.isDivision])
  case mod => exact hdivision.trans (by simp [BinaryOp.isShift, BinaryOp.isDivision])
  case modWord => exact hdivision.trans (by simp [BinaryOp.isShift, BinaryOp.isDivision])
  case sub => exact hopposite.trans (by simp [BinaryOp.isShift, BinaryOp.isDivision])
  all_goals simp [levelApply, addApply, mulApply, minMaxApply, cmpApply, equApply, BinaryOp.rank,
    BinaryOp.code, BinaryOp.isShift, BinaryOp.isDivision]

/-- A level takes its code for one of its operators. -/
theorem levelApply_binaryOf (n oper : Nat) (x y : Aint) :
    levelApply n oper x y = levelApply (binaryOf n oper).rank (binaryOf n oper).code x y := by
  -- the levels of the source from the strongest; in each the last operator is the default
  match n with
  | 0 =>
    obtain rfl | hmul := eq_or_ne oper '*'.toNat
    · rfl
    obtain rfl | hdiv := eq_or_ne oper '/'.toNat
    · rfl
    rw [binaryOf, if_neg hmul, if_neg hdiv]
    exact (if_neg hmul).trans (if_neg hdiv)
  | 1 =>
    obtain rfl | hsub := eq_or_ne oper '-'.toNat
    · rfl
    rw [binaryOf, if_neg hsub]
    exact if_neg hsub
  | 2 =>
    obtain rfl | hshl := eq_or_ne oper ('<'.toNat + '<'.toNat)
    · rfl
    obtain rfl | hshr := eq_or_ne oper ('>'.toNat + '>'.toNat)
    · rfl
    rw [binaryOf, if_neg hshl, if_neg hshr]
    exact (if_neg hshl).trans (if_neg hshr)
  | 3 =>
    obtain rfl | hmin := eq_or_ne oper ('<'.toNat + '?'.toNat)
    · rfl
    rw [binaryOf, if_neg hmin]
    exact if_neg hmin
  | 4 =>
    obtain rfl | hlt := eq_or_ne oper '<'.toNat
    · rfl
    obtain rfl | hgt := eq_or_ne oper '>'.toNat
    · rfl
    obtain rfl | hle := eq_or_ne oper ('<'.toNat + '='.toNat)
    · rfl
    rw [binaryOf, if_neg hlt, if_neg hgt, if_neg hle]
    exact (if_neg hlt).trans ((if_neg hgt).trans (if_neg hle))
  | 5 =>
    obtain rfl | hne := eq_or_ne oper ('!'.toNat + '='.toNat)
    · rfl
    rw [binaryOf, if_neg hne]
    show (truth (if oper = '!'.toNat + '='.toNat then x ≠ y else x = y), []) = _
    rw [if_neg hne]
    rfl
  | 6 => rfl
  | 7 => rfl
  | 8 => rfl
  | 9 => rfl
  | _ + 10 => rfl

/-- `ParseExpUnair` takes its code for one of the unary operators. -/
theorem applyUnary_unaryOf (oper : Nat) (x : Aint) :
    applyUnary oper x = applyUnary (unaryOf oper).code x := by
  obtain rfl | hbang := eq_or_ne oper '!'.toNat
  · rfl
  obtain rfl | htilde := eq_or_ne oper '~'.toNat
  · rfl
  obtain rfl | hplus := eq_or_ne oper '+'.toNat
  · rfl
  obtain rfl | hminus := eq_or_ne oper '-'.toNat
  · rfl
  obtain rfl | hlow := eq_or_ne oper 'l'.toNat
  · rfl
  obtain rfl | hhigh := eq_or_ne oper 'h'.toNat
  · rfl
  obtain rfl | habs := eq_or_ne oper 'a'.toNat
  · rfl
  -- what is left is `u16`, the default of the `switch`
  rw [unaryOf, if_neg hbang, if_neg htilde, if_neg hplus, if_neg hminus, if_neg hlow, if_neg hhigh,
    if_neg habs, applyUnary, if_neg hbang, if_neg htilde, if_neg hplus, if_neg hminus, if_neg hlow,
    if_neg hhigh, if_neg habs]
  rfl

/-! ### Leaves are defined -/

/-- The reader reports no operation that is not defined. -/
abbrev StaysDefined {α : Type} (x : Reader α) : Prop := Reports (fun e => ¬e.isUndefined = true) x

/-- What one event reports is defined. -/
theorem defined_singleton {e : Event} (h : e.isUndefined = false) :
    ∀ e' ∈ [e], ¬e'.isUndefined = true := by
  intro e' he'
  rw [List.mem_singleton.mp he', h]
  exact Bool.false_ne_true

theorem defined_nil : ∀ e ∈ ([] : List Event), ¬e.isUndefined = true :=
  fun _ he => absurd he List.not_mem_nil

theorem defined_ite {c : Prop} [Decidable c] {l l' : List Event}
    (h : ∀ e ∈ l, ¬e.isUndefined = true) (h' : ∀ e ∈ l', ¬e.isUndefined = true) :
    ∀ e ∈ if c then l else l', ¬e.isUndefined = true := by
  split_ifs
  · exact h
  · exact h'

theorem defined_append {l l' : List Event} (h : ∀ e ∈ l, ¬e.isUndefined = true)
    (h' : ∀ e ∈ l', ¬e.isUndefined = true) : ∀ e ∈ l ++ l', ¬e.isUndefined = true := by
  intro e he
  exact (List.mem_append.mp he).elim (h e) (h' e)

/-- A message, if there is one. -/
theorem defined_optional {c : Prop} [Decidable c] {e : Event} (h : e.isUndefined = false) :
    ∀ e' ∈ if c then [e] else [], ¬e'.isUndefined = true :=
  defined_ite (defined_singleton h) defined_nil

theorem check8_defined (val : Aint) : ∀ e ∈ check8 val, ¬e.isUndefined = true :=
  defined_optional rfl

theorem processLastError_staysDefined (err : Option NumericError) (srcLine : Text) :
    StaysDefined (processLastError err srcLine) := by
  cases err with
  | none => exact Reports.pure _
  | some e =>
    exact Reports.bind (Reports.report (defined_singleton rfl)) fun _ =>
      Reports.ite (Reports.pure _) Reports.fail

theorem skipDecimalPart_staysDefined (op hardEnd : Text) (base : NumberBase) :
    StaysDefined (skipDecimalPart op hardEnd base) := by
  refine Reports.ite ?_ ?_
  · exact Reports.bind (Reports.report (defined_singleton rfl)) fun _ => Reports.seek _
  · exact Reports.bind (processLastError_staysDefined _ _) fun _ => Reports.fail

theorem getConstant_staysDefined : StaysDefined getConstant := by
  refine Reports.bind Reports.peek fun op => Reports.ite ?_ ?_
  · exact Reports.bind (Reports.report (defined_singleton rfl)) fun _ => Reports.fail
  · refine Reports.bind (processLastError_staysDefined _ _) fun _ => Reports.ite ?_ ?_
    · exact Reports.bind (skipDecimalPart_staysDefined _ _ _) fun _ => Reports.pure _
    · exact Reports.bind (Reports.seek _) fun _ => Reports.pure _

theorem validateLabel_defined (scope : LabelScope) (setNameSpace ignoreCharAfter : Bool)
    (naam : Text) :
    ∀ e ∈ (validateLabel scope setNameSpace ignoreCharAfter naam).2, ¬e.isUndefined = true := by
  have hite : ∀ {c : Prop} [Decidable c] {r r' : Reported (Option Text)},
      (∀ e ∈ r.2, ¬e.isUndefined = true) → (∀ e ∈ r'.2, ¬e.isUndefined = true) →
        ∀ e ∈ (if c then r else r').2, ¬e.isUndefined = true := by
    intro c _ r r' h h'
    rw [apply_ite Prod.snd]
    exact defined_ite h h'
  refine hite (defined_singleton rfl) (hite (defined_singleton rfl) (hite defined_nil ?_))
  exact hite (defined_singleton rfl) (defined_optional rfl)

theorem searchLabel_staysDefined (env : LabelEnv) : StaysDefined (searchLabel env) := by
  refine Reports.bind Reports.peek fun p =>
    Reports.bind (Reports.report (validateLabel_defined _ _ _ _)) fun _ => ?_
  split
  · exact Reports.pure _
  · exact Reports.bind (Reports.scan _) fun _ => Reports.pure _

theorem getLabel_staysDefined (env : LabelEnv) : StaysDefined (getLabel env) := by
  refine Reports.bind (searchLabel_staysDefined env) fun found => ?_
  rcases found with _ | ⟨entry, findName⟩
  · exact Reports.pure _
  · dsimp only
    split
    · exact Reports.pure _
    · refine Reports.bind (Reports.report ?_) fun _ => Reports.pure _
      exact defined_append (defined_singleton rfl) (defined_ite defined_nil (defined_singleton rfl))

theorem labelField_staysDefined (env : ExprEnv) (field : LabelEntry → Aint) (default : Aint) :
    StaysDefined (labelField env field default) := by
  refine Reports.bind (getLabel_staysDefined _) fun use => ?_
  cases use with
  | invalidName => exact Reports.fail
  | missing => exact Reports.pure _
  | found entry => exact Reports.pure _

theorem labelExist_staysDefined (env : ExprEnv) : StaysDefined (labelExist env) := by
  refine Reports.bind (searchLabel_staysDefined _) fun found => ?_
  rcases found with _ | ⟨entry, findName⟩
  · exact Reports.fail
  · exact Reports.pure _

theorem getTemporaryLabelValue_staysDefined (env : ExprEnv) :
    StaysDefined (getTemporaryLabelValue env) := by
  refine Reports.bind ?_ fun label => ?_
  · refine Reports.bind Reports.peek fun op =>
      Reports.ite Reports.fail (Reports.ite Reports.fail ?_)
    refine Reports.bind (Reports.skip _) fun _ => Reports.ite Reports.fail ?_
    exact Reports.bind (Reports.skip _) fun _ =>
      Reports.bind (Reports.report (defined_optional rfl)) fun _ => Reports.pure _
  · cases label with
    | none => exact Reports.pure _
    | some label => exact Reports.pure _

theorem getCharConstInDoubleQuotes_staysDefined : StaysDefined getCharConstInDoubleQuotes := by
  refine Reports.bind Reports.peek fun op => Reports.ite Reports.fail
    (Reports.ite (Reports.bind (Reports.skip 1) fun _ => Reports.pure _) ?_)
  cases escapeValue (cur op.tail) with
  | none => exact Reports.bind (Reports.skip 1) fun _ =>
      Reports.bind (Reports.report (defined_singleton rfl)) fun _ => Reports.pure _
  | some val => exact Reports.bind (Reports.skip 2) fun _ => Reports.pure _

theorem getCharConstInApostrophes_staysDefined : StaysDefined getCharConstInApostrophes := by
  refine Reports.bind Reports.peek fun op => Reports.ite ?_ (Reports.ite Reports.fail ?_)
  · exact Reports.bind (Reports.skip 2) fun _ => Reports.pure _
  · exact Reports.bind (Reports.skip 1) fun _ => Reports.pure _

theorem charConstBytes_staysDefined (quotes : Bool) (add room : Nat) :
    StaysDefined (charConstBytes quotes add room) := by
  induction room with
  | zero => exact Reports.pure _
  | succ room ih =>
    refine Reports.bind (Reports.attempt ?_) fun val => ?_
    · exact Reports.ite getCharConstInDoubleQuotes_staysDefined
        getCharConstInApostrophes_staysDefined
    · cases val with
      | none => exact Reports.pure _
      | some val => exact Reports.bind ih fun _ => Reports.pure _

theorem charConstSuffix_staysDefined (elementP : Text) (room : Nat) (segment : List Nat) :
    StaysDefined (charConstSuffix elementP room segment) := by
  refine Reports.bind Reports.peek fun p => Reports.ite ?_ (Reports.ite ?_ (Reports.pure _))
  · exact Reports.ite (Reports.pure _) (Reports.bind (Reports.skip 1) fun _ => Reports.pure _)
  · exact Reports.bind (Reports.skip 1) fun _ => Reports.ite
      (Reports.bind (Reports.report (defined_singleton rfl)) fun _ => Reports.pure _)
      (Reports.pure _)

theorem charConstSegment_staysDefined (room add : Nat) :
    StaysDefined (charConstSegment room add) := by
  refine Reports.bind Reports.peek fun elementP => Reports.bind (Reports.skip 1) fun _ =>
    Reports.bind (charConstBytes_staysDefined _ _ _) fun segment =>
    Reports.bind Reports.peek fun p => Reports.ite ?_ ?_
  · exact Reports.ite (Reports.pure _)
      (Reports.bind (Reports.report (defined_singleton rfl)) fun _ => Reports.pure _)
  · exact Reports.bind (Reports.skip 1) fun _ =>
      Reports.bind (charConstSuffix_staysDefined _ _ _) fun _ =>
      Reports.bind (Reports.report (defined_optional rfl)) fun _ => Reports.pure _

theorem charConstSegments_staysDefined (maxEi add fuel : Nat) (e : List Nat) :
    StaysDefined (charConstSegments maxEi add fuel e) := by
  induction fuel generalizing e with
  | zero => exact Reports.pure _
  | succ fuel ih =>
    refine Reports.bind Reports.peek fun elementP =>
      Reports.bind (charConstSegment_staysDefined _ _) fun segment => ?_
    cases segment with
    | error strRes => exact Reports.pure _
    | ok segment =>
      refine Reports.bind (Reports.scan _) fun oper => Reports.ite (Reports.pure _) ?_
      exact Reports.bind (Reports.scan _) fun _ => Reports.bind Reports.peek fun p => Reports.ite
        (Reports.bind (Reports.report (defined_singleton rfl)) fun _ => Reports.pure _) (ih _)

theorem getCharConst_staysDefined : StaysDefined getCharConst := by
  refine Reports.bind Reports.peek fun op => Reports.bind ?_ fun res =>
    Reports.ite Reports.fail (Reports.bind Reports.peek fun p =>
      Reports.bind (Reports.report ?_) fun _ => Reports.pure _)
  · exact Reports.bind Reports.peek fun p => Reports.ite (Reports.pure _)
      (charConstSegments_staysDefined _ _ _ _)
  · exact defined_ite (defined_singleton rfl) (defined_optional rfl)

theorem parseOperand_staysDefined (env : ExprEnv) : StaysDefined (parseOperand env) := by
  refine Reports.bind Reports.peek fun p => Reports.ite getConstant_staysDefined ?_
  -- the operands in the order of the source; none of them computes anything
  refine Reports.ite (labelField_staysDefined _ _ _) (Reports.ite ?_ (Reports.ite ?_
    (Reports.ite ?_ (Reports.ite ?_ (Reports.ite ?_ (Reports.ite ?_ ?_))))))
  · exact Reports.bind (Reports.report (defined_singleton rfl)) fun _ =>
      Reports.bind (Reports.skip 1) fun _ => labelField_staysDefined _ _ _
  · exact Reports.bind (Reports.skip 4) fun _ => labelField_staysDefined _ _ _
  · exact Reports.bind (Reports.skip 3) fun _ => labelField_staysDefined _ _ _
  · exact Reports.ite (Reports.bind (Reports.skip 4) fun _ => Reports.pure _)
      (Reports.bind (Reports.skip 3) fun _ => Reports.pure _)
  · exact Reports.bind (Reports.skip 2) fun _ => Reports.ite (labelField_staysDefined _ _ _)
      (Reports.ite (Reports.pure _) (Reports.pure _))
  · exact Reports.bind (Reports.skip 1) fun _ => Reports.pure _
  · refine Reports.bind (Reports.attempt getCharConst_staysDefined) fun val => ?_
    cases val with
    | none => exact Reports.bind Reports.peek fun p =>
        Reports.bind (Reports.report (defined_optional rfl)) fun _ => Reports.fail
    | some val => exact Reports.pure _

theorem parseLeaf_staysDefined (env : ExprEnv) (p : Text) : StaysDefined (parseLeaf env p) := by
  refine Reports.bind ?_ fun temporary => ?_
  · exact Reports.ite (Reports.attempt (getTemporaryLabelValue_staysDefined env)) (Reports.pure _)
  · cases temporary with
    | none => exact parseOperand_staysDefined env
    | some nval => exact Reports.pure _

theorem parseLabelOperator_staysDefined (kw : List Char) {field : Reader Aint}
    (hfield : StaysDefined field) : StaysDefined (parseLabelOperator kw field) := by
  refine Reports.bind (Reports.scan _) fun _ => Reports.ite ?_ Reports.fail
  refine Reports.bind (Reports.scan _) fun _ => Reports.bind Reports.peek fun _ =>
    Reports.ite ?_ Reports.fail
  refine Reports.bind hfield fun val => Reports.ite ?_ (Reports.pure _)
  exact Reports.bind (Reports.scan _) fun _ => Reports.ite (Reports.pure _) Reports.fail

/-! ### The syntax mirrors the evaluation -/

/-- Reading the memory of the device is defined. -/
def ExprEnv.MemoryDefined (env : ExprEnv) : Prop :=
  ∀ address, ∀ e ∈ (env.memGetByte address).2, ¬e.isUndefined = true

/-- One parser reads the syntax of what the other one evaluates. -/
abbrev Computes (x : SyntaxReader SyntaxTree) (y : Reader Aint) : Prop :=
  Mirrors treeValue (fun e => ¬HasValue e) (fun e => e.isUndefined = true) x y

/-- The arithmetic of a level on the values of the operands. -/
theorem treeApply_operators (n : Nat) :
    Mirrors.Operators treeValue (fun e => ¬HasValue e) (fun e => e.isUndefined = true) (treeApply n)
      (levelApply n) := by
  intro oper l r
  rw [levelApply_binaryOf]
  refine ⟨levelApply_code_fst _ _ _, ?_⟩
  rw [SameKind, isUndefined_levelApply]
  simp [treeApply]

theorem levelOper_staysDefined (n : Nat) : StaysDefined (levelOper n) := by
  unfold levelOper
  split <;> exact Reports.scan _

/-- The levels above operands that mirror each other. -/
theorem syntaxLogOr_evaluates {unair : SyntaxReader SyntaxTree} {unair' : Reader Aint}
    (h : Computes unair unair') : Computes (syntaxLogOr unair) (parseExpLogOr unair') := by
  rw [parseExpLogOr_eq_ladder]
  exact h.ladder (fun n => Mirrors.mute (levelOper_staysDefined n)) treeApply_operators 11

section Body

variable {unair entry : ExprEnv → SyntaxReader SyntaxTree} {unair' entry' : ExprEnv → Reader Aint}
  {env : ExprEnv}

theorem syntaxLeaf_evaluates {x : Reader Aint} (hx : StaysDefined x) :
    Computes (syntaxLeaf x) x :=
  Mirrors.leaf hx fun _ => rfl

/-- The value of a memory read, with what is reported on the way. -/
theorem parseMemoryRead_value (hmem : env.MemoryDefined) (readMemP : Text) (byteOnly : Bool)
    (e : SyntaxTree) :
    Computes (pure (.atom (memoryRead env byteOnly (treeValue e)))) (do
      if (treeValue e).toInt < 0 ∨ 0xFFFE + (if byteOnly then 1 else 0) < (treeValue e).toInt then
        ParseFn.report [.error "Address in \x7b..\x7d must fetch bytes from 0x0000..0xFFFF range"
          (some readMemP) .pass3]
        pure 0
      else
        let (low, reports) := env.memGetByte (treeValue e)
        ParseFn.report reports
        if byteOnly then pure (BitVec.ofNat 32 low)
        else
          let (high, reports) := env.memGetByte (treeValue e + 1)
          ParseFn.report reports
          pure (BitVec.ofNat 32 (low + high <<< 8))) := by
  rw [memoryRead]
  -- an address out of range is reported and reads 0
  by_cases hrange : (treeValue e).toInt < 0 ∨
      0xFFFE + (if byteOnly then 1 else 0) < (treeValue e).toInt
  · rw [if_pos hrange, if_pos hrange]
    exact (Mirrors.pure rfl).report_right (defined_singleton rfl)
  rw [if_neg hrange, if_neg hrange]
  cases byteOnly with
  | true => exact (Mirrors.pure rfl).report_right (hmem _)
  | false =>
    -- the second byte of a word is read behind the first one, with its own reports
    have hhigh : Computes (pure (.atom (BitVec.ofNat 32 ((env.memGetByte (treeValue e)).1 +
        (env.memGetByte (treeValue e + 1)).1 <<< 8)))) (do
        ParseFn.report (env.memGetByte (treeValue e + 1)).2
        pure (BitVec.ofNat 32 ((env.memGetByte (treeValue e)).1 +
          (env.memGetByte (treeValue e + 1)).1 <<< 8))) :=
      (Mirrors.pure rfl).report_right (hmem _)
    exact hhigh.report_right (hmem _)

theorem syntaxMemoryRead_evaluates (hmem : env.MemoryDefined)
    (hentry : ∀ env : ExprEnv, env.MemoryDefined → Computes (entry env) (entry' env)) :
    Computes (syntaxMemoryRead entry env) (parseMemoryRead entry' env) := by
  refine Mirrors.peek_right fun readMemP => Mirrors.bind (Mirrors.skip 1) fun _ =>
    Mirrors.bind (Mirrors.mute (Reports.scan _)) fun byteOnly =>
    Mirrors.bind (hentry _ hmem) fun e =>
    Mirrors.bind (Mirrors.mute (Reports.scan _)) fun closed => Mirrors.ite ?_ ?_
  · exact parseMemoryRead_value hmem readMemP byteOnly e
  · exact Mirrors.fail.report_right (defined_singleton rfl)

theorem syntaxPrim_evaluates (hmem : env.MemoryDefined)
    (hentry : ∀ env : ExprEnv, env.MemoryDefined → Computes (entry env) (entry' env)) :
    Computes (syntaxPrim entry env) (parseExpPrim entry' env) := by
  refine Mirrors.bind (Mirrors.mute (Reports.scan _)) fun _ => Mirrors.bind Mirrors.peek fun p =>
    Mirrors.ite Mirrors.fail (Mirrors.ite ?_ (Mirrors.ite (syntaxMemoryRead_evaluates hmem hentry) ?_))
  · refine Mirrors.bind (Mirrors.skip 1) fun _ => Mirrors.bind (hentry env hmem).attempt fun res =>
      Mirrors.bind (Mirrors.mute (Reports.scan _)) fun closed => Mirrors.ite ?_ ?_
    · cases res with
      | none => exact Mirrors.fail
      | some e => exact Mirrors.pure rfl
    · exact Mirrors.fail.report_right (defined_singleton rfl)
  · exact syntaxLeaf_evaluates (parseLeaf_staysDefined env p)

theorem syntaxPair_evaluates (hmem : env.MemoryDefined)
    (hentry : ∀ env : ExprEnv, env.MemoryDefined → Computes (entry env) (entry' env)) :
    Computes (syntaxPair entry env) (parsePair entry' env) := by
  refine Mirrors.bind (Mirrors.mute (Reports.scan _)) fun _ => Mirrors.ite ?_ Mirrors.fail
  refine Mirrors.bind (hentry env hmem) fun hi =>
    Mirrors.bind (Mirrors.mute (Reports.scan _)) fun _ => Mirrors.ite ?_ Mirrors.fail
  refine Mirrors.bind (hentry env hmem) fun lo =>
    Mirrors.bind (Mirrors.mute (Reports.scan _)) fun _ => Mirrors.ite ?_ Mirrors.fail
  exact (Mirrors.pure rfl).report_right (defined_append (check8_defined _) (check8_defined _))

/-- The readers of the body mirror each other when those of its recursive calls do. -/
theorem syntaxUnairBody_evaluates (hmem : env.MemoryDefined)
    (hunair : ∀ env : ExprEnv, env.MemoryDefined → Computes (unair env) (unair' env))
    (hentry : ∀ env : ExprEnv, env.MemoryDefined → Computes (entry env) (entry' env)) :
    Computes (syntaxUnairBody unair entry env) (parseExpUnairBody unair' entry' env) := by
  -- the alternatives of the body: only `NOREL` and the operators make more than a leaf
  refine Mirrors.bind (Mirrors.mute (Reports.scan _)) fun _ => Mirrors.orElse ?_ (Mirrors.orElse
    (syntaxLeaf_evaluates (parseLabelOperator_staysDefined _ (labelExist_staysDefined env)))
    (Mirrors.orElse
      (syntaxLeaf_evaluates (parseLabelOperator_staysDefined _ (labelField_staysDefined _ _ _)))
      (Mirrors.bind Mirrors.peek fun p => Mirrors.ite ?_ ?_)))
  · exact Mirrors.bind (Mirrors.mute (Reports.scan _)) fun _ =>
      Mirrors.ite (syntaxPrim_evaluates hmem hentry) Mirrors.fail
  · exact Mirrors.orElse (Mirrors.bind (Mirrors.skip 4) fun _ => syntaxPair_evaluates hmem hentry)
      Mirrors.fail
  · refine Mirrors.bind (Mirrors.mute (Reports.scan _)) fun oper => ?_
    cases oper with
    | none => exact syntaxPrim_evaluates hmem hentry
    | some oper =>
      refine Mirrors.bind (hunair env hmem) fun e => ?_
      -- the tree has the operator whose code was read
      rw [applyUnary_unaryOf]
      refine Mirrors.bind (Mirrors.report ?_) fun _ => Mirrors.pure (applyUnary_code _ _)
      rw [SameKind, isUndefined_unary]
      simp

end Body

theorem syntaxUnairFuel_evaluates (fuel : Nat) :
    ∀ env : ExprEnv, env.MemoryDefined →
      Computes (syntaxUnairFuel fuel env) (parseExpUnairFuel fuel env) := by
  induction fuel with
  | zero => exact fun _ _ => Mirrors.fail
  | succ fuel ih =>
    exact fun env hmem => syntaxUnairBody_evaluates hmem ih fun env hmem =>
      syntaxLogOr_evaluates (ih env hmem)

/-- The syntax reader goes through the text as the parser does, and its trees have the values that the
parser computes. -/
theorem syntaxEntry_evaluates {env : ExprEnv} (hmem : env.MemoryDefined) :
    Computes (syntaxEntry env) (parseExpressionEntry env) :=
  syntaxLogOr_evaluates fun p => syntaxUnairFuel_evaluates p.length env hmem p

/-! ### Whole expressions -/

/-- The operations of a text that have no value are those that its evaluation reports. -/
theorem operations_sameKind (env : ExprEnv) (hmem : env.MemoryDefined) (p : Text) :
    SameKind (fun e => ¬HasValue e) (fun e => e.isUndefined = true) (operations env p)
      (parseExpressionEntry env p).log :=
  (syntaxEntry_evaluates hmem p).log

theorem parseExpression_sameKind {env : ExprEnv} (hmem : env.MemoryDefined) (flags : Relocation.Flags)
    (p : Text) :
    SameKind (fun e => ¬HasValue e) (fun e => e.isUndefined = true) (expressionOperations env p)
      (parseExpression env flags p).1.log := by
  have hregular := operations_sameKind { env with areLabelsOffset := false } hmem p
  have halternative :=
    operations_sameKind { env with areLabelsOffset := true, synerr := false } hmem p
  rw [expressionOperations, parseExpression]
  by_cases hoff : env.relocationType = .off
  · rw [if_pos hoff, if_pos hoff]
    exact hregular
  · rw [if_neg hoff, if_neg hoff]
    exact halternative.append hregular

namespace AsmState

variable {n m : Nat} (s : AsmState n m) (synerr : Bool) (labels : LabelEnv)

/-- What an expression sees of the state, with labels of any values. -/
def exprEnvWith : ExprEnv := { s.exprEnv synerr with labels := labels }

theorem exprEnvWith_memoryDefined : (s.exprEnvWith synerr labels).MemoryDefined := by
  intro address
  show ∀ e ∈ (s.memGetByte address).2, ¬e.isUndefined = true
  unfold memGetByte
  cases s.device with
  | none => exact defined_nil
  | some device =>
    dsimp only
    split_ifs
    · exact defined_nil
    · unfold Device.memGetByte
      split
      · exact defined_singleton rfl
      · exact defined_nil

/-- The evaluation of an expression applies no operation that is not defined exactly when every
operation of its syntax has a value: shift counts are in `0..31`, the smallest number is not divided by
-1, and its opposite is not taken. -/
theorem parseExpression_defined_iff (flags : Relocation.Flags) (p : Text) :
    (∀ e ∈ (Sjasmplus.parseExpression (s.exprEnvWith synerr labels) flags p).1.log,
        e.isUndefined = false) ↔
      ∀ e ∈ expressionOperations (s.exprEnvWith synerr labels) p, HasValue e := by
  have hsame := parseExpression_sameKind (s.exprEnvWith_memoryDefined synerr labels) flags p
  simpa using not_congr hsame

end AsmState

-- the opposite of the smallest number, by all three operators
example : (parseExpression .plain ⟨false, .off⟩
      ['-', '0', 'x', '8', '0', '0', '0', '0', '0', '0', '0']).1.log = [oppositeOverflow] ∧
    (parseExpression .plain ⟨false, .off⟩
      ['a', 'b', 's', ' ', '0', 'x', '8', '0', '0', '0', '0', '0', '0', '0']).1.log
        = [oppositeOverflow] ∧
    (parseExpression .plain ⟨false, .off⟩
      ['0', '-', '0', 'x', '8', '0', '0', '0', '0', '0', '0', '0']).1.log = [oppositeOverflow] := by
  decide

/-- A shift by 32 is not defined, and nothing is reported. -/
theorem not_parseExpression_defined : ¬∀ (n m : Nat) (s : AsmState n m) (synerr : Bool)
    (labels : LabelEnv) (flags : Relocation.Flags) (p : Text),
    ∀ e ∈ (parseExpression (s.exprEnvWith synerr labels) flags p).1.log, e.isUndefined = false := by
  intro h
  have hdefined := h 0 0 (.start 0 0) true ((AsmState.start 0 0).exprEnv true).labels ⟨false, .off⟩
    ['1', '<', '<', '3', '2'] (.undefined "shift count outside 0..31") (by decide)
  exact Bool.noConfusion hdefined

end Sjasmplus
