import Mathlib.Tactic.IntervalCases
import Sjasmplus.ExpressionArithmetic

/-!
# The unary level of expressions and its atoms

What `parseExpUnair` does with the tokens that an operand starts with: unary operators, parentheses,
numeric literals and names of labels.  `AtomParses` says that the unary level parses the texts of
some kind of atoms to their values; `atomParses_literal` says so for literals and
`parseExpUnair_label` for the names of defined labels.
-/

namespace Sjasmplus

-- the checks over all ASCII characters are deep
set_option maxRecDepth 4000

open Parsing ParseFn

/-! ### Leading blanks -/

theorem needOper_skipBlanks (table : List (Char × Char)) (kws : List (List Char × Nat)) (p : Text) :
    needOper table kws (skipBlanks p) = needOper table kws p := by
  rw [needOper, needOper, skipBlanks_skipBlanks]

theorem levelOper_skipBlanks (n : Nat) (p : Text) : levelOper n (skipBlanks p) = levelOper n p := by
  unfold levelOper
  split
  case h_3 =>
    rw [operOption, scan_apply, scan_apply, shiftOper, shiftOper, needOper_skipBlanks]
  all_goals
    rw [operOption, scan_apply, scan_apply]
    exact congrArg (fun r : Nat × Text => Outcome.mk (some (if r.1 = 0 then none else some r.1)) r.2 [])
      (needOper_skipBlanks _ _ p)

theorem parseExpUnair_skipBlanks (env : ExprEnv) (p : Text) :
    parseExpUnair env (skipBlanks p) = parseExpUnair env p := by
  have hblanks : blanks (skipBlanks p) = blanks p := by
    rw [blanks, scan_apply, scan_apply, skipBlanks_skipBlanks]
  rw [parseExpUnair_eq, parseExpUnair_eq, parseExpUnairBody, bind_apply, bind_apply, hblanks]

/-- Leading blanks do not matter to any level. -/
theorem ladder_skipBlanks (env : ExprEnv) (n : Nat) (p : Text) :
    ladder (parseExpUnair env) levelOper levelApply n (skipBlanks p)
      = ladder (parseExpUnair env) levelOper levelApply n p := by
  induction n with
  | zero => exact parseExpUnair_skipBlanks env p
  | succ n ih => rw [ladder, chainLeft, bind_apply, bind_apply, ih]

/-! ### Operators and parentheses -/

/-- The messages that are kept: all but the overflow of a literal.  The opposite of the smallest number,
which also overflows, is no message. -/
def notOverflow : Event → Bool
  | .error message _ type => !(message = NumericError.overflow.message && type = .suppress)
  | e => e ≠ oppositeOverflow

/-- Without one of the keywords that may also be labels, the unary level is its operators. -/
theorem parseExpUnairBody_operators {unair entry : ExprEnv → Reader Aint} {env : ExprEnv} {p : Text}
    (hnorel : cmphstr (skipBlanks p) ['n', 'o', 'r', 'e', 'l'] true = none)
    (hexist : cmphstr (skipBlanks p) ['e', 'x', 'i', 's', 't'] true = none)
    (hsizeof : cmphstr (skipBlanks p) ['s', 'i', 'z', 'e', 'o', 'f'] true = none)
    (hpair : cmphstr (skipBlanks p) ['p', 'a', 'i', 'r'] true = none) :
    parseExpUnairBody unair entry env p = parseUnaryOperators unair entry env (skipBlanks p) := by
  -- each keyword that does not match fails without moving, and the next one is tried
  have keyword_none : ∀ kw, cmphstr (skipBlanks p) kw true = none →
      keyword kw true (skipBlanks p) = ⟨some false, skipBlanks p, []⟩ := by
    intro kw h
    rw [keyword, scan_apply, h]
  have labelOperator_none : ∀ kw field, cmphstr (skipBlanks p) kw true = none →
      parseLabelOperator kw field (skipBlanks p) = ⟨none, skipBlanks p, []⟩ := fun kw field h =>
    bind_silent (keyword_none kw h) _
  have norel_none : parseNorel entry env (skipBlanks p) = ⟨none, skipBlanks p, []⟩ :=
    bind_silent (keyword_none _ hnorel) _
  rw [parseExpUnairBody, bind_silent (show blanks p = ⟨some (), skipBlanks p, []⟩ from rfl),
    orElse_none norel_none, orElse_none (labelOperator_none _ _ hexist),
    orElse_none (labelOperator_none _ _ hsizeof), bind_silent (peek_apply _)]
  simp only [Outcome.after_nil, hpair, Option.isSome_none, Bool.false_eq_true, if_false]

/-- A keyword does not match in front of a character that is no letter. -/
theorem cmphstr_of_not_isAlpha {c : Char} (hc : c.isAlpha = false) {k : Char} {ks : List Char}
    (hk : k.isAlpha = true) (p : Text) (a : Bool) : cmphstr (c :: p) (k :: ks) a = none := by
  have hupper : c.isUpper = false := (Bool.or_eq_false_iff.mp hc).1
  have hne : k ≠ c := by
    rintro rfl
    rw [hk] at hc
    exact absurd hc (by decide)
  simp only [cmphstr, List.takeWhile_cons, List.dropWhile_cons, hk, Bool.not_true, stripPrefix,
    cur_cons, hupper, hne, Bool.false_eq_true, if_false]

/-- A unary operator of one character is applied to the operand behind it. -/
theorem parseExpUnair_char (env : ExprEnv) {c : Char} (hc : c ∈ ['!', '~', '+', '-']) {p q : Text}
    {v : Aint} {l : List Event} (h : parseExpUnair env p = ⟨some v, q, l⟩) :
    parseExpUnair env (c :: p)
      = ⟨some (applyUnary c.toNat v).1, q, l ++ (applyUnary c.toNat v).2⟩ := by
  have hskip : skipBlanks (c :: p) = c :: p := by
    fin_cases hc <;> rfl
  have halpha : c.isAlpha = false := by
    fin_cases hc <;> rfl
  -- an operator is no letter, so that it starts none of the keywords
  have hkw : ∀ k ks, k.isAlpha = true → cmphstr (skipBlanks (c :: p)) (k :: ks) true = none := by
    intro k ks hk
    rw [hskip]
    exact cmphstr_of_not_isAlpha halpha hk p true
  have hoper : operOption unaryOper (c :: p) = ⟨some (some c.toNat), p, []⟩ := by
    fin_cases hc <;> rfl
  rw [parseExpUnair_eq, parseExpUnairBody_operators (hkw _ _ (by decide)) (hkw _ _ (by decide))
    (hkw _ _ (by decide)) (hkw _ _ (by decide)), parseUnaryOperators, hskip, bind_silent hoper]
  show (parseExpUnair env >>= fun right => report (applyUnary c.toNat right).2 >>= fun _ =>
    pure (applyUnary c.toNat right).1) p = _
  rw [bind_some h]
  show Outcome.after l ⟨some (applyUnary c.toNat v).1, q, (applyUnary c.toNat v).2 ++ []⟩ = _
  rw [Outcome.after_mk, List.append_nil]

/-- In front of a parenthesis there is no operator. -/
theorem parseExpUnair_openParen (env : ExprEnv) (p : Text) :
    parseExpUnair env ('(' :: p) = parseExpPrim parseExpressionEntry env ('(' :: p) := by
  rw [parseExpUnair_eq, parseExpUnairBody_operators rfl rfl rfl rfl, parseUnaryOperators,
    bind_silent (show operOption unaryOper (skipBlanks ('(' :: p))
      = ⟨some none, '(' :: p, []⟩ from rfl)]

/-- An expression between parentheses is an operand. -/
theorem parseExpUnair_paren (env : ExprEnv) {p q : Text} {v : Aint} {l : List Event}
    (h : parseExpressionEntry env p = ⟨some v, ')' :: q, l⟩) :
    parseExpUnair env ('(' :: p) = ⟨some v, q, l⟩ := by
  rw [parseExpUnair_openParen, parseExpPrim,
    bind_silent (show blanks ('(' :: p) = ⟨some (), '(' :: p, []⟩ from rfl),
    bind_silent (peek_apply _), cur_cons, if_neg (by decide), if_pos rfl,
    bind_silent (skip_apply 1 _), List.drop_one, List.tail_cons,
    bind_some (show attempt (parseExpressionEntry env) p = ⟨some (some v), ')' :: q, l⟩ by
      rw [attempt_apply, h]),
    bind_silent (show need ')' (')' :: q) = ⟨some true, q, []⟩ from rfl), if_pos rfl]
  show Outcome.after l ⟨some v, q, []⟩ = _
  rw [Outcome.after_mk, List.append_nil]

/-- The words that `ParseExpUnair` takes for operators. -/
def operatorWords : List (List Char) :=
  [['n', 'o', 'r', 'e', 'l'], ['e', 'x', 'i', 's', 't'], ['s', 'i', 'z', 'e', 'o', 'f'],
    ['p', 'a', 'i', 'r'], ['n', 'o', 't'], ['l', 'o', 'w'], ['h', 'i', 'g', 'h'], ['a', 'b', 's'],
    ['u', '1', '6']]

theorem needa_none {p : Text} {kws : List (List Char × Nat)} {a : Bool}
    (h : ∀ kw ∈ kws, cmphstr p kw.1 a = none) : needa p kws a = (0, p) := by
  induction kws with
  | nil => rfl
  | cons kw kws ih =>
    rw [needa, h kw List.mem_cons_self, ih fun x hx => h x (List.mem_cons_of_mem _ hx), ite_self]

/-- Without an operator the unary level is a primary expression. -/
theorem parseExpUnair_prim (env : ExprEnv) {p : Text} (hskip : skipBlanks p = p)
    (hkw : ∀ kw ∈ operatorWords, cmphstr p kw true = none) (hc : cur p ∉ ['!', '~', '+', '-']) :
    parseExpUnair env p = parseExpPrim parseExpressionEntry env p := by
  -- neither the table of characters nor the one of words finds an operator
  have htable : needTable [('!', ' '), ('~', ' '), ('+', ' '), ('-', ' ')] p = (0, p) := by
    simp only [List.mem_cons, List.not_mem_nil, or_false, not_or] at hc
    simp only [needTable, ne_eq, hc, not_false_eq_true, if_true]
  have hneeda : needa p [(['n', 'o', 't'], '!'.toNat), (['l', 'o', 'w'], 'l'.toNat),
      (['h', 'i', 'g', 'h'], 'h'.toNat), (['a', 'b', 's'], 'a'.toNat),
      (['u', '1', '6'], 'u'.toNat)] true = (0, p) := by
    refine needa_none fun kw hkw' => hkw kw.1 ?_
    simp only [List.mem_cons, List.not_mem_nil, or_false] at hkw'
    rcases hkw' with rfl | rfl | rfl | rfl | rfl <;> decide
  have hoper : operOption unaryOper p = ⟨some none, p, []⟩ := by
    simp only [operOption, scan_apply, unaryOper, needOper, hskip, htable, hneeda, ne_eq,
      not_true_eq_false, if_false, if_true]
  rw [← hskip] at hkw
  rw [parseExpUnair_eq, parseExpUnairBody_operators (hkw _ (by decide)) (hkw _ (by decide))
    (hkw _ (by decide)) (hkw _ (by decide)), parseUnaryOperators, hskip, bind_silent hoper]

/-- A primary expression without a parenthesis in front, where no temporary label is ahead. -/
theorem parseExpPrim_operand (entry : ExprEnv → Reader Aint) (env : ExprEnv) {p : Text}
    (hskip : skipBlanks p = p) (hc : cur p ∉ ['\x00', '(', '{'])
    (htemp : (cur p).isDigit = true → getTemporaryLabelValue env p = ⟨none, p, []⟩) :
    parseExpPrim entry env p = parseOperand env p := by
  simp only [List.mem_cons, List.not_mem_nil, or_false, not_or] at hc
  have htemporary : (if (cur p).isDigit then attempt (getTemporaryLabelValue env) else pure none :
      Reader (Option Aint)) p = ⟨some none, p, []⟩ := by
    split_ifs with hdigit
    · rw [attempt_apply, htemp hdigit]
    · rfl
  rw [parseExpPrim, bind_silent (show blanks p = ⟨some (), p, []⟩ by
      rw [blanks, scan_apply, hskip]),
    bind_silent (peek_apply _), if_neg hc.1, if_neg hc.2.1, if_neg fun h => hc.2.2 h.2]
  rw [bind_silent htemporary]

/-! ### Atoms -/

/-- What may stand behind an operand: nothing that continues a literal or a label. -/
def OperandEnd (p : Text) : Prop := islabchar (cur p) = false ∧ cur p ≠ '\'' ∧ cur p ≠ '['

/-- The unary level parses the texts of the atoms to their values and reports nothing of interest. -/
def AtomParses {A : Type} (env : ExprEnv) (keep : Event → Bool) (atomText : A → Text)
    (atomValue : A → Aint) : Prop :=
  ∀ a p, OperandEnd p → ∃ l,
    parseExpUnair env (atomText a ++ p) = ⟨some (atomValue a), p, l⟩ ∧ l.filter keep = []

/-! ### What all grammars of expressions have -/

theorem parseExpUnair_neverGrows (env : ExprEnv) : NeverGrows (parseExpUnair env) :=
  (parseExpUnair_advances env).neverGrows

theorem grammar_top_pos : 0 < 11 := by decide

/-! ### Numeric literals as atoms -/

/-- A literal that starts an operand: not a text that is taken for a temporary label first. -/
structure LiteralAtom extends NumericLiteral where
  not_temporary : toNumericLiteral.form = .hexH → toNumericLiteral.later.temporary = false

/-- A decimal literal of one digit. -/
theorem valid_nil : LaterDigits.Valid LiteralForm.decimal.base [] := by simp [LaterDigits.Valid]

theorem not_temporary_nil :
    LiteralForm.decimal = .hexH → LaterDigits.temporary [] = false := by
  simp

theorem literalStops_of_operandEnd {p : Text} (h : OperandEnd p) : literalStops p = true := by
  obtain ⟨hlab, hquote, -⟩ := h
  simp only [islabchar, Bool.or_eq_false_iff, decide_eq_false_iff_not] at hlab
  simp [literalStops, isDigitSeparator, hlab, hquote]

/-- A literal starts with a digit, with `#` or `$` in front of an alphanumeric character, or with
`%`. -/
theorem NumericLiteral.text_head (lit : NumericLiteral) (p : Text) :
    ∃ c t, lit.text ++ p = c :: t ∧
      (c.isDigit = true ∨ ((c = '#' ∨ c = '$') ∧ (cur t).isAlphanum = true) ∨ c = '%') := by
  -- a literal with a prefix starts with it, a bare one with its first digit
  rcases hb : lit.form.bare with _ | _
  · cases hf : lit.form <;> simp only [hf, LiteralForm.bare, Bool.true_eq_false] at hb
    case hexDollar =>
      exact ⟨'$', lit.digitText ++ p,
        by simp [DocumentedLiteral.text, hf, LiteralForm.opening, LiteralForm.closing],
        Or.inr (Or.inl ⟨Or.inr rfl, lit.first_digit.1⟩)⟩
    case hexHash =>
      exact ⟨'#', lit.digitText ++ p,
        by simp [DocumentedLiteral.text, hf, LiteralForm.opening, LiteralForm.closing],
        Or.inr (Or.inl ⟨Or.inl rfl, lit.first_digit.1⟩)⟩
    case binPercent =>
      exact ⟨'%', lit.digitText ++ p,
        by simp [DocumentedLiteral.text, hf, LiteralForm.opening, LiteralForm.closing],
        Or.inr (Or.inr rfl)⟩
    -- the remaining prefixes start with `0`
    all_goals
      exact ⟨'0', _,
        by simp only [DocumentedLiteral.text, hf, LiteralForm.opening, List.cons_append]; rfl,
        Or.inl (by decide)⟩
  · have hopen : lit.form.opening lit.upper = [] := by
      cases hf : lit.form <;> simp_all [LiteralForm.bare, LiteralForm.opening]
    exact ⟨lit.first, lit.later.text ++ (lit.form.closing lit.upper ++ p),
      by simp [DocumentedLiteral.text, DocumentedLiteral.digitText, hopen],
      Or.inl (lit.bare_digit hb)⟩

/-- The text does not match a temporary label with an underscore. -/
def notTemporary (op : Text) : Prop :=
  cur (op.dropWhile Char.isDigit) = '_' →
    (lower20 (cur (op.dropWhile Char.isDigit).tail) ≠ 'b'.toNat ∧
      lower20 (cur (op.dropWhile Char.isDigit).tail) ≠ 'f'.toNat) ∨
    islabchar (cur (op.dropWhile Char.isDigit).tail.tail) = true

/-- Digits that do not look like a temporary label do not match one. -/
theorem notTemporary_later {base : Nat} {later : LaterDigits} (h : later.Valid base)
    (htemp : later.temporary = false) {t : Text} (ht : cur t ≠ '_' ∧ (cur t).isDigit = false)
    (hbase : base ≤ 10 ∨ islabchar (cur t) = true) : notTemporary (later.text ++ t) := by
  -- by induction on the digits: a temporary label is digits, `_` at most, and a final letter
  induction later with
  | nil =>
    intro hcur
    have hdrop : t.dropWhile Char.isDigit = t := by
      cases t with
      | nil => rfl
      | cons c t => exact List.dropWhile_cons_of_neg (by simpa using ht.2)
    rw [LaterDigits.text_nil, List.nil_append, hdrop] at hcur
    exact absurd hcur ht.1
  | cons d later ih =>
    obtain ⟨hsep, hdigit, hval⟩ := h.head
    -- the next digit has a separator in front of it, or none
    rcases d with ⟨_ | s, c⟩
    · rw [LaterDigits.text_cons, Option.toList_none, List.nil_append, List.cons_append]
      by_cases hc : c.isDigit = true
      · rw [LaterDigits.temporary, hc, Bool.true_and] at htemp
        have hdrop := List.dropWhile_cons_of_pos (p := Char.isDigit)
          (l := LaterDigits.text later ++ t) hc
        unfold notTemporary
        rw [hdrop]
        exact ih h.tail htemp
      · intro hcur
        rw [List.dropWhile_cons_of_neg (by simpa using hc), cur_cons] at hcur
        rw [hcur] at hdigit
        exact absurd hdigit (by decide)
    · have hs : isDigitSeparator s = true := hsep s rfl
      have hs' : s.isDigit = false := by
        simp only [isDigitSeparator, Bool.or_eq_true, decide_eq_true_eq] at hs
        rcases hs with rfl | rfl <;> rfl
      rw [LaterDigits.text_cons, Option.toList_some, List.singleton_append, List.cons_append,
        List.cons_append]
      unfold notTemporary
      rw [List.dropWhile_cons_of_neg (by simp [hs']), cur_cons, List.tail_cons, cur_cons,
        List.tail_cons]
      rintro rfl
      -- behind a separator only `b` and `f` could end a temporary label
      by_cases hbf : lower20 c = 'b'.toNat ∨ lower20 c = 'f'.toNat
      · refine Or.inr ?_
        -- as a digit such a letter needs a base above ten, and then a label character follows
        have hbig : ¬ base ≤ 10 := by
          intro hle
          have hlt := lower20_of_getval_lt_ten hdigit (Nat.lt_of_lt_of_le hval hle)
          rcases hbf with h | h <;> rw [h] at hlt <;> exact absurd hlt (by decide)
        rw [LaterDigits.temporary] at htemp
        rcases hl : later with _ | ⟨⟨_ | s', c'⟩, later'⟩
        · exact hbase.resolve_left hbig
        · have hc' := ((hl ▸ h.tail) : LaterDigits.Valid base _).head.2.1
          rw [LaterDigits.text_cons]
          show islabchar c' = true
          rw [islabchar, hc']
          rfl
        · have hs' : isDigitSeparator s' = true :=
            ((hl ▸ h.tail) : LaterDigits.Valid base _).head.1 s' rfl
          rw [LaterDigits.text_cons]
          show islabchar s' = true
          simp only [isDigitSeparator, Bool.or_eq_true, decide_eq_true_eq] at hs'
          rcases hs' with rfl | rfl
          · rw [hl] at htemp
            rcases hbf with h | h <;> simp [h] at htemp
          · rfl
      · exact Or.inl (not_or.mp hbf)

/-- Digits up to base 10 do not look like a temporary label. -/
theorem temporary_of_base_le_ten {base : Nat} {later : LaterDigits} (h : later.Valid base)
    (hbase : base ≤ 10) : later.temporary = false := by
  induction later with
  | nil => rfl
  | cons d later ih =>
    obtain ⟨-, hdigit, hval⟩ := h.head
    rcases d with ⟨_ | s, c⟩
    · rw [LaterDigits.temporary, ih h.tail, Bool.and_false]
    · have hlt := lower20_of_getval_lt_ten hdigit (Nat.lt_of_lt_of_le hval hbase)
      have hb : lower20 c ≠ 'b'.toNat := fun h => by rw [h] at hlt; exact absurd hlt (by decide)
      have hf : lower20 c ≠ 'f'.toNat := fun h => by rw [h] at hlt; exact absurd hlt (by decide)
      rw [LaterDigits.temporary, decide_eq_false hb, decide_eq_false hf, Bool.or_false,
        Bool.and_false, Bool.false_and]

/-- What follows the digits of a bare literal. -/
theorem closing_head {form : LiteralForm} (hb : form.bare = true) (upper : Bool) {p : Text}
    (hp : OperandEnd p) :
    (cur (form.closing upper ++ p) ≠ '_' ∧ (cur (form.closing upper ++ p)).isDigit = false) ∧
      (form.base ≤ 10 ∨ islabchar (cur (form.closing upper ++ p)) = true) := by
  cases form <;> simp only [LiteralForm.bare, Bool.false_eq_true] at hb
  case decimal =>
    have hlab := hp.1
    simp only [islabchar, Char.isAlphanum, Bool.or_eq_false_iff, decide_eq_false_iff_not] at hlab
    simp [LiteralForm.closing, LiteralForm.base, hlab]
  all_goals cases upper <;> simp [LiteralForm.closing, LiteralForm.base, islabchar]

theorem LiteralAtom.notTemporary_text (lit : LiteralAtom) {p : Text} (hp : OperandEnd p)
    (hdigit : (cur (lit.text ++ p)).isDigit = true) : notTemporary (lit.text ++ p) := by
  -- the prefixes that start with a digit are followed by a letter that is none
  rcases hb : lit.form.bare with _ | _
  · cases hf : lit.form <;> simp only [hf, LiteralForm.bare, Bool.true_eq_false] at hb <;>
      simp only [DocumentedLiteral.text, hf, LiteralForm.opening, List.cons_append] at hdigit ⊢
    case hexDollar => exact absurd hdigit (by simp)
    case hexHash => exact absurd hdigit (by simp)
    case binPercent => exact absurd hdigit (by simp)
    all_goals
      intro h
      cases hu : lit.upper <;> simp [hu] at h
  · have hopen : lit.form.opening lit.upper = [] := by
      cases hf : lit.form <;> simp_all [LiteralForm.bare, LiteralForm.opening]
    have htext : lit.text ++ p
        = LaterDigits.text ((none, lit.first) :: lit.later) ++ (lit.form.closing lit.upper ++ p) := by
      simp [DocumentedLiteral.text, DocumentedLiteral.digitText, hopen]
    obtain ⟨hend, hbase⟩ := closing_head hb lit.upper hp
    have hvalid : LaterDigits.Valid lit.form.base ((none, lit.first) :: lit.later) := by
      intro d hd
      rcases List.mem_cons.mp hd with rfl | hd
      · exact ⟨by simp, lit.first_digit⟩
      · exact lit.later_valid d hd
    rw [htext]
    refine notTemporary_later hvalid ?_ hend hbase
    -- `0..fh` is a temporary label where its digits look like one: such literals are left out
    by_cases hf : lit.form = .hexH
    · rw [LaterDigits.temporary, lit.not_temporary hf, Bool.and_false]
    · refine temporary_of_base_le_ten hvalid ?_
      cases hform : lit.form <;> simp_all [LiteralForm.bare, LiteralForm.base]

/-- Where no temporary label is ahead, none is read and nothing is reported. -/
theorem getTemporaryLabelValue_of_notTemporary (env : ExprEnv) {op : Text}
    (hwhite : skipBlanks op = op) (h : notTemporary op) :
    getTemporaryLabelValue env op = ⟨none, op, []⟩ := by
  refine bind_none ?_ _
  rw [getTemporaryLabel, bind_silent (peek_apply op)]
  by_cases hu : cur (op.dropWhile Char.isDigit) = '_'
  · simp only [hwhite, hu, decide_true, Bool.not_true, Bool.and_false, Bool.or_false, if_true,
      if_pos (h hu)]
    split <;> rfl
  · simp only [hwhite, hu, decide_false, Bool.not_false, Bool.and_self, Bool.or_true, if_true]
    rfl

/-- The first characters of literals. -/
def isLiteralHead (c : Char) : Bool := c.isDigit || c = '#' || c = '$' || c = '%'

theorem isLiteralHead_facts {c : Char} (h : isLiteralHead c = true) :
    white c = false ∧ c.isAlpha = false ∧ c ∉ ['\x00', '(', '{', '!', '~', '+', '-'] := by
  have hc : c.toNat < 128 := by
    simp only [isLiteralHead, Bool.or_eq_true, decide_eq_true_eq] at h
    rcases h with ((h | rfl) | rfl) | rfl
    · exact toNat_lt_of_isAlphanum (by rw [Char.isAlphanum, h, Bool.or_true])
    all_goals decide
  exact ascii_forall (P := fun c => isLiteralHead c = true →
    white c = false ∧ c.isAlpha = false ∧ c ∉ ['\x00', '(', '{', '!', '~', '+', '-'])
    (by decide) hc h

/-- **Numeric literals are atoms** of the grammar. -/
theorem atomParses_literal (env : ExprEnv) :
    AtomParses env notOverflow (fun lit : LiteralAtom => lit.text) (fun lit => lit.value) := by
  intro lit p hp
  obtain ⟨c, t, htext, hc⟩ := lit.text_head p
  obtain ⟨l, hl, hover⟩ := lit.getConstant_text (literalStops_of_operandEnd hp)
  -- the first character decides that the operand is a constant
  have hhead : isLiteralHead c = true := by
    rcases hc with hc | ⟨rfl | rfl, -⟩ | rfl
    · rw [isLiteralHead, hc]; rfl
    all_goals rfl
  obtain ⟨hwhite, halpha, hmem⟩ := isLiteralHead_facts hhead
  simp only [List.mem_cons, List.not_mem_nil, or_false, not_or] at hmem
  have hskip : skipBlanks (c :: t) = c :: t := skipBlanks_cons hwhite t
  have hkw : ∀ kw ∈ operatorWords, cmphstr (c :: t) kw true = none := by
    intro kw hkw
    fin_cases hkw <;> exact cmphstr_of_not_isAlpha halpha (by decide) t true
  have hconstant : parseOperand env (c :: t) = getConstant (c :: t) := by
    rw [parseOperand, bind_silent (peek_apply _), cur_cons, List.tail_cons, if_pos]
    rcases hc with hc | ⟨rfl | rfl, hc⟩ | rfl
    · exact Or.inl hc
    · exact Or.inr (Or.inl ⟨rfl, hc⟩)
    · exact Or.inr (Or.inr (Or.inl ⟨rfl, hc⟩))
    · exact Or.inr (Or.inr (Or.inr rfl))
  -- the unary level goes down to the constant; a temporary label is tried first
  refine ⟨l, ?_, ?_⟩
  · show parseExpUnair env (lit.text ++ p) = _
    rw [htext, parseExpUnair_prim env hskip hkw (by simp [hmem]),
      parseExpPrim_operand _ env hskip (by simp [hmem]) fun hdigit => ?_, hconstant, ← htext, hl]
    rw [cur_cons] at hdigit
    have hnot := lit.notTemporary_text hp (by rw [htext]; exact hdigit)
    rw [htext] at hnot
    exact getTemporaryLabelValue_of_notTemporary env hskip hnot
  · rcases hover with rfl | rfl
    · rfl
    · rfl

/-! ### Names of labels as atoms -/

/-- The name of a label as it stands in an expression. -/
structure LabelName where
  text : Text
  start : isLabelStart text = true
  chars : ∀ c ∈ text, islabchar c = true
  not_operator : ∀ kw ∈ operatorWords, text ≠ kw ∧ text ≠ kw.map Char.toUpper

/-- The table holds a defined label under the name. -/
def LabelName.Found (name : LabelName) (env : LabelEnv) (entry : LabelEntry) : Prop :=
  labelEntry env name.text = some entry

theorem takeWhile_append_stop {f : Char → Bool} {t p : Text} (ht : ∀ c ∈ t, f c = true)
    (hp : f (cur p) = false) : (t ++ p).takeWhile f = t ∧ (t ++ p).dropWhile f = p := by
  have hstop : p.takeWhile f = [] ∧ p.dropWhile f = p := by
    cases p with
    | nil => exact ⟨rfl, rfl⟩
    | cons c p =>
      rw [cur_cons] at hp
      simp [hp]
  rw [List.takeWhile_append_of_pos ht, List.dropWhile_append_of_pos ht, hstop.1, hstop.2,
    List.append_nil]
  exact ⟨rfl, rfl⟩

/-- A label starts with none of the characters that start other operands. -/
theorem not_mem_of_isLabelStart {c : Char} {p : Text} (h : isLabelStart (c :: p) = true) :
    c ∉ ['\x00', '(', '{', '!', '~', '+', '-', '#', '$', '%'] ∧ c.isDigit = false := by
  have hhead : c = '.' ∨ c = '@' ∨ isLabelHead c = true := by
    simp only [isLabelStart, Bool.true_and, cur_cons, Bool.or_eq_true] at h
    split_ifs at h with hc
    · exact hc.imp of_decide_eq_true fun hc => Or.inl (of_decide_eq_true hc)
    · exact Or.inr (Or.inr h)
  rcases hhead with rfl | rfl | hhead
  · decide
  · decide
  -- a label head is an ASCII letter or `_`: all of them are tried
  · have hlt : c.toNat < 128 := by
      simp only [isLabelHead, Bool.or_eq_true, decide_eq_true_eq] at hhead
      rcases hhead with hhead | rfl
      · exact toNat_lt_of_isAlphanum (by rw [Char.isAlphanum, hhead, Bool.true_or])
      · decide
    exact ascii_forall (P := fun c => isLabelHead c = true →
      c ∉ ['\x00', '(', '{', '!', '~', '+', '-', '#', '$', '%'] ∧ c.isDigit = false)
      (by decide) hlt hhead

/-- Characters of labels are no blanks. -/
theorem not_white_of_islabchar {c : Char} (h : islabchar c = true) :
    c ≠ '\x00' ∧ white c = false := by
  have hlt : c.toNat < 128 := by
    simp only [islabchar, Bool.or_eq_true, decide_eq_true_eq] at h
    rcases h with (((((h | rfl) | rfl) | rfl) | rfl) | rfl) | rfl
    · exact toNat_lt_of_isAlphanum h
    all_goals decide
  exact ascii_forall (P := fun c => islabchar c = true → c ≠ '\x00' ∧ white c = false)
    (by decide) hlt h

theorem not_islabchar_of_keywordEnds {p : Text} (h : keywordEnds p true = true) :
    islabchar (cur p) = false := by
  simp only [keywordEnds, Bool.or_eq_true, Bool.and_eq_true, decide_eq_true_eq, true_and] at h
  have hcases : cur p = '\x00' ∨ white (cur p) = true ∨ cur p = ';' ∨ cur p = '/' ∨ cur p = '(' := by
    tauto
  rcases hcases with hc | hc | hc | hc | hc
  · rw [hc]; rfl
  · have hlt : (cur p).toNat < 128 := by
      simp only [white, Bool.and_eq_true, decide_eq_true_eq] at hc
      have hle : (cur p).toNat ≤ ' '.toNat := hc.2
      exact Nat.lt_of_le_of_lt hle (by decide)
    exact ascii_forall (P := fun c => white c = true → islabchar c = false) (by decide)
      hlt hc
  all_goals rw [hc]; rfl

namespace LabelName

variable (name : LabelName)

/-- The name is no operator word, whatever stands behind it. -/
theorem cmphstr_text {p : Text} (hp : islabchar (cur p) = false) {kw : List Char}
    (hkw : kw ∈ operatorWords) : cmphstr (name.text ++ p) kw true = none := by
  have hfront : kw.takeWhile (!·.isAlpha) = [] ∧ kw.dropWhile (!·.isAlpha) = kw := by
    fin_cases hkw <;> exact ⟨rfl, rfl⟩
  have hchars : ∀ word ∈ [kw, kw.map Char.toUpper], ∀ c ∈ word, islabchar c = true := by
    intro word hword
    refine List.all_eq_true.mp ?_
    simp only [List.mem_cons, List.not_mem_nil, or_false] at hword
    rcases hword with rfl | rfl <;> fin_cases hkw <;> rfl
  have hmiss : ∀ word ∈ [kw, kw.map Char.toUpper], ∀ q, stripPrefix word (name.text ++ p) = some q →
      keywordEnds q true = true → False := by
    intro word hword q hq hends
    -- both the name and the word are the longest prefix of label characters
    have hname := takeWhile_append_stop name.chars hp
    have hword' := takeWhile_append_stop (hchars word hword) (not_islabchar_of_keywordEnds hends)
    rw [stripPrefix_eq_some.mp hq, hword'.1] at hname
    have hnot := name.not_operator kw hkw
    simp only [List.mem_cons, List.not_mem_nil, or_false] at hword
    rcases hword with rfl | rfl
    · exact hnot.1 hname.1.symm
    · exact hnot.2 hname.1.symm
  unfold cmphstr
  rw [hfront.1, hfront.2]
  simp only [stripPrefix]
  split
  · rfl
  · rename_i q hq
    split_ifs with hends
    · exact absurd (hmiss _ (by split_ifs <;> simp) q hq hends) id
    · rfl

theorem text_eq_cons : ∃ c t, name.text = c :: t ∧
    ∀ p, isLabelStart (c :: (t ++ p)) = true := by
  have hstart := name.start
  rcases htext : name.text with _ | ⟨c, t⟩
  · rw [htext] at hstart
    exact absurd hstart (by decide)
  · rw [htext] at hstart
    refine ⟨c, t, rfl, fun p => ?_⟩
    unfold isLabelStart at hstart ⊢
    rw [cur_cons, List.tail_cons] at hstart ⊢
    split_ifs at hstart ⊢
    · cases t with
      | nil => exact absurd hstart (by decide)
      | cons c t => exact hstart
    · exact hstart

/-- The look-up sees the name only. -/
theorem validateLabel_text (scope : LabelScope) {p : Text} (hp : OperandEnd p) :
    (validateLabel scope false true (name.text ++ p)).1
      = (validateLabel scope false true name.text).1 := by
  obtain ⟨c, t, htext, hstart⟩ := name.text_eq_cons
  have hchars := name.chars
  have hnil := hstart []
  rw [htext] at hchars ⊢
  rw [List.append_nil] at hnil
  have hlab := hchars c List.mem_cons_self
  obtain ⟨hzero, hwhite⟩ := not_white_of_islabchar hlab
  have hbang : c ≠ '!' := by
    rintro rfl
    exact absurd hnil (by simp [isLabelStart, isLabelHead])
  have ht : ∀ c ∈ t, islabchar c = true := fun c hc => hchars c (List.mem_cons_of_mem _ hc)
  -- a leading `@` or `.` is cut off in both, and the rest is read up to the end of the name
  have hcase : (if (decide (c = '@') || decide (c = '.')) = true then (t ++ p) else c :: (t ++ p))
      = (if (decide (c = '@') || decide (c = '.')) = true then t else c :: t) ++ p := by
    split_ifs <;> rfl
  have hown : ∀ c' ∈ (if (decide (c = '@') || decide (c = '.')) = true then t else c :: t),
      islabchar c' = true := by
    split_ifs
    · exact ht
    · exact hchars
  have hname := takeWhile_append_stop hown hp.1
  have hname' := takeWhile_append_stop (p := []) hown rfl
  rw [List.append_nil] at hname'
  rw [List.cons_append]
  simp only [validateLabel, cur_cons, hbang, if_false, Bool.false_and, Bool.false_eq_true,
    List.tail_cons, hstart p, hnil, Bool.not_true, Bool.and_false, hcase, hname.1, hname.2,
    hname'.1, hname'.2, hp.2.2, hzero, hwhite, or_self, cur_nil]
  rfl

theorem getLabel_text {env : LabelEnv} {entry : LabelEntry} (h : name.Found env entry) {p : Text}
    (hp : OperandEnd p) : ∃ l, getLabel env (name.text ++ p) = ⟨some (.found entry), p, l⟩ := by
  have hlookup : labelEntry env (name.text ++ p) = some entry := by
    have hcur : cur (name.text ++ p) = cur name.text := by
      obtain ⟨c, t, htext, -⟩ := name.text_eq_cons
      rw [htext]
      rfl
    have hnames : searchNames env.scope (name.text ++ p) = searchNames env.scope name.text := by
      funext fullName
      rw [searchNames, searchNames, hcur]
    unfold LabelName.Found at h
    rw [labelEntry] at h ⊢
    rw [name.validateLabel_text env.scope hp, hnames]
    exact h
  obtain ⟨l, hl⟩ := getLabel_of_labelEntry hlookup
  rw [(takeWhile_append_stop name.chars hp.1).2] at hl
  exact ⟨l, hl⟩

end LabelName

/-- **Names of defined labels are atoms**; their value is the label's value with its offset. -/
theorem parseExpUnair_label (env : ExprEnv) (name : LabelName) {entry : LabelEntry}
    (h : name.Found env.labels entry) {p : Text} (hp : OperandEnd p) :
    ∃ l, parseExpUnair env (name.text ++ p)
      = ⟨some (entry.value + labelOffset env entry.isRelocatable), p, l⟩ := by
  obtain ⟨c, t, htext, hstart⟩ := name.text_eq_cons
  obtain ⟨l, hl⟩ := name.getLabel_text h hp
  have hkw : ∀ kw ∈ operatorWords, cmphstr (name.text ++ p) kw true = none := fun kw hkw =>
    name.cmphstr_text hp.1 hkw
  have hlab : islabchar c = true := name.chars c (by rw [htext]; exact List.mem_cons_self)
  have hwhite := (not_white_of_islabchar hlab).2
  rw [htext, List.cons_append] at hl hkw ⊢
  obtain ⟨hmem, hdigit⟩ := not_mem_of_isLabelStart (hstart p)
  simp only [List.mem_cons, List.not_mem_nil, or_false, not_or] at hmem
  have hskip : skipBlanks (c :: (t ++ p)) = c :: (t ++ p) := skipBlanks_cons hwhite _
  -- the start of a label is none of the other operands, so that the label is looked up
  refine ⟨l, ?_⟩
  rw [parseExpUnair_prim env hskip hkw (by simp [hmem]),
    parseExpPrim_operand _ env hskip (by simp [hmem]) (by simp [hdigit]), parseOperand,
    bind_silent (peek_apply _), cur_cons, if_neg (by simp [hmem, hdigit]), if_pos (hstart p),
    getLabelValue, labelField, bind_some hl]
  exact Outcome.ext rfl rfl (List.append_nil l)

end Sjasmplus
