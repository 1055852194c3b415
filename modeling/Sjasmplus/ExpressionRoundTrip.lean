import Mathlib.Tactic.IntervalCases
import Sjasmplus.ExpressionAtoms

/-!
# Round trip of the expression grammar

`grammar` is the instance of the precedence grammar for the expression parser: it checks what every
operator token does in front of a blank or the end of the line, at its own level, at every tighter
level and at the unary level.  Atoms are a parameter: `AtomParses` says that the unary level parses
their texts to their values.

* `parseExpressionEntry_text`: the text of a tree over such atoms is parsed to its end, to the tree's
  value, reporting its divisions by zero;
* `parseExpression_literals`: the round trip for trees over numeric literals.
-/

namespace Sjasmplus

open Parsing ParseFn

/-! ### Tokens -/

/-- The text behind a token: another token behind its blank, or the end of the line. -/
def AtTokenEnd (p : Text) : Prop := p = [] ∨ ∃ q, p = ' ' :: q

theorem AtTokenEnd.operandEnd {p : Text} (h : AtTokenEnd p) : OperandEnd p := by
  rcases h with rfl | ⟨q, rfl⟩ <;> exact ⟨rfl, by simp, by simp⟩

/-- A leading blank does not matter. -/
theorem parseExpUnair_blank (env : ExprEnv) (p : Text) :
    parseExpUnair env (' ' :: p) = parseExpUnair env p := by
  rw [← parseExpUnair_skipBlanks, skipBlanks_blank, parseExpUnair_skipBlanks]

theorem levelOper_own (b : BinaryOp) {p : Text} (hp : AtTokenEnd p) :
    levelOper b.rank (' ' :: b.text ++ p) = ⟨some (some b.code), p, []⟩ := by
  rcases hp with rfl | ⟨q, rfl⟩ <;> cases b <;> rfl

theorem levelOper_tighter (b : BinaryOp) {p : Text} (n : Nat) (hp : AtTokenEnd p)
    (hn : n < b.rank) :
    levelOper n (' ' :: b.text ++ p) = ⟨some none, skipBlanks (' ' :: b.text ++ p), []⟩ := by
  rcases hp with rfl | ⟨q, rfl⟩ <;> cases b <;> simp only [BinaryOp.rank] at hn <;>
    interval_cases n <;> rfl

theorem levelOper_close (p : Text) (n : Nat) :
    levelOper n (' ' :: ')' :: p) = ⟨some none, ')' :: p, []⟩ := by
  unfold levelOper
  split <;> rfl

/-- A unary operator is applied to the operand behind it. -/
theorem parseExpUnair_unary (env : ExprEnv) (u : UnaryOp) {p q : Text} {v : Aint} {l : List Event}
    (hp : AtTokenEnd p) (h : parseExpUnair env p = ⟨some v, q, l⟩) :
    parseExpUnair env (' ' :: u.text ++ p)
      = ⟨some (applyUnary u.code v).1, q, l ++ (applyUnary u.code v).2⟩ := by
  -- none of the names of unary operators is a prefix of another one
  have hoper : operOption unaryOper (skipBlanks (' ' :: u.text ++ p))
      = ⟨some (some u.code), p, []⟩ := by
    rcases hp with rfl | ⟨q, rfl⟩ <;> cases u <;> rfl
  have hkw : ∀ kw ∈ [['n', 'o', 'r', 'e', 'l'], ['e', 'x', 'i', 's', 't'],
      ['s', 'i', 'z', 'e', 'o', 'f'], ['p', 'a', 'i', 'r']],
      cmphstr (skipBlanks (' ' :: u.text ++ p)) kw true = none := by
    intro kw hkw
    fin_cases hkw <;> cases u <;> rfl
  rw [parseExpUnair_eq, parseExpUnairBody_operators (hkw _ (by simp)) (hkw _ (by simp))
    (hkw _ (by simp)) (hkw _ (by simp)), parseUnaryOperators, bind_silent hoper]
  dsimp only
  rw [bind_some h]
  show Outcome.after l ⟨some (applyUnary u.code v).1, q, (applyUnary u.code v).2 ++ []⟩ = _
  rw [Outcome.after_mk, List.append_nil]

/-! ### The grammar -/

section Grammar

variable {A : Type} {atomText : A → Text} {atomValue : A → Aint} {env : ExprEnv}

/-- What the parser computes for the operators. -/
def parserMeaning (atomValue : A → Aint) : Meaning A UnaryOp BinaryOp Aint Event where
  atom := atomValue
  unary u x := applyUnary u.code x
  binary b x y := levelApply b.rank b.code x y

/-- The expression grammar of the source is a precedence grammar; each token has a blank in front. -/
def grammar (h : AtomParses env notOverflow atomText atomValue) :
    Grammar Unit A UnaryOp BinaryOp (parseExpUnair env) levelOper levelApply where
  rank := BinaryOp.rank
  top := 11
  text _ t := ' ' :: tokenText atomText t
  code := BinaryOp.code
  meaning := parserMeaning atomValue
  skip := skipBlanks
  opens := AtTokenEnd
  closes := AtTokenEnd
  keep := notOverflow
  rank_lt b := by cases b <;> decide
  top_pos := grammar_top_pos
  operand_neverGrows := parseExpUnair_neverGrows env
  oper_laws := levelOper_laws
  oper_skip := levelOper_skipBlanks
  opens_atom _ a p := Or.inr ⟨_, rfl⟩
  opens_unary _ u p := Or.inr ⟨_, rfl⟩
  opens_paren _ p := Or.inr ⟨_, rfl⟩
  closes_binary _ b p := Or.inr ⟨_, rfl⟩
  closes_paren _ p := Or.inr ⟨_, rfl⟩
  oper_own _ b p := levelOper_own b
  oper_tighter _ b p n := levelOper_tighter b n
  oper_close _ p n := levelOper_close p n
  apply_code b x y := rfl
  operand_atom _ a p hp := by
    rw [List.cons_append, parseExpUnair_blank]
    exact h a p hp.operandEnd
  operand_unary _ u p v q l hp h := parseExpUnair_unary env u hp h
  operand_paren _ _ p v q l h := by
    rw [List.cons_append, parseExpUnair_blank]
    exact parseExpUnair_paren env h

/-- The parser computes the value of a tree. -/
theorem eval_parserMeaning (e : ExprTree A) :
    (e.eval (parserMeaning atomValue)).1 = e.value atomValue := by
  unfold ExprTree.value
  induction e with
  | atom a => rfl
  | unary u e ih =>
    rw [Expr.eval, Expr.eval, ih]
    exact applyUnary_code u _
  | binary b l r ihl ihr =>
    rw [Expr.eval, Expr.eval, ihl, ihr]
    exact levelApply_code_fst b _ _

/-- The mark on the opposite of the smallest number is not kept. -/
theorem filter_oppositeReports (x : Aint) : (oppositeReports x).filter notOverflow = [] := by
  unfold oppositeReports
  split_ifs
  · decide
  · rfl

/-- Where a tree is defined, its errors are what is kept. -/
theorem filter_parserMeaning (e : ExprTree A) (he : e.Defined atomValue) :
    (e.eval (parserMeaning atomValue)).2.filter notOverflow = e.errors atomValue := by
  unfold ExprTree.errors
  -- by induction on the tree: the reports that are kept are those of the divisions by zero
  induction e with
  | atom a => rfl
  | unary u e ih =>
    have hreports : ((parserMeaning atomValue).unary u
        (e.eval (parserMeaning atomValue)).1).2.filter notOverflow = [] := by
      rw [show ((parserMeaning atomValue).unary u _).2 = _ from applyUnary_code_snd u _]
      split_ifs
      · exact filter_oppositeReports _
      · rfl
    rw [Expr.eval, Expr.eval, List.filter_append, ih he, hreports]
    rfl
  | binary b l r ihl ihr =>
    -- a defined tree has no shift and no division that would report anything else
    obtain ⟨hl, hr, hshift, hdiv⟩ := he
    have hreports : ((parserMeaning atomValue).binary b (l.eval (parserMeaning atomValue)).1
        (r.eval (parserMeaning atomValue)).1).2.filter notOverflow
        = if b.isDivision ∧ ExprTree.value atomValue r = 0 then [divisionByZero] else [] := by
      rw [eval_parserMeaning, eval_parserMeaning,
        show ((parserMeaning atomValue).binary b _ _).2 = _ from levelApply_code_snd b hshift hdiv]
      split_ifs
      · decide
      · exact filter_oppositeReports _
      · rfl
    rw [Expr.eval, Expr.eval, List.filter_append, List.filter_append, ihl hl, ihr hr, hreports]
    rfl

theorem tokens_ne_nil (e : ExprTree A) (n : Nat) : e.tokens BinaryOp.rank n ≠ [] := by
  cases e with
  | atom a => simp [Expr.tokens]
  | unary u e => simp [Expr.tokens]
  | binary b l r => simp only [Expr.tokens]; split_ifs <;> simp

theorem blank_intercalate (l : List Text) (h : l ≠ []) :
    ' ' :: List.intercalate [' '] l = l.flatMap (' ' :: ·) := by
  induction l with
  | nil => exact absurd rfl h
  | cons t l ih =>
    cases l with
    | nil => simp
    | cons u l =>
      rw [List.intercalate_cons_cons, List.flatMap_cons, ← ih (by simp)]
      simp

/-- **Round trip** over any atoms: the text of a defined tree is parsed to its end and to its value,
and apart from overflows of literals the divisions by zero are what is reported. -/
theorem parseExpressionEntry_text (h : AtomParses env notOverflow atomText atomValue) (e : ExprTree A)
    (he : e.Defined atomValue) :
    ∃ log, parseExpressionEntry env (e.text atomText) = ⟨some (e.value atomValue), [], log⟩ ∧
      log.filter notOverflow = e.errors atomValue := by
  have hderives := e.derives_tokens (grammar h).rank_lt () 11
  obtain ⟨log, hlog, hk⟩ := Grammar.parses_derives hderives [] (Or.inl rfl) fun m _ =>
    (levelOper_laws m).atEnd
  have htext : (grammar h).print ((e.tokens BinaryOp.rank 11).map ((), ·)) ++ []
      = ' ' :: e.text atomText := by
    rw [List.append_nil, ExprTree.text, blank_intercalate _ (by simp [tokens_ne_nil]),
      List.flatMap_map, Grammar.print, List.flatMap_map]
    rfl
  rw [show (grammar h).rank = BinaryOp.rank from rfl, htext, ← ladder_skipBlanks,
    skipBlanks_blank, ladder_skipBlanks,
    show (grammar h).meaning = parserMeaning atomValue from rfl, eval_parserMeaning] at hlog
  exact ⟨log, hlog, hk.trans (filter_parserMeaning e he)⟩

end Grammar

/-! ### Trees over numeric literals -/

/-- **Round trip of the expression grammar**: with relocation off, the text of every tree over
numeric literals whose operations are defined is consumed to its end and yields the tree's value,
and apart from overflows of literals exactly its divisions by zero are reported. -/
theorem parseExpression_literals (env : ExprEnv) (hoff : env.relocationType = .off)
    (flags : Relocation.Flags) (e : ExprTree LiteralAtom)
    (he : e.Defined fun lit => lit.value) :
    ∃ log, parseExpression env flags (e.text fun lit => lit.text)
        = (⟨some (e.value fun lit => lit.value), [], log⟩, flags) ∧
      log.filter notOverflow = e.errors fun lit => lit.value := by
  obtain ⟨log, hlog, hk⟩ :=
    parseExpressionEntry_text (atomParses_literal { env with areLabelsOffset := false }) e he
  refine ⟨log, ?_, hk⟩
  rw [parseExpression, if_pos hoff, hlog]

/-- `7 - (1 - 0x2'0) / 0`. -/
def exampleTree : ExprTree LiteralAtom :=
  .binary .sub (.atom ⟨⟨⟨.decimal, false, '7', [], by decide, by simp [LaterDigits.Valid],
      by decide⟩, by simp⟩, by simp⟩)
    (.binary .div
      (.binary .sub
        (.atom ⟨⟨⟨.decimal, false, '1', [], by decide, by simp [LaterDigits.Valid], by decide⟩,
          by simp⟩, by simp⟩)
        (.atom ⟨⟨⟨.hexZeroX, false, '2', [(some '\'', '0')], by decide,
          by simp [LaterDigits.Valid]; decide, by simp [LiteralForm.bare]⟩, by simp⟩, by simp⟩))
      (.atom ⟨⟨⟨.decimal, false, '0', [], by decide, by simp [LaterDigits.Valid], by decide⟩,
        by simp⟩, by simp⟩))

theorem parseExpression_literals_exampleTree :
    ∃ log, parseExpression .plain ⟨false, .off⟩ (exampleTree.text fun lit => lit.text)
        = (⟨some 7, [], log⟩, ⟨false, .off⟩) ∧
      log.filter notOverflow = [divisionByZero] :=
  parseExpression_literals .plain rfl ⟨false, .off⟩ exampleTree (by
    simp only [exampleTree, ExprTree.Defined]
    decide)

/-- `0b`. -/
def zeroB : DocumentedLiteral :=
  ⟨.binB, false, '0', [], by decide, by simp [LaterDigits.Valid], by decide⟩

/-- `0q`. -/
def zeroQ : DocumentedLiteral :=
  ⟨.octQ, false, '0', [], by decide, by simp [LaterDigits.Valid], by decide⟩

/-- `1_f'0h`. -/
def hexTemporary : DocumentedLiteral :=
  ⟨.hexH, false, '1', [(some '_', 'f'), (some '\'', '0')], by decide,
    by simp [LaterDigits.Valid]; decide, by decide⟩

/-- `0b` and `0q` are taken for a prefix without digits, `1_f'0h` for the temporary label `1_f`. -/
theorem parseExpression_ambiguousLiterals :
    (parseExpression .plain ⟨false, .off⟩
        (ExprTree.text DocumentedLiteral.text (.atom zeroB))).1.val ≠ some zeroB.value ∧
      (parseExpression .plain ⟨false, .off⟩
        (ExprTree.text DocumentedLiteral.text (.atom zeroQ))).1.val ≠ some zeroQ.value ∧
      (parseExpression .plain ⟨false, .off⟩
        (ExprTree.text DocumentedLiteral.text (.atom hexTemporary))).1.val
          ≠ some hexTemporary.value := by
  decide

end Sjasmplus
