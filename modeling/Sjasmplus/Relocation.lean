import Mathlib.Data.BitVec
import Mathlib.Data.Nat.Prime.Basic
import Mathlib.Tactic.Ring
import Sjasmplus.ExpressionAtoms

/-!
# The two-point relocation test (`relocate.cpp`, `ParseExpression`)

Inside a relocation block `ParseExpression` evaluates an expression with the relocatable labels as
they are and once more with all of them moved by `alternativeOffset`, and concludes from the two
values whether the result follows the load address.

Affine expressions are texts over literals, names of labels, signs, `+`, `-` and `*`, with any blanks
and parentheses, where one factor of every product contains no relocatable label.  Their value is a
constant plus a coefficient times the movement of the labels (`value_eq_add_mul`).  The alternative
offset of the regular mode is twice an odd number, so in 32-bit arithmetic the two values determine
the coefficient up to a multiple of `2 ^ 31` (`two_pow_dvd_of_dvd_mul`), and 16 bits do not see
that multiple: `parseExpression_affine` is the soundness of the test for every movement.
-/

namespace Sjasmplus

open Parsing ParseFn

/-! ### Modes and movements -/

namespace Relocation

/-- `ALTERNATIVE_OFFSET_WORD`. -/
def alternativeOffsetWord : Aint := 0x0272

/-- `ALTERNATIVE_OFFSET_HIGH`. -/
def alternativeOffsetHigh : Aint := 0x0300

end Relocation

/-- What a label of a class gains when the relocatable labels move by `d`. -/
def Relocation.EType.gain (d : Aint) : Relocation.EType → Aint
  | .regular => d
  | .off | .high => 0

def LabelEntry.move (d : Aint) (entry : LabelEntry) : LabelEntry :=
  { entry with value := entry.value + entry.isRelocatable.gain d }

def TemporaryLabel.move (d : Aint) (label : TemporaryLabel) : TemporaryLabel :=
  if label.isRelocatable then { label with value := label.value + d } else label

/-- All relocatable labels moved by `d`. -/
def LabelEnv.move (d : Aint) (env : LabelEnv) : LabelEnv :=
  { env with
    table := fun name => (env.table name).map (LabelEntry.move d)
    labels := env.labels.map (TemporaryLabel.move d)
    nextPassLabels := env.nextPassLabels.map (TemporaryLabel.move d) }

def ExprEnv.move (d : Aint) (env : ExprEnv) : ExprEnv := { env with labels := env.labels.move d }

theorem firstDefined_move (d : Aint) (env : LabelEnv) (names : List Text)
    (entry : Option LabelEntry) :
    firstDefined (env.move d).table names (entry.map (LabelEntry.move d))
      = (firstDefined env.table names entry).map (LabelEntry.move d) := by
  -- by induction on the names: moving keeps the pages, so that the same one is found
  induction names generalizing entry with
  | nil => rfl
  | cons name names ih =>
    have hmove : (env.move d).table name = (env.table name).map (LabelEntry.move d) := rfl
    rw [firstDefined, firstDefined, hmove]
    cases env.table name with
    | none => exact ih entry
    | some found =>
      simp only [Option.map_some]
      by_cases hpage : found.page ≠ labelPageUndefined
      · rw [if_pos hpage, if_pos (show (found.move d).page ≠ labelPageUndefined from hpage)]
        rfl
      · rw [if_neg hpage, if_neg (show ¬(found.move d).page ≠ labelPageUndefined from hpage)]
        exact ih (some found)

/-- The look-up finds the moved entry. -/
theorem labelEntry_move (d : Aint) (env : LabelEnv) (p : Text) :
    labelEntry (env.move d) p = (labelEntry env p).map (LabelEntry.move d) := by
  rw [labelEntry, labelEntry, Option.map_bind]
  congr 1
  funext fullName
  have h := firstDefined_move d env (searchNames env.scope p fullName) none
  show (firstDefined (env.move d).table (searchNames env.scope p fullName) none).filter _ = _
  rw [Option.map_none] at h
  rw [h, Function.comp_apply]
  cases firstDefined env.table (searchNames env.scope p fullName) none with
  | none => rfl
  | some entry =>
    by_cases hpage : entry.page = labelPageUndefined
    · simp [LabelEntry.move, hpage, Option.filter]
    · simp [LabelEntry.move, hpage, Option.filter]

/-! ### Affine expressions -/

inductive AffineUnary
  | plus | minus
deriving DecidableEq, Repr

inductive AffineBinary
  | add | sub | mul
deriving DecidableEq, Repr

def AffineUnary.char : AffineUnary → Char
  | plus => '+'
  | minus => '-'

def AffineBinary.char : AffineBinary → Char
  | add => '+'
  | sub => '-'
  | mul => '*'

/-- The level of the operator, as for `BinaryOp`. -/
def AffineBinary.rank : AffineBinary → Nat
  | mul => 0
  | add | sub => 1

/-- The name of an absolute or regularly relocatable label of the table. -/
structure FoundLabel (labels : LabelEnv) extends LabelName where
  entry : LabelEntry
  found : toLabelName.Found labels entry
  not_high : entry.isRelocatable ≠ .high

inductive AffineAtom (labels : LabelEnv)
  | literal (lit : LiteralAtom)
  | label (name : FoundLabel labels)

abbrev AffineTree (labels : LabelEnv) := Expr (AffineAtom labels) AffineUnary AffineBinary

/-- The blanks in front of a token, if any. -/
abbrev Blanks := {ws : Text // ∀ c ∈ ws, white c = true}

section Affine

variable {labels : LabelEnv}

def AffineAtom.text : AffineAtom labels → Text
  | literal lit => lit.text
  | label name => name.text

/-- The value of an atom when the relocatable labels move by `d`. -/
def AffineAtom.value (d : Aint) : AffineAtom labels → Aint
  | literal lit => lit.value
  | label name => name.entry.value + name.entry.isRelocatable.gain d

/-- The characters of a token with its blanks. -/
def affineText (ws : Blanks) : Token (AffineAtom labels) AffineUnary AffineBinary → Text
  | .openParen => ws.1 ++ ['(']
  | .closeParen => ws.1 ++ [')']
  | .atom a => ws.1 ++ a.text
  | .unary u => ws.1 ++ [u.char]
  | .binary b => ws.1 ++ [b.char]

/-- The operators in wrap-around arithmetic. -/
def affineMeaning (d : Aint) : Meaning (AffineAtom labels) AffineUnary AffineBinary Aint Event where
  atom := AffineAtom.value d
  unary
    | .plus, x => (x, [])
    | .minus, x => (-x, [])
  binary
    | .add, x, y => (x + y, [])
    | .sub, x, y => (x - y, [])
    | .mul, x, y => (x * y, [])

namespace AffineTree

/-- The text denotes the tree: its tokens with any blanks in front and any parentheses. -/
def IsText (e : AffineTree labels) (p : Text) : Prop :=
  ∃ ts : List (Blanks × Token (AffineAtom labels) AffineUnary AffineBinary),
    Derives AffineBinary.rank 11 11 ts e ∧ p = ts.flatMap fun t => affineText t.1 t.2

/-- The value of the tree when the relocatable labels move by `d`. -/
def value (d : Aint) (e : AffineTree labels) : Aint := (e.eval (affineMeaning d)).1

/-- The tree contains no relocatable label. -/
def IsAbsolute : AffineTree labels → Prop
  | .atom (.literal _) => True
  | .atom (.label name) => name.entry.isRelocatable = .off
  | .unary _ e => IsAbsolute e
  | .binary _ l r => IsAbsolute l ∧ IsAbsolute r

/-- One factor of every product contains no relocatable label. -/
def IsAffine : AffineTree labels → Prop
  | .atom _ => True
  | .unary _ e => IsAffine e
  | .binary b l r => IsAffine l ∧ IsAffine r ∧ (b = .mul → IsAbsolute l ∨ IsAbsolute r)

/-! ### The value is affine in the movement -/

/-- Without relocatable labels nothing moves. -/
theorem value_of_isAbsolute {e : AffineTree labels} (h : e.IsAbsolute) (d : Aint) :
    e.value d = e.value 0 := by
  -- by induction on the tree, none of whose labels moves
  induction e with
  | atom a =>
    cases a with
    | literal lit => rfl
    | label name =>
      have hoff : name.entry.isRelocatable = .off := h
      show name.entry.value + name.entry.isRelocatable.gain d
        = name.entry.value + name.entry.isRelocatable.gain 0
      rw [hoff]
      rfl
  | unary u e ih =>
    have ih := ih h
    cases u with
    | plus => exact ih
    | minus => exact congrArg (- ·) ih
  | binary b l r ihl ihr =>
    have hl := ihl h.1
    have hr := ihr h.2
    cases b with
    | add => exact congrArg₂ (· + ·) hl hr
    | sub => exact congrArg₂ (· - ·) hl hr
    | mul => exact congrArg₂ (· * ·) hl hr

/-- The value of an affine tree is a constant plus a coefficient times the movement. -/
theorem value_eq_add_mul {e : AffineTree labels} (h : e.IsAffine) :
    ∃ k : Aint, ∀ d, e.value d = e.value 0 + k * d := by
  -- by induction on the tree: one factor of a product is absolute
  induction e with
  | atom a =>
    cases a with
    | literal lit => exact ⟨0, fun d => by rw [zero_mul, add_zero]; rfl⟩
    | label name =>
      have hvalue : ∀ d, value d (.atom (.label name))
          = name.entry.value + name.entry.isRelocatable.gain d := fun _ => rfl
      rcases hr : name.entry.isRelocatable
      · exact ⟨0, fun d => by rw [hvalue, hvalue, hr, zero_mul, add_zero]; rfl⟩
      · exact ⟨1, fun d => by rw [hvalue, hvalue, hr]; simp [Relocation.EType.gain]⟩
      · exact absurd hr name.not_high
  | unary u e ih =>
    obtain ⟨k, hk⟩ := ih h
    cases u with
    | plus => exact ⟨k, hk⟩
    | minus =>
      refine ⟨-k, fun d => ?_⟩
      show -value d e = -value 0 e + -k * d
      rw [hk d]
      ring
  | binary b l r ihl ihr =>
    obtain ⟨kl, hl⟩ := ihl h.1
    obtain ⟨kr, hr⟩ := ihr h.2.1
    cases b with
    | add =>
      refine ⟨kl + kr, fun d => ?_⟩
      show value d l + value d r = value 0 l + value 0 r + (kl + kr) * d
      rw [hl d, hr d]
      ring
    | sub =>
      refine ⟨kl - kr, fun d => ?_⟩
      show value d l - value d r = value 0 l - value 0 r + (kl - kr) * d
      rw [hl d, hr d]
      ring
    | mul =>
      have hmul : ∀ d, value d (.binary .mul l r) = value d l * value d r := fun _ => rfl
      rcases h.2.2 rfl with habs | habs
      · refine ⟨value 0 l * kr, fun d => ?_⟩
        rw [hmul, hmul, value_of_isAbsolute habs d, hr d]
        ring
      · refine ⟨kl * value 0 r, fun d => ?_⟩
        rw [hmul, hmul, value_of_isAbsolute habs d, hl d]
        ring

end AffineTree

/-! ### Parsing affine texts -/

theorem operandEnd_of_white {c : Char} (h : white c = true) (p : Text) : OperandEnd (c :: p) := by
  refine ⟨?_, ?_, ?_⟩
  · rw [cur_cons, ← Bool.not_eq_true]
    exact fun hlab => absurd h (by rw [(not_white_of_islabchar hlab).2]; decide)
  · rintro rfl
    exact absurd h (by decide)
  · rintro rfl
    exact absurd h (by decide)

theorem operandEnd_blanks (ws : Blanks) {c : Char} (hc : c ∈ ['+', '-', '*', ')']) (p : Text) :
    OperandEnd (ws.1 ++ [c] ++ p) := by
  obtain ⟨ws, hws⟩ := ws
  cases ws with
  | nil => fin_cases hc <;> exact ⟨rfl, by simp, by simp⟩
  | cons b ws => exact operandEnd_of_white (hws b List.mem_cons_self) _

theorem levelOper_blanks (n : Nat) (ws : Blanks) (p : Text) :
    levelOper n (ws.1 ++ p) = levelOper n p := by
  rw [← levelOper_skipBlanks, skipBlanks_append ws.2, levelOper_skipBlanks]

theorem parseExpUnair_blanks (env : ExprEnv) (ws : Blanks) (p : Text) :
    parseExpUnair env (ws.1 ++ p) = parseExpUnair env p := by
  rw [← parseExpUnair_skipBlanks, skipBlanks_append ws.2, parseExpUnair_skipBlanks]

theorem AffineBinary.levelOper_own (b : AffineBinary) (p : Text) :
    levelOper b.rank (b.char :: p) = ⟨some (some b.char.toNat), p, []⟩ := by
  cases b <;> rfl

theorem AffineBinary.levelOper_tighter (b : AffineBinary) (p : Text) {n : Nat} (hn : n < b.rank) :
    levelOper n (b.char :: p) = ⟨some none, skipBlanks (b.char :: p), []⟩ := by
  cases b <;> simp only [AffineBinary.rank] at hn
  · obtain rfl : n = 0 := by omega
    rfl
  · obtain rfl : n = 0 := by omega
    rfl
  · omega

theorem levelOper_closeParen (n : Nat) (p : Text) :
    levelOper n (')' :: p) = ⟨some none, ')' :: p, []⟩ := by
  unfold levelOper
  split <;> rfl

/-- What the parser computes for the operators. -/
def affineParserMeaning (d : Aint) :
    Meaning (AffineAtom labels) AffineUnary AffineBinary Aint Event where
  atom := AffineAtom.value d
  unary u x := applyUnary u.char.toNat x
  binary b x y := levelApply b.rank b.char.toNat x y

/-- The parser computes the value of an affine tree. -/
theorem eval_affineParserMeaning (d : Aint) (e : AffineTree labels) :
    (e.eval (affineParserMeaning d)).1 = AffineTree.value d e := by
  unfold AffineTree.value
  -- by induction on the tree: the parser negates by the complement
  induction e with
  | atom a => rfl
  | unary u e ih =>
    rw [Expr.eval, Expr.eval, ih]
    cases u with
    | plus => rfl
    | minus => exact (BitVec.neg_eq_not_add _).symm
  | binary b l r ihl ihr =>
    rw [Expr.eval, Expr.eval, ihl, ihr]
    cases b with
    | add => rfl
    | sub => exact (sub_eq_add_neg _ _).symm
    | mul => rfl

/-- Affine texts are texts of a precedence grammar, with any blanks in front of every token. -/
def affineGrammar {env : ExprEnv} {d : Aint}
    (h : AtomParses env (fun _ => false) AffineAtom.text (@AffineAtom.value labels d)) :
    Grammar Blanks (AffineAtom labels) AffineUnary AffineBinary (parseExpUnair env) levelOper
      levelApply where
  rank := AffineBinary.rank
  top := 11
  text := affineText
  code b := b.char.toNat
  meaning := affineParserMeaning d
  skip := skipBlanks
  opens _ := True
  closes := OperandEnd
  keep _ := false
  rank_lt b := by cases b <;> decide
  top_pos := grammar_top_pos
  operand_neverGrows := parseExpUnair_neverGrows env
  oper_laws := levelOper_laws
  oper_skip := levelOper_skipBlanks
  opens_atom _ _ _ := trivial
  opens_unary _ _ _ := trivial
  opens_paren _ _ := trivial
  closes_binary ws b p := operandEnd_blanks ws (by cases b <;> decide) p
  closes_paren ws p := operandEnd_blanks ws (by decide) p
  oper_own ws b p _ := by
    rw [affineText, List.append_assoc, levelOper_blanks]
    exact b.levelOper_own p
  oper_tighter ws b p n _ hn := by
    rw [affineText, List.append_assoc, levelOper_blanks, skipBlanks_append ws.2]
    exact b.levelOper_tighter p hn
  oper_close ws p n := by
    rw [affineText, List.append_assoc, levelOper_blanks, skipBlanks_append ws.2]
    exact levelOper_closeParen n p
  apply_code _ _ _ := rfl
  operand_atom ws a p hp := by
    rw [affineText, List.append_assoc, parseExpUnair_blanks]
    exact h a p hp
  operand_unary ws u p v q log _ hlog := by
    rw [affineText, List.append_assoc, parseExpUnair_blanks, List.singleton_append,
      parseExpUnair_char env (by cases u <;> decide) hlog]
    rfl
  operand_paren ws ws' p v q log hlog := by
    rw [affineText, List.append_assoc, parseExpUnair_blanks]
    rw [affineText, List.append_assoc, skipBlanks_append ws'.2] at hlog
    exact parseExpUnair_paren env hlog

/-- What may stand behind an expression: nothing that continues it. -/
def ExpressionEnd (p : Text) : Prop :=
  OperandEnd p ∧ ∀ n < 11, levelOper n p = ⟨some none, skipBlanks p, []⟩

/-- The text of an affine tree is parsed to its end and to the tree's value. -/
theorem parseExpressionEntry_affine {env : ExprEnv} {d : Aint}
    (h : AtomParses env (fun _ => false) AffineAtom.text (@AffineAtom.value labels d))
    {e : AffineTree labels} {p : Text} (hp : AffineTree.IsText e p) {rest : Text}
    (hrest : ExpressionEnd rest) :
    ∃ log, parseExpressionEntry env (p ++ rest)
      = ⟨some (AffineTree.value d e), skipBlanks rest, log⟩ := by
  obtain ⟨ts, hts, rfl⟩ := hp
  obtain ⟨log, hlog, -⟩ :=
    Grammar.parses_derives (g := affineGrammar h) hts rest hrest.1 hrest.2
  rw [show (affineGrammar h).meaning = affineParserMeaning d from rfl,
    eval_affineParserMeaning] at hlog
  exact ⟨log, hlog⟩

/-- Atoms parse where the look-ups of all labels give their values moved by `d`. -/
theorem atomParses_affine {env : ExprEnv} {d : Aint}
    (h : ∀ name : FoundLabel labels, ∃ entry, name.Found env.labels entry ∧
      entry.value + labelOffset env entry.isRelocatable
        = name.entry.value + name.entry.isRelocatable.gain d) :
    AtomParses env (fun _ => false) AffineAtom.text (@AffineAtom.value labels d) := by
  intro a p hp
  cases a with
  | literal lit =>
    obtain ⟨l, hl, -⟩ := atomParses_literal env lit p hp
    exact ⟨l, hl, by simp⟩
  | label name =>
    obtain ⟨entry, hfound, hvalue⟩ := h name
    obtain ⟨l, hl⟩ := parseExpUnair_label env name.toLabelName hfound hp
    rw [hvalue] at hl
    exact ⟨l, hl, by simp⟩

end Affine

/-! ### Soundness of the test -/

theorem two_pow_dvd_of_dvd_mul {w j m k : ℕ} (hm : Odd m) (hj : j ≤ w)
    (h : 2 ^ w ∣ k * (m * 2 ^ j)) : 2 ^ (w - j) ∣ k := by
  have hpow : 2 ^ w = 2 ^ (w - j) * 2 ^ j := by rw [← pow_add, Nat.sub_add_cancel hj]
  rw [hpow, ← mul_assoc] at h
  have hkm : 2 ^ (w - j) ∣ k * m := Nat.dvd_of_mul_dvd_mul_right (Nat.two_pow_pos j) h
  exact (hm.coprime_two_left.pow_left _).dvd_of_dvd_mul_right hkm

/-- A coefficient that the alternative offset does not see is not seen in 16 bits. -/
theorem setWidth_mul_of_mul_eq_zero {k : Aint} (h : k * Relocation.alternativeOffsetWord = 0)
    (d : Aint) : (k * d).setWidth 16 = 0 := by
  have hdvd : 2 ^ 32 ∣ k.toNat * (313 * 2 ^ 1) := by
    have hnat := congrArg BitVec.toNat h
    rw [BitVec.toNat_mul] at hnat
    exact Nat.dvd_of_mod_eq_zero hnat
  have hk : 2 ^ 31 ∣ k.toNat := two_pow_dvd_of_dvd_mul (by decide) (by decide) hdvd
  have hkd : 2 ^ 16 ∣ k.toNat * d.toNat :=
    ((pow_dvd_pow 2 (by decide : 16 ≤ 31)).trans hk).mul_right _
  apply BitVec.eq_of_toNat_eq
  rw [BitVec.toNat_setWidth, BitVec.toNat_mul, Nat.mod_mod_of_dvd _ (pow_dvd_pow 2 (by decide))]
  exact Nat.mod_eq_zero_of_dvd hkd

section Soundness

variable (env : ExprEnv)

/-- The regular evaluation sees the labels where they are. -/
theorem atomParses_regular :
    AtomParses { env with areLabelsOffset := false } (fun _ => false) AffineAtom.text
      (@AffineAtom.value env.labels 0) :=
  atomParses_affine fun name => ⟨name.entry, name.found, by
    cases name.entry.isRelocatable <;> rfl⟩

/-- The alternative evaluation sees them moved by the alternative offset. -/
theorem atomParses_alternative :
    AtomParses { env with areLabelsOffset := true, synerr := false } (fun _ => false)
      AffineAtom.text (@AffineAtom.value env.labels env.alternativeOffset) :=
  atomParses_affine fun name => ⟨name.entry, name.found, by
    rcases hr : name.entry.isRelocatable
    · rfl
    · rfl
    · exact absurd hr name.not_high⟩

/-- The regular evaluation after the labels have moved. -/
theorem atomParses_moved (d : Aint) :
    AtomParses { env.move d with areLabelsOffset := false } (fun _ => false) AffineAtom.text
      (@AffineAtom.value env.labels d) := by
  refine atomParses_affine fun name => ⟨name.entry.move d, ?_, add_zero _⟩
  have hfound := name.found
  unfold LabelName.Found at hfound ⊢
  show labelEntry (env.labels.move d) _ = _
  rw [labelEntry_move, hfound]
  rfl

/-- What `parseExpression` makes of an affine text inside a relocation block. -/
theorem parseExpression_text (hon : env.relocationType ≠ .off) {e : AffineTree env.labels}
    {p : Text} (hp : AffineTree.IsText e p) {rest : Text} (hrest : ExpressionEnd rest)
    (flags : Relocation.Flags) :
    ∃ log, parseExpression env flags (p ++ rest)
      = (⟨some (AffineTree.value 0 e), skipBlanks rest, log⟩,
        ⟨flags.isResultAffected ||
            AffineTree.value env.alternativeOffset e ≠ AffineTree.value 0 e,
          relocationDelta env (AffineTree.value 0 e)
            (AffineTree.value env.alternativeOffset e)⟩) := by
  obtain ⟨log, hlog⟩ := parseExpressionEntry_affine (atomParses_regular env) hp hrest
  obtain ⟨logAlt, hlogAlt⟩ := parseExpressionEntry_affine (atomParses_alternative env) hp hrest
  exact ⟨logAlt ++ log, by rw [parseExpression, if_neg hon, hlog, hlogAlt]; rfl⟩

/-- The value after the relocatable labels have moved. -/
theorem parseExpression_move_val (hon : env.relocationType ≠ .off) {e : AffineTree env.labels}
    {p : Text} (hp : AffineTree.IsText e p) {rest : Text} (hrest : ExpressionEnd rest)
    (flags : Relocation.Flags) (d : Aint) :
    (parseExpression (env.move d) flags (p ++ rest)).1.val = some (AffineTree.value d e) := by
  obtain ⟨log, hlog⟩ := parseExpressionEntry_affine (atomParses_moved env d) hp hrest
  rw [parseExpression, if_neg (show (env.move d).relocationType ≠ .off from hon), hlog]
  rfl

/-- **Soundness of the two-point test**: an affine expression classified as not affected keeps its
low 16 bits under every movement of the relocatable labels, and one classified as regularly
relocatable moves with them. -/
theorem parseExpression_affine (hregular : env.relocationType = .regular)
    (hoffset : env.alternativeOffset = Relocation.alternativeOffsetWord)
    {e : AffineTree env.labels} (he : AffineTree.IsAffine e) {p : Text} (hp : AffineTree.IsText e p)
    {rest : Text} (hrest : ExpressionEnd rest) (flags : Relocation.Flags) (d : Aint) :
    ∃ v v' : Aint,
      (parseExpression env flags (p ++ rest)).1.val = some v ∧
      (parseExpression (env.move d) flags (p ++ rest)).1.val = some v' ∧
      ((parseExpression env flags (p ++ rest)).2.isResultAffected = false →
        v'.setWidth 16 = v.setWidth 16) ∧
      ((parseExpression env flags (p ++ rest)).2.deltaType = .regular →
        v'.setWidth 16 = v.setWidth 16 + d.setWidth 16) := by
  have hon : env.relocationType ≠ .off := by rw [hregular]; decide
  obtain ⟨log, hlog⟩ := parseExpression_text env hon hp hrest flags
  obtain ⟨k, hk⟩ := AffineTree.value_eq_add_mul he
  have halt : AffineTree.value env.alternativeOffset e
      = AffineTree.value 0 e + k * Relocation.alternativeOffsetWord := by rw [hk, hoffset]
  rw [hlog]
  refine ⟨_, _, rfl, parseExpression_move_val env hon hp hrest flags d, ?_, ?_⟩
  · -- the coefficient vanishes at the alternative offset
    intro hsame
    simp only [Bool.or_eq_false_iff, decide_eq_false_iff_not, not_not] at hsame
    have hzero : k * Relocation.alternativeOffsetWord = 0 := by
      have h := halt.symm.trans hsame.2
      exact add_eq_left.mp h
    rw [hk d, BitVec.setWidth_add _ _ (by decide), setWidth_mul_of_mul_eq_zero hzero, add_zero]
  · -- the coefficient minus one vanishes there
    intro hdelta
    have hdiff : env.alternativeOffset
        = AffineTree.value env.alternativeOffset e - AffineTree.value 0 e := by
      simp only [relocationDelta] at hdelta
      split_ifs at hdelta with h
      exact h
    have hzero : (k - 1) * Relocation.alternativeOffsetWord = 0 := by
      rw [halt, hoffset, add_sub_cancel_left] at hdiff
      rw [sub_mul, one_mul, sub_eq_zero]
      exact hdiff.symm
    have hsplit : k * d = (k - 1) * d + d := by ring
    rw [hk d, hsplit, BitVec.setWidth_add _ _ (by decide), BitVec.setWidth_add _ _ (by decide),
      setWidth_mul_of_mul_eq_zero hzero, zero_add]

end Soundness

/-- The label `rel` at `0x8000` inside a regular relocation block. -/
def exampleLabels : LabelEnv :=
  ⟨fun name => if name = ['r', 'e', 'l'] then some ⟨0x8000, 0x8000, 0, 0, 0, .regular⟩ else none,
    ⟨[], ['_'], none⟩, false, [], []⟩

def exampleLabel : FoundLabel exampleLabels :=
  ⟨⟨['r', 'e', 'l'], by decide, List.all_eq_true.mp rfl, by decide⟩,
    ⟨0x8000, 0x8000, 0, 0, 0, .regular⟩, by unfold LabelName.Found; decide, by decide⟩

/-- `2*rel-rel`. -/
def exampleAffine : AffineTree exampleLabels :=
  .binary .sub
    (.binary .mul
      (.atom (.literal ⟨⟨⟨.decimal, false, '2', [], by decide, valid_nil, by decide⟩, by simp⟩,
        not_temporary_nil⟩))
      (.atom (.label exampleLabel)))
    (.atom (.label exampleLabel))

def noBlanks : Blanks := ⟨[], by simp⟩

theorem exampleAffine_isText :
    AffineTree.IsText exampleAffine ['2', '*', 'r', 'e', 'l', '-', 'r', 'e', 'l'] := by
  have h : Derives AffineBinary.rank 11 11 _ exampleAffine :=
    .binary noBlanks AffineBinary.sub (by decide)
      (.binary noBlanks AffineBinary.mul (by decide) (.atom _ noBlanks _) (.atom _ noBlanks _))
      (.atom _ noBlanks _)
  exact ⟨_, h, rfl⟩

def exampleRelocation : ExprEnv :=
  { ExprEnv.plain with
    labels := exampleLabels
    relocationType := .regular
    alternativeOffset := Relocation.alternativeOffsetWord }

theorem parseExpression_exampleAffine :
    ∃ v v' : Aint,
      (parseExpression exampleRelocation ⟨false, .off⟩
        ['2', '*', 'r', 'e', 'l', '-', 'r', 'e', 'l']).1.val = some v ∧
      (parseExpression (exampleRelocation.move 0x1234) ⟨false, .off⟩
        ['2', '*', 'r', 'e', 'l', '-', 'r', 'e', 'l']).1.val = some v' ∧
      v'.setWidth 16 = v.setWidth 16 + (0x1234 : Aint).setWidth 16 := by
  obtain ⟨v, v', hv, hv', -, hdelta⟩ :=
    parseExpression_affine exampleRelocation rfl rfl (e := exampleAffine)
      ⟨⟨trivial, trivial, fun _ => Or.inl trivial⟩, trivial, fun h => absurd h (by decide)⟩
      exampleAffine_isText
      (show ExpressionEnd [] from
        ⟨⟨rfl, by decide, by decide⟩, fun n _ => (levelOper_laws n).atEnd⟩)
      ⟨false, .off⟩ 0x1234
  exact ⟨v, v', hv, hv', hdelta (by decide)⟩

end Sjasmplus
