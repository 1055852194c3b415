import Sjasmplus.ExpressionAtoms
import Sjasmplus.Lib.Brackets

/-!
# Memory operands (`ParseExpressionMemAccess` in `parser.cpp`)

An operand in round parentheses is memory when the parentheses enclose the whole expression.  The source
looks for the end of the parentheses in a scan of its own, `parenthesesEnd`, which counts the parentheses
inside string literals too, and compares it with the end of the expression.

* `parseExpressionMemAccess_detects_iff` — the operand is classified as documented exactly when the count
  of all parentheses agrees with the expression.
-/

namespace Sjasmplus

open Parsing ParseFn

/-! ### Brackets -/

/-- `EBracketType`. -/
inductive EBracketType
  | none | round | curly | square
deriving DecidableEq, Repr

/-- `OpenBracket`: the bracket, and the text behind it. -/
def openBracket (memoryBrackets : Nat) (lp : Text) : EBracketType × Text :=
  let p := skipBlanks lp
  if memoryBrackets = 2 ∧ cur p = '(' then (.none, p)
  else if cur p = '(' then (.round, p.tail)
  else if cur p = '[' then (.square, p.tail)
  else (.none, p)

/-- `ParenthesesEnd`. -/
def parenthesesEnd (p : Text) : Option Text :=
  if cur (skipBlanks p) ≠ '(' then none
  else (Brackets.scan '(' ')' 0 (skipBlanks p)).map skipBlanks

/-- `ParseExpressionMemAccess`: its result, the value with the text behind the operand, and the
relocation flags. -/
def parseExpressionMemAccess (memoryBrackets : Nat) (env : ExprEnv) (flags : Relocation.Flags)
    (lp : Text) : Nat × Outcome Char Event Aint × Relocation.Flags :=
  let (bt, p) := openBracket memoryBrackets lp
  -- a round parenthesis belongs to the expression
  let p := if bt = .round then skipBlanks lp else p
  let expectedEndBracket := if bt = .round then parenthesesEnd p else none
  let (o, flags) := parseExpression env flags p
  if o.val = none then (0, o, flags)
  else
    match bt with
    | .none => (1, o, flags)
    -- both are places of one text, so they are the same when the texts ahead are
    | .round => (if expectedEndBracket = some o.rest then 2 else 1, o, flags)
    | .curly | .square =>
      let closed := need ']' o.rest
      (if closed.val = some true then 2 else 0, ⟨o.val, closed.rest, o.log⟩, flags)

/-! ### The scan -/

/-- The scan finds the parenthesis behind a balanced text, and skips the blanks behind it. -/
theorem parenthesesEnd_eq_some {p q : Text} :
    parenthesesEnd ('(' :: p) = some q ↔
      ∃ u r, p = u ++ ')' :: r ∧ Brackets.Balanced '(' ')' u ∧ skipBlanks r = q := by
  have hend : parenthesesEnd ('(' :: p) = (Brackets.scan '(' ')' 1 p).map skipBlanks := rfl
  rw [hend, Option.map_eq_some_iff]
  constructor
  · rintro ⟨r, hr, hq⟩
    obtain ⟨u, hu, hbalanced⟩ := (Brackets.scan_one_eq_some (by decide)).mp hr
    exact ⟨u, r, hu, hbalanced, hq⟩
  · rintro ⟨u, r, hu, hbalanced, hq⟩
    exact ⟨r, (Brackets.scan_one_eq_some (by decide)).mpr ⟨u, hu, hbalanced⟩, hq⟩

/-! ### Groups -/

/-- The parser reads the text in front of a closing parenthesis as an expression. -/
structure IsGroup (env : ExprEnv) (group rest : Text) : Prop where
  val : (parseExpressionEntry env (group ++ ')' :: rest)).val ≠ none
  rest : skipBlanks (parseExpressionEntry env (group ++ ')' :: rest)).rest = ')' :: rest

/-- The whole expression of the text is one pair of round parentheses with what it encloses. -/
def Enclosed (env : ExprEnv) (p : Text) : Prop :=
  ∃ group rest, p = '(' :: group ++ ')' :: rest ∧ IsGroup env group rest ∧
    (parseExpressionEntry env p).rest = skipBlanks rest

/-- A parenthesis that is needed is found behind blanks. -/
theorem need_eq_true {c : Char} (hc : c ≠ '\x00') {p : Text} :
    (need c p).val = some true ↔ ∃ q, skipBlanks p = c :: q := by
  simp only [need, scan_apply, Option.some.injEq]
  rcases hskip : skipBlanks p with _ | ⟨d, q⟩
  · simp [Ne.symm hc]
  · by_cases h : d = c <;> simp [h]

/-- An expression that starts with a parenthesis starts with a group. -/
theorem exists_isGroup {env : ExprEnv} {p : Text}
    (h : (parseExpressionEntry env ('(' :: p)).val ≠ none) :
    ∃ group rest, p = group ++ ')' :: rest ∧ IsGroup env group rest := by
  have hunair : (parseExpUnair env ('(' :: p)).val ≠ none := by
    rw [parseExpressionEntry, parseExpLogOr_eq_ladder] at h
    exact ladder_operand h
  rw [parseExpUnair_openParen, parseExpPrim,
    bind_silent (show blanks ('(' :: p) = ⟨some (), '(' :: p, []⟩ from rfl),
    bind_silent (peek_apply _), cur_cons, if_neg (by decide), if_pos rfl,
    bind_silent (skip_apply 1 _), List.drop_one, List.tail_cons,
    bind_some (attempt_apply (parseExpressionEntry env) p), bind_apply] at hunair
  -- without the closing parenthesis, or without a value between them, the operand fails
  have hval : (parseExpressionEntry env p).val ≠ none := by
    intro hnone
    refine hunair ?_
    simp only [need, scan_apply, hnone, andThen_some]
    split_ifs <;> rfl
  have hclosed : (need ')' (parseExpressionEntry env p).rest).val = some true := by
    by_contra hopen
    refine hunair ?_
    simp only [need, scan_apply, Option.some.injEq, andThen_some] at hopen ⊢
    rw [Bool.not_eq_true] at hopen
    rw [hopen]
    rfl
  obtain ⟨rest, hrest⟩ := (need_eq_true (by decide)).mp hclosed
  obtain ⟨group, hgroup⟩ :=
    (skipBlanks_suffix _).trans (parseExpressionEntry_advances env p)
  rw [hrest] at hgroup
  refine ⟨group, rest, hgroup.symm, ?_, ?_⟩
  · rw [hgroup]
    exact hval
  · rw [hgroup]
    exact hrest

/-- Blanks end in front of a parenthesis. -/
theorem length_lt_skipBlanks (u r : Text) : r.length < (skipBlanks (u ++ ')' :: r)).length := by
  induction u with
  | nil => exact Nat.lt_succ_self _
  | cons c u ih =>
    rw [List.cons_append, skipBlanks, List.dropWhile_cons]
    split_ifs
    · exact ih
    · simp only [List.length_cons, List.length_append]
      omega

/-- Two ends of one text, each behind a parenthesis, that start alike behind their blanks. -/
theorem eq_of_skipBlanks_eq {u u' r r' : Text} (h : u ++ ')' :: r = u' ++ ')' :: r')
    (hskip : skipBlanks r = skipBlanks r') : u = u' ∧ r = r' := by
  -- one end cannot lie in front of the other one: its blanks end at the parenthesis between them
  have hfront : ∀ {v r r' : Text}, ')' :: r = v ++ ')' :: r' → skipBlanks r = skipBlanks r' →
      v = [] := by
    intro v r r' hv hskip
    rcases v with _ | ⟨c, v⟩
    · rfl
    · obtain ⟨-, rfl⟩ := List.cons.inj hv
      have hlt : r'.length < (skipBlanks r').length := hskip ▸ length_lt_skipBlanks v r'
      exact absurd (length_skipBlanks_le r') (Nat.not_le.mpr hlt)
  rcases List.append_eq_append_iff.mp h with ⟨v, hu, hr⟩ | ⟨v, hu, hr⟩
  · obtain rfl := hfront hr hskip
    exact ⟨(hu.trans (List.append_nil u)).symm, (List.cons.inj hr).2⟩
  · obtain rfl := hfront hr hskip.symm
    exact ⟨hu.trans (List.append_nil u'), (List.cons.inj hr).2.symm⟩

/-! ### Whole operands -/

theorem parseExpression_val (env : ExprEnv) (flags : Relocation.Flags) (p : Text) :
    (parseExpression env flags p).1.val
      = (parseExpressionEntry { env with areLabelsOffset := false } p).val := by
  unfold parseExpression
  dsimp only
  split_ifs <;> rfl

theorem parseExpression_rest (env : ExprEnv) (flags : Relocation.Flags) (p : Text) :
    (parseExpression env flags p).1.rest
      = (parseExpressionEntry { env with areLabelsOffset := false } p).rest := by
  unfold parseExpression
  dsimp only
  split_ifs <;> rfl

/-- What the result promises on an operand that starts with a round parenthesis. -/
structure DetectsMemory (memoryBrackets : Nat) (env : ExprEnv) (flags : Relocation.Flags)
    (lp : Text) : Prop where
  syntaxError : (parseExpression env flags (skipBlanks lp)).1.val = none →
    (parseExpressionMemAccess memoryBrackets env flags lp).1 = 0
  memory : (parseExpression env flags (skipBlanks lp)).1.val ≠ none →
    Enclosed { env with areLabelsOffset := false } (skipBlanks lp) →
      (parseExpressionMemAccess memoryBrackets env flags lp).1 = 2
  value : (parseExpression env flags (skipBlanks lp)).1.val ≠ none →
    ¬Enclosed { env with areLabelsOffset := false } (skipBlanks lp) →
      (parseExpressionMemAccess memoryBrackets env flags lp).1 = 1

/-- The count of all parentheses of the text agrees with the expression.  Where the expression ends with
the group that it starts with, the parentheses inside that group are balanced, those in literals included.
Where it goes on, no balanced text that starts with the first parenthesis ends where the expression does. -/
def CountAgrees (env : ExprEnv) (p : Text) : Prop :=
  ∀ group rest, p = '(' :: group ++ ')' :: rest → IsGroup env group rest →
    if (parseExpressionEntry env p).rest = skipBlanks rest then Brackets.Balanced '(' ')' group
    else ∀ u r, p = '(' :: u ++ ')' :: r → Brackets.Balanced '(' ')' u →
      skipBlanks r ≠ (parseExpressionEntry env p).rest

/-- The result behind a round parenthesis. -/
theorem parseExpressionMemAccess_round {memoryBrackets : Nat} (hmode : memoryBrackets ≠ 2)
    (env : ExprEnv) (flags : Relocation.Flags) {lp : Text} (hround : cur (skipBlanks lp) = '(') :
    (parseExpressionMemAccess memoryBrackets env flags lp).1 =
      if (parseExpression env flags (skipBlanks lp)).1.val = none then 0
      else if parenthesesEnd (skipBlanks lp) = some (parseExpression env flags (skipBlanks lp)).1.rest
      then 2 else 1 := by
  have hopen : openBracket memoryBrackets lp = (.round, (skipBlanks lp).tail) := by
    simp only [openBracket, hmode, false_and, if_false, hround, if_true]
  rw [parseExpressionMemAccess, hopen]
  dsimp only
  rw [if_pos rfl, if_pos rfl]
  split_ifs <;> rfl

/-- A text starts with one group only. -/
theorem IsGroup.unique {env : ExprEnv} {group rest group' rest' : Text} (h : IsGroup env group rest)
    (h' : IsGroup env group' rest') (htext : group ++ ')' :: rest = group' ++ ')' :: rest') :
    group = group' ∧ rest = rest' := by
  have hrest := h.rest
  rw [htext, h'.rest] at hrest
  obtain rfl : rest' = rest := (List.cons.inj hrest).2
  exact ⟨List.append_cancel_right htext, rfl⟩

/-- The scan ends with the expression exactly for an expression that is one group, when and only when the
count agrees. -/
theorem parenthesesEnd_iff_enclosed_iff {env : ExprEnv} {p : Text}
    (hval : (parseExpressionEntry env ('(' :: p)).val ≠ none) :
    (parenthesesEnd ('(' :: p) = some (parseExpressionEntry env ('(' :: p)).rest ↔
        Enclosed env ('(' :: p)) ↔ CountAgrees env ('(' :: p) := by
  -- an expression that starts with a parenthesis has its group, and only one
  obtain ⟨group, rest, rfl, hgroup⟩ := exists_isGroup hval
  have hunique : ∀ {group' rest' : Text},
      '(' :: (group ++ ')' :: rest) = '(' :: group' ++ ')' :: rest' → IsGroup env group' rest' →
        group = group' ∧ rest = rest' := fun htext h' => hgroup.unique h' (List.cons.inj htext).2
  rw [parenthesesEnd_eq_some]
  generalize he : (parseExpressionEntry env ('(' :: (group ++ ')' :: rest))).rest = e
  -- the expression is the group exactly where it ends behind it
  have henclosed : Enclosed env ('(' :: (group ++ ')' :: rest)) ↔ e = skipBlanks rest := by
    rw [Enclosed, he]
    constructor
    · rintro ⟨group', rest', htext, h', hend⟩
      rw [(hunique htext h').2]
      exact hend
    · exact fun hend => ⟨group, rest, rfl, hgroup, hend⟩
  have hcount : CountAgrees env ('(' :: (group ++ ')' :: rest)) ↔
      if e = skipBlanks rest then Brackets.Balanced '(' ')' group
      else ∀ u r, group ++ ')' :: rest = u ++ ')' :: r → Brackets.Balanced '(' ')' u →
        skipBlanks r ≠ e := by
    rw [CountAgrees, he]
    simp only [List.cons_append, List.cons.injEq, true_and]
    constructor
    · exact fun h => h group rest rfl hgroup
    · intro h group' rest' htext h'
      obtain ⟨rfl, rfl⟩ := hgroup.unique h' htext
      exact h
  rw [henclosed, hcount]
  -- at the end the group has to be balanced; elsewhere no balanced text may end there
  split_ifs with hend
  · rw [iff_true_right hend]
    constructor
    · rintro ⟨u, r, htext, hbalanced, hr⟩
      rw [(eq_of_skipBlanks_eq htext (hend.symm.trans hr.symm)).1]
      exact hbalanced
    · exact fun hbalanced => ⟨group, rest, rfl, hbalanced, hend.symm⟩
  · rw [iff_false_right hend]
    constructor
    · exact fun h u r htext hbalanced hr => h ⟨u, r, htext, hbalanced, hr⟩
    · exact fun h ⟨u, r, htext, hbalanced, hr⟩ => h u r htext hbalanced hr

/-- The classification is as documented exactly when the operand is no expression or the count of its
parentheses agrees with it. -/
theorem parseExpressionMemAccess_detects_iff (memoryBrackets : Nat) (env : ExprEnv)
    (flags : Relocation.Flags) (lp : Text) (hmode : memoryBrackets ≠ 2)
    (hround : cur (skipBlanks lp) = '(') :
    DetectsMemory memoryBrackets env flags lp ↔
      ((parseExpressionEntry { env with areLabelsOffset := false } (skipBlanks lp)).val ≠ none →
        CountAgrees { env with areLabelsOffset := false } (skipBlanks lp)) := by
  have hresult := parseExpressionMemAccess_round hmode env flags hround
  obtain ⟨p, hp⟩ : ∃ p, skipBlanks lp = '(' :: p := by
    rcases hskip : skipBlanks lp with _ | ⟨c, p⟩
    · rw [hskip] at hround
      exact absurd hround (by decide)
    · rw [hskip, cur_cons] at hround
      exact ⟨p, by rw [hround]⟩
  -- the result is memory exactly where the scan ends with the expression
  have hdetects : DetectsMemory memoryBrackets env flags lp ↔
      ((parseExpressionEntry { env with areLabelsOffset := false } (skipBlanks lp)).val ≠ none →
        (parenthesesEnd (skipBlanks lp) = some
            (parseExpressionEntry { env with areLabelsOffset := false } (skipBlanks lp)).rest ↔
          Enclosed { env with areLabelsOffset := false } (skipBlanks lp))) := by
    rw [parseExpression_val, parseExpression_rest] at hresult
    constructor
    · intro h hval
      have hmemory := h.memory (by rwa [parseExpression_val])
      have hvalue := h.value (by rwa [parseExpression_val])
      rw [hresult, if_neg hval] at hmemory hvalue
      constructor
      · intro hend
        by_contra hopen
        rw [if_pos hend] at hvalue
        exact absurd (hvalue hopen) (by decide)
      · intro henclosed
        by_contra hend
        rw [if_neg hend] at hmemory
        exact absurd (hmemory henclosed) (by decide)
    · intro h
      refine ⟨fun hnone => ?_, fun hval henclosed => ?_, fun hval hopen => ?_⟩
      · rw [parseExpression_val] at hnone
        rw [hresult, if_pos hnone]
      · rw [parseExpression_val] at hval
        rw [hresult, if_neg hval, if_pos ((h hval).mpr henclosed)]
      · rw [parseExpression_val] at hval
        rw [hresult, if_neg hval, if_neg (mt (h hval).mp hopen)]
  rw [hdetects, hp]
  exact forall_congr' fun hval => parenthesesEnd_iff_enclosed_iff hval

/-- `(1)` is a group, and the count agrees with it. -/
theorem parseExpressionMemAccess_detects_one :
    cur (skipBlanks ['(', '1', ')']) = '(' ∧
      (DetectsMemory 0 .plain ⟨false, .off⟩ ['(', '1', ')'] ↔
        ((parseExpressionEntry { ExprEnv.plain with areLabelsOffset := false }
            (skipBlanks ['(', '1', ')'])).val ≠ none →
          CountAgrees { ExprEnv.plain with areLabelsOffset := false } (skipBlanks ['(', '1', ')']))) :=
  ⟨by decide, parseExpressionMemAccess_detects_iff 0 .plain ⟨false, .off⟩ ['(', '1', ')'] (by decide)
    (by decide)⟩

/-- The operand `(')')` is one group around a literal, and it is taken for a value. -/
theorem not_detectsMemory : ¬∀ (memoryBrackets : Nat) (env : ExprEnv) (flags : Relocation.Flags)
    (lp : Text), memoryBrackets ≠ 2 → cur (skipBlanks lp) = '(' →
      DetectsMemory memoryBrackets env flags lp := by
  intro h
  have hmemory := (h 0 .plain ⟨false, .off⟩ ['(', '\'', ')', '\'', ')'] (by decide) (by decide)).memory
    (by decide) ⟨['\'', ')', '\''], [], rfl, ⟨by decide, by decide⟩, by decide⟩
  exact absurd hmemory (by decide)

end Sjasmplus
