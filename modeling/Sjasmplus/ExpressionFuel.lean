import Sjasmplus.Expression

/-!
# The expression parser terminates

Every parse function of the expression parser moves the cursor only forward, and every recursive call
happens behind a character that was consumed.  So the length of the text is enough fuel:
`parseExpUnair_eq` is the equation of the source, in which the fuel no longer appears.
-/

namespace Sjasmplus

open Parsing ParseFn

/-! ### Tokens -/

/-- `SkipBlanks` drops characters from the front. -/
theorem blanks_advances : Advances blanks := Advances.scan skipBlanks_suffix

/-- `need` drops blanks, and the character when it is there. -/
theorem need_advances (c : Char) : Advances (need c) := by
  refine Advances.scan fun p => ?_
  split_ifs
  · exact (List.tail_suffix _).trans (skipBlanks_suffix p)
  · exact skipBlanks_suffix p

/-- `cmphstr` drops the keyword or nothing. -/
theorem keyword_advances (kw : List Char) (a : Bool) : Advances (keyword kw a) := by
  refine Advances.scan fun p => ?_
  split
  · exact cmphstr_suffix ‹_›
  · exact List.suffix_refl p

/-- A token found by `need` is consumed. -/
theorem length_need_lt {c : Char} (hc : c ≠ '\x00') {p : Text}
    (h : (need c p).val = some true) : (need c p).rest.length < p.length := by
  have hp := length_skipBlanks_le p
  simp only [need, scan_apply, Option.some.injEq] at h ⊢
  split_ifs at h ⊢ with hcur
  cases hq : skipBlanks p with
  | nil => rw [hq, cur_nil] at hcur; exact absurd hcur.symm hc
  | cons d q =>
    rw [hq, List.length_cons] at hp
    exact hp

/-! ### Operators -/

/-- An operator table drops blanks and an operator, a symbol or a word. -/
theorem needOper_suffix (table : List (Char × Char)) (kws : List (List Char × Nat)) (p : Text) :
    (needOper table kws p).2 <:+ p := by
  have htable := (needTable_suffix table (skipBlanks p)).trans (skipBlanks_suffix p)
  unfold needOper
  dsimp only
  split_ifs
  · exact htable
  · exact (needa_suffix _ _ _).trans htable

/-- An operator that is found is consumed. -/
theorem length_needOper_lt {table : List (Char × Char)} {kws : List (List Char × Nat)}
    (htable : ∀ ab ∈ table, ab.1 ≠ '\x00') (hkws : ∀ kw ∈ kws, kw.1 ≠ []) {p : Text}
    (h : (needOper table kws p).1 ≠ 0) : (needOper table kws p).2.length < p.length := by
  have hp := length_skipBlanks_le p
  have hle := (needTable_suffix table (skipBlanks p)).length_le
  unfold needOper at h ⊢
  dsimp only at h ⊢
  split_ifs at h ⊢ with hoper
  · exact Nat.lt_of_lt_of_le (length_needTable_lt htable hoper) hp
  · exact Nat.lt_of_lt_of_le (length_needa_lt hkws h) (Nat.le_trans hle hp)

/-- At the end of the text a table finds nothing: no symbol starts with the end of the text. -/
theorem needTable_nil {table : List (Char × Char)} (htable : ∀ ab ∈ table, ab.1 ≠ '\x00') :
    needTable table [] = (0, []) := by
  induction table with
  | nil => rfl
  | cons ab table ih =>
    have hab := htable ab List.mem_cons_self
    rw [needTable, cur_nil, if_pos (Ne.symm hab)]
    exact ih fun x hx => htable x (List.mem_cons_of_mem _ hx)

theorem needa_nil (kws : List (List Char × Nat)) (a : Bool) : needa [] kws a = (0, []) := by
  cases kws <;> rfl

/-- The laws of operator matching hold for every operator table of the expression levels. -/
theorem operLaws_operOption {f : Text → Nat × Text} (hsuffix : ∀ p, (f p).2 <:+ p)
    (hlt : ∀ p, (f p).1 ≠ 0 → (f p).2.length < p.length) (hend : f [] = (0, [])) :
    OperLaws (operOption f) where
  neverGrows p := (hsuffix p).length_le
  consumes := by
    intro p q o l h
    simp only [operOption, scan_apply, Outcome.mk.injEq, Option.some.injEq] at h
    obtain ⟨ho, rfl, -⟩ := h
    exact hlt p fun h0 => by rw [if_pos h0] at ho; exact absurd ho (by simp)
  atEnd := by rw [operOption, scan_apply, hend]; rfl

theorem operLaws_needOper {table : List (Char × Char)} {kws : List (List Char × Nat)}
    (htable : ∀ ab ∈ table, ab.1 ≠ '\x00') (hkws : ∀ kw ∈ kws, kw.1 ≠ []) :
    OperLaws (operOption (needOper table kws)) := by
  refine operLaws_operOption (needOper_suffix _ _) (fun p => length_needOper_lt htable hkws) ?_
  rw [needOper, skipBlanks_nil, needTable_nil htable]
  exact needa_nil kws true

theorem shiftOper_suffix (p : Text) : (shiftOper p).2 <:+ p := by
  have hsuffix := needOper_suffix [('<', '<'), ('>', '>')] [(['s', 'h', 'l'], '<'.toNat + '<'.toNat),
    (['s', 'h', 'r'], '>'.toNat + '>'.toNat)] p
  unfold shiftOper
  dsimp only
  split_ifs
  · exact (List.tail_suffix _).trans hsuffix
  · exact hsuffix

/-- `>>>` takes one character more than the table. -/
theorem shiftOper_laws : OperLaws (operOption shiftOper) := by
  have htable : ∀ ab ∈ [('<', '<'), ('>', '>')], ab.1 ≠ '\x00' := by decide
  have hkws : ∀ kw ∈ [(['s', 'h', 'l'], '<'.toNat + '<'.toNat),
      (['s', 'h', 'r'], '>'.toNat + '>'.toNat)], kw.1 ≠ [] := by decide
  refine operLaws_operOption shiftOper_suffix (fun p h => ?_) (by decide)
  unfold shiftOper at h ⊢
  dsimp only at h ⊢
  split_ifs at h ⊢ with hoper
  · refine Nat.lt_of_le_of_lt (List.length_tail ▸ Nat.sub_le _ _)
      (length_needOper_lt htable hkws ?_)
    rw [hoper.1]
    decide
  · exact length_needOper_lt htable hkws h

/-- Every level finds its operators by these laws. -/
theorem levelOper_laws (n : Nat) : OperLaws (levelOper n) := by
  unfold levelOper
  split
  case h_3 => exact shiftOper_laws
  all_goals exact operLaws_needOper (by decide) (by decide)

theorem levelOper_advances (n : Nat) : Advances (levelOper n) := by
  unfold levelOper
  split
  case h_3 => exact Advances.scan shiftOper_suffix
  all_goals exact Advances.scan (needOper_suffix _ _)

theorem unaryOper_advances : Advances (operOption unaryOper) := Advances.scan (needOper_suffix _ _)

theorem unaryOper_laws : OperLaws (operOption unaryOper) :=
  operLaws_needOper (by decide) (by decide)

/-! ### Literals and labels -/

/-- The end of a literal is behind its start. -/
theorem literalEnd_suffix (p : Text) : literalEnd p <:+ p := by
  induction p with
  | nil => exact List.suffix_refl _
  | cons c p ih =>
    rw [literalEnd]
    split_ifs
    · exact ih.trans (List.suffix_cons c p)
    · exact List.suffix_refl _

theorem processLastError_rest (err : Option NumericError) (srcLine p : Text) :
    (processLastError err srcLine p).rest = p := by
  cases err with
  | none => rfl
  | some e => cases e <;> rfl

theorem skipDecimalPart_rest {hardEnd p : Text} (h : hardEnd <:+ p) (op : Text) (base : NumberBase) :
    (skipDecimalPart op hardEnd base p).rest <:+ p := by
  have hend : literalEnd hardEnd.tail <:+ p :=
    (literalEnd_suffix _).trans ((List.tail_suffix _).trans h)
  unfold skipDecimalPart
  dsimp only
  split_ifs
  · exact Advances.rest_bind (List.suffix_refl p) fun _ => hend
  · exact Advances.rest_bind (List.suffix_refl p) fun _ => hend
  · refine Advances.rest_bind ?_ fun _ => ?_
    · rw [processLastError_rest]
    · rw [processLastError_rest, fail_apply]

/-- A literal is read up to its end or not at all. -/
theorem getConstant_advances : Advances getConstant := by
  intro op
  -- the end of the literal is behind its prefix
  have hend : literalEnd (if cur op = '#' ∨ cur op = '$' ∨ cur op = '%' then op.tail else op)
      <:+ op := by
    refine (literalEnd_suffix _).trans ?_
    -- without a decimal part the end of the digits is the end; with one, the rest of it is skipped
    split_ifs
    · exact List.tail_suffix op
    · exact List.suffix_refl op
  rw [getConstant, bind_silent (peek_apply op)]
  dsimp only
  generalize literalEnd _ = hardEnd at hend ⊢
  split
  · exact Advances.rest_bind (List.suffix_refl op) fun _ => List.suffix_refl op
  · refine Advances.rest_bind (by rw [processLastError_rest]) fun _ => ?_
    rw [processLastError_rest]
    split
    · exact Advances.rest_bind (skipDecimalPart_rest hend _ _) fun _ =>
        skipDecimalPart_rest hend _ _
    · exact Advances.rest_bind hend fun _ => hend

/-- A label is read up to its last character. -/
theorem searchLabel_advances (env : LabelEnv) : Advances (searchLabel env) := by
  refine Advances.bind Advances.peek fun p => Advances.bind (Advances.report _) fun _ => ?_
  split
  · exact Advances.pure _
  · exact Advances.bind (Advances.scan fun p => List.dropWhile_suffix _) fun _ =>
      Advances.pure _

theorem getLabel_advances (env : LabelEnv) : Advances (getLabel env) := by
  refine Advances.bind (searchLabel_advances env) fun found => ?_
  rcases found with _ | ⟨entry, findName⟩
  · exact Advances.pure _
  · dsimp only
    split
    · exact Advances.pure _
    · exact Advances.bind (Advances.report _) fun _ => Advances.pure _

theorem labelField_advances (env : ExprEnv) (field : LabelEntry → Aint) (default : Aint) :
    Advances (labelField env field default) := by
  refine Advances.bind (getLabel_advances _) fun use => ?_
  cases use with
  | invalidName => exact Advances.fail
  | missing => exact Advances.pure _
  | found entry => exact Advances.pure _

theorem labelExist_advances (env : ExprEnv) : Advances (labelExist env) := by
  refine Advances.bind (searchLabel_advances _) fun found => ?_
  rcases found with _ | ⟨entry, findName⟩
  · exact Advances.fail
  · exact Advances.pure _

theorem getTemporaryLabelValue_advances (env : ExprEnv) :
    Advances (getTemporaryLabelValue env) := by
  refine Advances.bind ?_ fun label => ?_
  · refine Advances.bind Advances.peek fun op =>
      Advances.ite Advances.fail (Advances.ite Advances.fail ?_)
    refine Advances.bind (Advances.skip _) fun _ => Advances.ite Advances.fail ?_
    exact Advances.bind (Advances.skip _) fun _ =>
      Advances.bind (Advances.report _) fun _ => Advances.pure _
  · cases label with
    | none => exact Advances.pure _
    | some label => exact Advances.pure _

/-- All kinds of operands are read forward. -/
theorem parseOperand_advances (env : ExprEnv) : Advances (parseOperand env) := by
  refine Advances.bind Advances.peek fun p => Advances.ite getConstant_advances ?_
  -- in the order of the source: labels, `@@` and the prefixes, `$$`, `$`, and characters
  refine Advances.ite (labelField_advances _ _ _) (Advances.ite ?_ (Advances.ite ?_
    (Advances.ite ?_ (Advances.ite ?_ (Advances.ite ?_ (Advances.ite ?_ ?_))))))
  · exact Advances.bind (Advances.report _) fun _ =>
      Advances.bind (Advances.skip 1) fun _ => labelField_advances _ _ _
  · exact Advances.bind (Advances.skip 4) fun _ => labelField_advances _ _ _
  · exact Advances.bind (Advances.skip 3) fun _ => labelField_advances _ _ _
  · exact Advances.ite
      (Advances.bind (Advances.skip 4) fun _ => Advances.pure _)
      (Advances.bind (Advances.skip 3) fun _ => Advances.pure _)
  · exact Advances.bind (Advances.skip 2) fun _ =>
      Advances.ite (labelField_advances _ _ _)
        (Advances.ite (Advances.pure _) (Advances.pure _))
  · exact Advances.bind (Advances.skip 1) fun _ => Advances.pure _
  · refine Advances.bind (Advances.attempt getCharConst_advances) fun val => ?_
    cases val with
    | none => exact Advances.bind Advances.peek fun p =>
        Advances.bind (Advances.report _) fun _ => Advances.fail
    | some val => exact Advances.pure _

/-! ### The grammar with its recursive calls as parameters -/

section Body

variable {unair entry : ExprEnv → Reader Aint}

/-- A primary expression is read forward when the expressions in it are. -/
theorem parseExpPrim_advances (hentry : ∀ env, Advances (entry env)) (env : ExprEnv) :
    Advances (parseExpPrim entry env) := by
  refine Advances.bind blanks_advances fun _ => Advances.bind Advances.peek fun p =>
    Advances.ite Advances.fail (Advances.ite ?_ (Advances.ite ?_ ?_))
  -- a parenthesis, a memory read in braces, and then the operands
  · refine Advances.bind (Advances.skip 1) fun _ =>
      Advances.bind (Advances.attempt (hentry env)) fun res =>
      Advances.bind (need_advances _) fun closed => Advances.ite ?_ ?_
    · cases res with
      | none => exact Advances.fail
      | some nval => exact Advances.pure _
    · exact Advances.bind (Advances.report _) fun _ => Advances.fail
  · refine Advances.bind Advances.peek fun _ => Advances.bind (Advances.skip 1) fun _ =>
      Advances.bind (keyword_advances _ _) fun byteOnly =>
      Advances.bind (hentry _) fun nval =>
      Advances.bind (need_advances _) fun closed => Advances.ite (Advances.ite ?_ ?_) ?_
    · exact Advances.bind (Advances.report _) fun _ => Advances.pure _
    · exact Advances.bind (Advances.report _) fun _ => Advances.ite (Advances.pure _)
        (Advances.bind (Advances.report _) fun _ => Advances.pure _)
    · exact Advances.bind (Advances.report _) fun _ => Advances.fail
  · refine Advances.bind (Advances.ite (Advances.attempt
      (getTemporaryLabelValue_advances _)) (Advances.pure _)) fun val => ?_
    cases val with
    | none => exact parseOperand_advances _
    | some val => exact Advances.pure _

theorem parsePair_advances (hentry : ∀ env, Advances (entry env)) (env : ExprEnv) :
    Advances (parsePair entry env) := by
  refine Advances.bind (need_advances _) fun _ => Advances.ite ?_ Advances.fail
  refine Advances.bind (hentry _) fun _ => Advances.bind (need_advances _) fun _ =>
    Advances.ite ?_ Advances.fail
  exact Advances.bind (hentry _) fun _ => Advances.bind (need_advances _) fun _ =>
    Advances.ite (Advances.bind (Advances.report _) fun _ => Advances.pure _)
      Advances.fail

theorem parseLabelOperator_advances (kw : List Char) {field : Reader Aint}
    (hfield : Advances field) : Advances (parseLabelOperator kw field) := by
  refine Advances.bind (keyword_advances _ _) fun _ => Advances.ite ?_ Advances.fail
  refine Advances.bind (need_advances _) fun _ => Advances.bind Advances.peek fun _ =>
    Advances.ite ?_ Advances.fail
  refine Advances.bind hfield fun val => ?_
  refine Advances.ite ?_ (Advances.pure _)
  exact Advances.bind (need_advances _) fun _ =>
    Advances.ite (Advances.pure _) Advances.fail

/-- So is an operand with its unary operators. -/
theorem parseExpUnairBody_advances (hunair : ∀ env, Advances (unair env))
    (hentry : ∀ env, Advances (entry env)) (env : ExprEnv) :
    Advances (parseExpUnairBody unair entry env) := by
  have hprim := parseExpPrim_advances hentry
  refine Advances.bind blanks_advances fun _ => Advances.orElse ?_ (Advances.orElse
    (parseLabelOperator_advances _ (labelExist_advances env)) (Advances.orElse
      (parseLabelOperator_advances _ (labelField_advances _ _ _)) ?_))
  · exact Advances.bind (keyword_advances _ _) fun _ => Advances.ite (hprim _) Advances.fail
  · refine Advances.bind Advances.peek fun _ => Advances.ite (Advances.orElse
      (Advances.bind (Advances.skip 4) fun _ => parsePair_advances hentry _)
        Advances.fail) ?_
    refine Advances.bind unaryOper_advances fun oper => ?_
    cases oper with
    | none => exact hprim _
    | some oper =>
      exact Advances.bind (hunair _) fun _ => Advances.bind (Advances.report _) fun _ =>
        Advances.pure _

end Body

/-! ### The levels above the unary operators -/

/-- All levels of binary operators read forward over operands that do. -/
theorem parseExpLogOr_advances {unair : Reader Aint} (h : Advances unair) :
    Advances (parseExpLogOr unair) := by
  rw [parseExpLogOr_eq_ladder]
  exact ladder_advances h levelOper_advances 11

/-! ### Recursive calls happen on shorter texts -/

section Congr

variable {unair unair' entry entry' : ExprEnv → Reader Aint} {p : Text}

theorem length_drop_one_lt {c : Char} (hc : c ≠ '\x00') (h : cur p = c) :
    (p.drop 1).length < p.length := by
  cases p with
  | nil => exact absurd h.symm hc
  | cons d p => exact Nat.lt_succ_self _

theorem parseMemoryRead_congr (hp : cur p = '{')
    (he : ∀ env (q : Text), q.length < p.length → entry env q = entry' env q) (env : ExprEnv) :
    parseMemoryRead entry env p = parseMemoryRead entry' env p := by
  have h1 : (p.drop 1).length < p.length := length_drop_one_lt (by decide) hp
  refine bind_congr rfl fun _ _ => bind_congr rfl fun _ _ => bind_congr rfl fun _ _ =>
    bind_congr (he _ _ ?_) fun _ _ => rfl
  exact Nat.lt_of_le_of_lt ((keyword_advances _ _).neverGrows _) h1

/-- A primary expression calls the weakest level behind its bracket. -/
theorem parseExpPrim_congr
    (he : ∀ env (q : Text), q.length < p.length → entry env q = entry' env q) (env : ExprEnv) :
    parseExpPrim entry env p = parseExpPrim entry' env p := by
  refine bind_congr rfl fun _ _ => bind_congr rfl fun q hq => ?_
  obtain rfl : skipBlanks p = q := Option.some.inj hq
  have hle : (skipBlanks p).length ≤ p.length := length_skipBlanks_le p
  have hlt : ∀ env (q : Text), q.length < (skipBlanks p).length → entry env q = entry' env q :=
    fun env q hq => he env q (Nat.lt_of_lt_of_le hq hle)
  split_ifs with h0 hparen hbrace
  · rfl
  · refine bind_congr rfl fun _ _ => bind_congr (attempt_congr (hlt _ _ ?_)) fun _ _ => rfl
    exact length_drop_one_lt (by decide) hparen
  · exact parseMemoryRead_congr hbrace.2 hlt env
  · rfl
  · rfl

theorem parsePair_congr (hentry : ∀ env, Advances (entry env))
    (he : ∀ env (q : Text), q.length < p.length → entry env q = entry' env q) (env : ExprEnv) :
    parsePair entry env p = parsePair entry' env p := by
  refine bind_congr rfl fun opened hopened => ?_
  cases opened with
  | false => rfl
  | true =>
    have hlt : (need '(' p).rest.length < p.length := length_need_lt (by decide) hopened
    refine bind_congr (he _ _ hlt) fun hi _ => bind_congr rfl fun comma _ => ?_
    cases comma with
    | false => rfl
    | true =>
      refine bind_congr (he _ _ ?_) fun lo _ => rfl
      exact Nat.lt_of_le_of_lt ((need_advances _).neverGrows _)
        (Nat.lt_of_le_of_lt ((hentry _).neverGrows _) hlt)

/-- The body of `ParseExpUnair` calls itself and the weakest level on shorter texts only. -/
theorem parseExpUnairBody_congr (hentry : ∀ env, Advances (entry env))
    (hu : ∀ env (q : Text), q.length < p.length → unair env q = unair' env q)
    (he : ∀ env (q : Text), q.length < p.length → entry env q = entry' env q) (env : ExprEnv) :
    parseExpUnairBody unair entry env p = parseExpUnairBody unair' entry' env p := by
  have hle : (skipBlanks p).length ≤ p.length := length_skipBlanks_le p
  have hprim : ∀ env (q : Text), q.length ≤ p.length →
      parseExpPrim entry env q = parseExpPrim entry' env q := fun env q hq =>
    parseExpPrim_congr (fun env t ht => he env t (Nat.lt_of_lt_of_le ht hq)) env
  -- the alternatives of the body; each consumes a keyword or an operator ahead of its call
  refine bind_congr rfl fun _ _ => orElse_congr ?_ (orElse_congr rfl (orElse_congr rfl ?_))
  · refine bind_congr rfl fun found _ => ?_
    cases found with
    | false => rfl
    | true => exact hprim _ _ (Nat.le_trans ((keyword_advances _ _).neverGrows _) hle)
  · refine bind_congr rfl fun q hq => ?_
    obtain rfl : skipBlanks p = q := Option.some.inj hq
    split
    -- `PAIR` is four characters, so that what is behind it is shorter
    · refine orElse_congr (bind_congr rfl fun _ _ => parsePair_congr hentry ?_ env) rfl
      intro env t ht
      exact he env t (Nat.lt_of_lt_of_le ht (Nat.le_trans ((Advances.skip 4).neverGrows _) hle))
    · refine bind_congr rfl fun oper hoper => ?_
      cases oper with
      | none => exact hprim _ _ (Nat.le_trans (unaryOper_laws.neverGrows _) hle)
      | some oper =>
        refine bind_congr (hu _ _ (Nat.lt_of_lt_of_le ?_ hle)) fun _ _ => rfl
        exact unaryOper_laws.consumes (Outcome.ext hoper rfl rfl)

end Congr

/-- The levels see operands on no longer texts only. -/
theorem parseExpLogOr_congr {unair unair' : Reader Aint} (hunair : Advances unair) {n : Nat}
    (h : ∀ p : Text, p.length ≤ n → unair p = unair' p) {p : Text} (hp : p.length ≤ n) :
    parseExpLogOr unair p = parseExpLogOr unair' p := by
  rw [parseExpLogOr_eq_ladder, parseExpLogOr_eq_ladder]
  exact ladder_congr hunair.neverGrows levelOper_laws h 11 hp

/-! ### Enough fuel -/

theorem parseExpUnairFuel_advances (fuel : Nat) (env : ExprEnv) :
    Advances (parseExpUnairFuel fuel env) := by
  induction fuel generalizing env with
  | zero => exact Advances.fail
  | succ fuel ih =>
    exact parseExpUnairBody_advances ih (fun env => parseExpLogOr_advances (ih env)) env

theorem parseExpUnair_advances (env : ExprEnv) : Advances (parseExpUnair env) :=
  fun p => parseExpUnairFuel_advances _ _ p

theorem parseExpressionEntry_advances (env : ExprEnv) : Advances (parseExpressionEntry env) :=
  parseExpLogOr_advances (parseExpUnair_advances env)

/-- On the empty text nothing is parsed, whatever the recursive calls would do. -/
theorem parseExpUnairBody_nil (unair entry : ExprEnv → Reader Aint) (env : ExprEnv) :
    parseExpUnairBody unair entry env [] = ⟨none, [], []⟩ := by
  rfl

/-- Any two amounts of fuel that cover the text parse alike. -/
theorem parseExpUnairFuel_enough : ∀ (n m : Nat) (env : ExprEnv) (p : Text),
    p.length ≤ n → p.length ≤ m → parseExpUnairFuel n env p = parseExpUnairFuel m env p := by
  intro n
  -- by induction on the first amount: the calls of the body are on shorter texts
  induction n with
  | zero =>
    intro m env p hn _
    obtain rfl := List.eq_nil_of_length_eq_zero (Nat.le_zero.mp hn)
    cases m with
    | zero => rfl
    | succ m => rw [parseExpUnairFuel, parseExpUnairFuel, parseExpUnairBody_nil]; rfl
  | succ n ih =>
    intro m env p hn hm
    cases m with
    | zero =>
      obtain rfl := List.eq_nil_of_length_eq_zero (Nat.le_zero.mp hm)
      rw [parseExpUnairFuel, parseExpUnairFuel, parseExpUnairBody_nil]
      rfl
    | succ m =>
      have hu : ∀ env (q : Text), q.length < p.length →
          parseExpUnairFuel n env q = parseExpUnairFuel m env q :=
        fun env q hq => ih m env q (by omega) (by omega)
      refine parseExpUnairBody_congr
        (fun env => parseExpLogOr_advances (parseExpUnairFuel_advances n env)) hu ?_ env
      intro env q hq
      exact parseExpLogOr_congr (parseExpUnairFuel_advances n env)
        (fun t ht => hu env t (Nat.lt_of_le_of_lt ht hq)) (Nat.le_refl _)

/-- **The equation of `ParseExpUnair`**: the function with fuel obeys the recursion of the source. -/
theorem parseExpUnair_eq (env : ExprEnv) (p : Text) :
    parseExpUnair env p = parseExpUnairBody parseExpUnair parseExpressionEntry env p := by
  have hu : ∀ env (q : Text), q.length < p.length + 1 →
      parseExpUnairFuel p.length env q = parseExpUnair env q :=
    fun env q hq => parseExpUnairFuel_enough _ _ env q (by omega) (Nat.le_refl _)
  have h1 : parseExpUnair env p = parseExpUnairFuel (p.length + 1) env p :=
    parseExpUnairFuel_enough _ _ env p (Nat.le_refl _) (Nat.le_succ _)
  rw [h1]
  refine parseExpUnairBody_congr
    (fun env => parseExpLogOr_advances (parseExpUnairFuel_advances _ env))
    (fun env q hq => hu env q (Nat.lt_succ_of_lt hq)) (fun env q hq => ?_) env
  exact parseExpLogOr_congr (parseExpUnairFuel_advances _ env)
    (fun t ht => hu env t (by omega)) (Nat.le_refl _)

end Sjasmplus
