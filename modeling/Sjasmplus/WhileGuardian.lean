import Sjasmplus.Lib.Guardian
import Sjasmplus.MacroRestore
import Sjasmplus.RepeatStack

/-!
# The guardian of `WHILE` (`DupWhileImplementation`, `shouldRepeat` of `directives.cpp`)

A `WHILE` block has a guardian value, of 100000 unless the line gives one.  The count of the repeat
starts one above it and goes down with every turn, and at zero the loop gives up with an error.

A guardian value from -1 on does what it is there for: the body is assembled at most once more often than
it says, and the error is reported exactly when the condition is true more often than it says
(`guardianKept_iff`).  Only a line that reaches over the end of the body can disturb it: a stray `ELSE`,
`ELSEIF` or `ENDIF` sets the count to zero, and the end of the assembly comes without the error.  A
guardian value below -1 is passed by, and the count of the largest one overflows.
-/

namespace Sjasmplus

open Program

variable {ω : Type}

/-! ### The line of a `WHILE` -/

/-- `++val`: the count for a guardian value. -/
def guardianCount (guardian : Aint) : Reported Aint :=
  (guardian + 1, if guardian.toInt = 2 ^ 31 - 1 then [.undefined "++val"] else [])

/-- The guardian value of a line that gives none. -/
def defaultGuardian : Aint := 100000

/-- The operands of `WHILE`: the condition, and a guardian value behind a comma. -/
structure WhileOperands where
  condition : Text
  guardian : Option Aint

/-- `DupWhileImplementation` reads the operands of `WHILE`; an expression has a value and text behind
it.  Without a result there is a syntax error. -/
def whileOperands (parseExpression : Text → Option Aint × Text) (lp : Text) : Option WhileOperands :=
  match parseExpression lp with
  | (none, _) => none
  | (some _, expressionSource) =>
    let (separated, guardianSource) := takeComma expressionSource
    if expressionSource ≠ [] ∧ separated then
      match parseExpression guardianSource with
      | (none, _) => none
      -- the comma is overwritten, so that the condition ends in front of it
      | (some guardian, _) => some ⟨lp.take (lp.length - guardianSource.length - 1), some guardian⟩
    else some ⟨lp, none⟩

/-- What the line makes of its operands: the count and the condition of the repeat. -/
def whileRepeat (operands : Option WhileOperands) (lp : Text) : Reported (Aint × Text) :=
  match operands with
  | some ⟨condition, some guardian⟩ =>
    (((guardianCount guardian).1, condition), (guardianCount guardian).2)
  | some ⟨condition, none⟩ => ((100001, condition), [])
  | none => ((1, ['0']), [.error "[WHILE] Syntax error in <expression>" (some lp) .suppress])

/-- `WHILE` behind its operands: a repeat without a variable for its index. -/
def dirWHILE (operands : Option WhileOperands) (lp : Text) : ExpandProgram ω Unit := do
  let repeated := whileRepeat operands lp
  modify fun s => { s with log := s.log ++ repeated.2 }
  dirDUP repeated.1.1.toInt (some repeated.1.2) []

/-- The guardian value of a line. -/
def WhileOperands.guardianValue (operands : WhileOperands) : Aint :=
  operands.guardian.getD defaultGuardian

/-- The count is one above the guardian value, whether the line gives one or not. -/
theorem whileRepeat_eq (operands : WhileOperands) (lp : Text) :
    whileRepeat (some operands) lp =
      (((guardianCount operands.guardianValue).1, operands.condition),
        (guardianCount operands.guardianValue).2) := by
  obtain ⟨condition, guardian | guardian⟩ := operands <;> rfl

theorem toInt_guardianCount {guardian : Aint} (h : guardian.toInt ≠ 2 ^ 31 - 1) :
    (guardianCount guardian).1.toInt = guardian.toInt + 1 := by
  have hone : (1 : Aint).toInt = 1 := rfl
  have hlow := guardian.le_toInt
  have hhigh := guardian.toInt_lt
  rw [guardianCount, toInt_add_of_fits] <;> omega

/-! ### The loop of `EDUP` -/

/-- The state in which `EDUP` starts to repeat the lines of the top of the stack. -/
def repeatStart (s : ExpandState ω) : ExpandState ω :=
  { s with
    repeatStack := s.repeatStack.modify (s.repeatStack.length - 1) fun dup => { dup with
      isInWork := true
      lines := dup.lines.modify (dup.lines.length - 1) fun last => { last with string := none } }
    listmacro := s.listmacro + 1
    lijst := s.lijst + 1 }

/-- The number of the top of the stack. -/
def topRepeat (s : ExpandState ω) : Nat := s.repeatStack.length - 1

/-- The top of the stack is a repeat that has collected its lines, up to its end. -/
structure AtEnd (s : ExpandState ω) (dup : Repeat) : Prop where
  top : s.repeatStack.getLast? = some dup
  collects : dup.isInWork = false
  level : dup.level = 0

/-- What `EDUP` puts back behind the loop. -/
def repeatEnd (olds s : ExpandState ω) : ExpandState ω :=
  { s with
    sourcePosStack := s.sourcePosStack.dropLast ++ olds.sourcePosStack.getLast?.toList
    repeatStack := s.repeatStack.dropLast
    lijstp := olds.lijstp
    lijst := s.lijst - 1
    listmacro := s.listmacro - 1
    line := olds.line }

/-- At the end of its lines, `EDUP` runs the loop of the repeat. -/
theorem exec_dirEDUP_of_atEnd {s : ExpandState ω} {dup : Repeat} (h : AtEnd s dup)
    (parser : StatementParser ω) (parse : ExpandProgram ω Unit) (fuel : Nat) :
    (dirEDUP parser parse fuel).exec s =
      match (loop (repeatTurn parser parse fuel (topRepeat s)) fuel 0).exec (repeatStart s) with
      | (some u, t) => (some u, repeatEnd s t)
      | (none, t) => (none, t) := by
  rw [dirEDUP, exec_bind_of_some (exec_get s), h.top]
  dsimp only
  rw [if_neg (by rw [h.collects]; exact Bool.false_ne_true), if_neg (by rw [h.level]; decide)]
  show (modifyRepeat _ _ >>= fun _ => bracket _ _ _).exec s = _
  rw [modifyRepeat, exec_bind_of_some (exec_modify _ s)]
  rcases hloop : (loop (repeatTurn parser parse fuel (topRepeat s)) fuel 0).exec (repeatStart s)
    with ⟨_ | u, t⟩
  · exact exec_bracket_of_none hloop
  · exact exec_bracket_of_some hloop

/-! ### A turn of the loop -/

/-- `Error("[WHILE] infinite loop? …")`. -/
def infiniteLoop : Event :=
  .error "[WHILE] infinite loop? (reaching the guardian value, default 100k)" none .pass3

/-- The number `i` of the stack is the repeat of a `WHILE`, with its lines in work. -/
def InWhile (i : Nat) (s : ExpandState ω) : Prop :=
  ∃ dup, s.repeatStack[i]? = some dup ∧ dup.isInWork = true ∧ dup.repeatCondition ≠ none

/-- `RepeatCount`. -/
def repeatCountOf (i : Nat) (s : ExpandState ω) : Int := (s.repeatStack[i]?.map Repeat.repeatCount).getD 0

/-- `--dup.RepeatCount`. -/
def countDown (i : Nat) (s : ExpandState ω) : ExpandState ω :=
  { s with repeatStack := s.repeatStack.modify i fun dup =>
    { dup with repeatCount := dup.repeatCount - 1 } }

/-- The condition of the repeat is true. -/
def ConditionHolds (parser : StatementParser ω) (i : Nat) (s : ExpandState ω) : Prop :=
  ∃ dup condition, s.repeatStack[i]? = some dup ∧ dup.repeatCondition = some condition ∧
    (parser.repeatExpression (countDown i s) condition).1 = true

/-- The loop reports that it gives up. -/
def GivesUp (s t : ExpandState ω) : Prop := t.log = s.log ++ [infiniteLoop]

/-- Reading a condition never reports what the loop does. -/
def StatementParser.Separate (parser : StatementParser ω) : Prop :=
  ∀ s condition, (parser.repeatExpression s condition).2 ≠ [infiniteLoop]

variable {parser : StatementParser ω} {fuel i : Nat}

/-- The state behind a test of the loop, with its messages. -/
def tested (i : Nat) (s : ExpandState ω) (log : List Event) : ExpandState ω :=
  { countDown i s with log := s.log ++ log }

theorem repeatCountOf_eq {s : ExpandState ω} {dup : Repeat} (hdup : s.repeatStack[i]? = some dup) :
    repeatCountOf i s = dup.repeatCount := by
  rw [repeatCountOf, hdup]
  rfl

section

variable {dup : Repeat} {condition : Text} (hcondition : dup.repeatCondition = some condition)

include hcondition

/-- A count of zero ends the loop, and the condition is not read any more. -/
theorem exec_shouldRepeat_of_zero (parser : StatementParser ω) (i : Nat) (s : ExpandState ω)
    (hzero : dup.repeatCount = 0) :
    (shouldRepeat parser i dup).exec s = (some false, tested i s [infiniteLoop]) := by
  rw [shouldRepeat, modifyRepeat, exec_bind_of_some (exec_modify _ s), hcondition]
  dsimp only
  rw [if_pos hzero]
  rfl

theorem exec_shouldRepeat_of_ne (parser : StatementParser ω) (i : Nat) (s : ExpandState ω)
    (hne : dup.repeatCount ≠ 0) :
    (shouldRepeat parser i dup).exec s =
      (some (parser.repeatExpression (countDown i s) condition).1,
        tested i s (parser.repeatExpression (countDown i s) condition).2) := by
  rw [shouldRepeat, modifyRepeat, exec_bind_of_some (exec_modify _ s), hcondition]
  dsimp only
  rw [if_neg hne]
  rfl

end

/-- A turn tests and goes on with the body. -/
theorem exec_repeatTurn (parse : ExpandProgram ω Unit) (fuel index : Nat) {s t : ExpandState ω}
    {dup : Repeat} {val : Bool} (hdup : s.repeatStack[i]? = some dup) (hrunning : s.isRunning = true)
    (htest : (shouldRepeat parser i dup).exec s = (some val, t)) :
    (repeatTurn parser parse fuel i index).exec s =
      if val then (repeatBody parser parse fuel dup index).exec t else (some (.inr ()), t) := by
  rw [repeatTurn, exec_bind_of_some (exec_get s), hdup]
  dsimp only
  rw [if_neg (by rw [hrunning]; decide), exec_bind_of_some htest]
  cases val <;> rfl

/-- A body goes on, or it exits. -/
theorem exec_repeatBody (fuel : Nat) (parse : ExpandProgram ω Unit) (dup : Repeat) (index : Nat)
    (s : ExpandState ω) :
    (∃ t, (repeatBody parser parse fuel dup index).exec s = (none, t)) ∨
      ∃ index' t, (repeatBody parser parse fuel dup index).exec s = (some (.inl index'), t) := by
  have hends : Ensures (repeatBody parser parse fuel dup index) s fun r _ => ∃ index', r = .inl index' := by
    refine Ensures.after fun _ _ => Ensures.after fun index' _ => ?_
    refine Ensures.after fun _ _ => Ensures.after fun _ _ => ?_
    exact Ensures.pure ⟨index', rfl⟩
  rcases h : (repeatBody parser parse fuel dup index).exec s with ⟨_ | r, t⟩
  · exact .inl ⟨t, rfl⟩
  · obtain ⟨index', rfl⟩ := hends r t h
    exact .inr ⟨index', t, rfl⟩

/-- A body leaves the repeat in work, and its count as it is or zero. -/
theorem of_repeatBody {s t : ExpandState ω} {dup : Repeat} {log : List Event} {index : Nat}
    {r : Option (Nat ⊕ Unit)} (hdup : s.repeatStack[i]? = some dup) (hwork : dup.isInWork = true)
    (h : (repeatBody parser (parseLine parser fuel) fuel dup index).exec (tested i s log) = (r, t)) :
    ∃ count, t.repeatStack[i]? = some { dup with repeatCount := count } ∧
      (count = dup.repeatCount - 1 ∨ count = 0) := by
  have hkept : WorkKept none (tested i s log) t := by
    have hbody : KeepsWork none (repeatBody parser (parseLine parser fuel) fuel dup index) :=
      StackRelation.keeps_repeatBody (keepsWork_parseLine parser fuel) parser fuel dup index
    have hfinal := hbody (tested i s log)
    rwa [final, h] at hfinal
  obtain ⟨count, ht, hown | hcount⟩ := hkept i { dup with repeatCount := dup.repeatCount - 1 }
    (by rw [tested, countDown, List.getElem?_modify_eq, hdup]; rfl) hwork
  · exact absurd hown nofun
  · exact ⟨count, ht, hcount⟩

/-- What the loop of a `WHILE` does in a turn. -/
theorem counts_repeatTurn (fuel i : Nat) (hseparate : parser.Separate) :
    Counts (repeatTurn parser (parseLine parser fuel) fuel i) (InWhile i)
      (fun s => s.isRunning = true) (ConditionHolds parser i) (repeatCountOf i) GivesUp where
  stopped := by
    rintro index s ⟨dup, hdup, -, -⟩ hstopped
    rw [repeatTurn, exec_bind_of_some (exec_get s), hdup]
    dsimp only
    rw [if_pos (by simpa using hstopped)]
    rfl
  quiet := by
    intro s h
    exact absurd (List.self_eq_append_right.mp h) (List.cons_ne_nil _ _)
  -- the count is tested for zero ahead of the condition
  givesUp := by
    rintro index s ⟨dup, hdup, -, hcondition⟩ hrunning hcount
    obtain ⟨condition, hcondition⟩ := Option.ne_none_iff_exists'.mp hcondition
    rw [repeatCountOf_eq hdup] at hcount
    exact ⟨_, exec_repeatTurn _ _ _ hdup hrunning
      (exec_shouldRepeat_of_zero hcondition parser i s hcount), rfl⟩
  ends := by
    rintro index s ⟨dup, hdup, -, hcondition⟩ hrunning hcount hholds
    obtain ⟨condition, hcondition⟩ := Option.ne_none_iff_exists'.mp hcondition
    rw [repeatCountOf_eq hdup] at hcount
    have htest := exec_shouldRepeat_of_ne hcondition parser i s hcount
    have hfalse : (parser.repeatExpression (countDown i s) condition).1 = false := by
      rw [← Bool.not_eq_true]
      exact fun htrue => hholds ⟨dup, condition, hdup, hcondition, htrue⟩
    rw [hfalse] at htest
    refine ⟨_, exec_repeatTurn _ _ _ hdup hrunning htest, ?_⟩
    exact fun h => hseparate _ _ (List.append_cancel_left h)
  goesOn := by
    rintro index s ⟨dup, hdup, hwork, hcondition⟩ hrunning hcount ⟨_, condition, hdup', hsome, htrue⟩
    obtain rfl := Option.some.inj (hdup.symm.trans hdup')
    rw [repeatCountOf_eq hdup] at hcount
    have htest := exec_shouldRepeat_of_ne hsome parser i s hcount
    rw [htrue] at htest
    have hturn := exec_repeatTurn (parseLine parser fuel) fuel index hdup hrunning htest
    rw [if_pos rfl] at hturn
    -- the body may end the assembly, or it keeps the repeat with another count
    rcases exec_repeatBody fuel (parseLine parser fuel) dup index _ with ⟨t, ht⟩ | ⟨index', t, ht⟩
    · exact .inl ⟨t, hturn.trans ht⟩
    · obtain ⟨count, hdown, hnext⟩ := of_repeatBody hdup hwork ht
      refine .inr ⟨index', t, hturn.trans ht, ⟨_, hdown, hwork, hcondition⟩, ?_⟩
      rwa [repeatCountOf_eq hdown, repeatCountOf_eq hdup]

/-! ### The end of the block -/

/-- The state in which the end of the block of a `WHILE` repeats its lines. -/
def EndsWhile (operands : WhileOperands) (s : ExpandState ω) : Prop :=
  ∃ dup, AtEnd s dup ∧ dup.repeatCondition = some operands.condition ∧
    dup.repeatCount = (guardianCount operands.guardianValue).1.toInt

/-- The loop starts with its count. -/
theorem inWhile_repeatStart {operands : WhileOperands} {s : ExpandState ω} (h : EndsWhile operands s) :
    InWhile (topRepeat s) (repeatStart s) ∧
      repeatCountOf (topRepeat s) (repeatStart s) =
        (guardianCount operands.guardianValue).1.toInt := by
  obtain ⟨dup, ⟨htop, -, -⟩, hcondition, hcount⟩ := h
  rw [List.getLast?_eq_getElem?] at htop
  have hstart : (repeatStart s).repeatStack[topRepeat s]? = some { dup with
      isInWork := true
      lines := dup.lines.modify (dup.lines.length - 1) fun last => { last with string := none } } := by
    rw [repeatStart, topRepeat, List.getElem?_modify_eq, htop]
    rfl
  refine ⟨⟨_, hstart, rfl, ?_⟩, ?_⟩
  · rw [hcondition]
    exact Option.some_ne_none _
  · rw [repeatCountOf_eq hstart, hcount]

/-! ### The main result -/

/-- The turns of the loop at the end of a block. -/
abbrev turnOf (parser : StatementParser ω) (fuel : Nat) (s : ExpandState ω) :
    Nat → ExpandProgram ω (Nat ⊕ Unit) :=
  repeatTurn parser (parseLine parser fuel) fuel (topRepeat s)

/-- A turn sets the count to zero, and the assembly goes on. -/
def CountResetIn (parser : StatementParser ω) (fuel : Nat) (s : ExpandState ω) (n : Nat) : Prop :=
  ResetIn (turnOf parser fuel s) (fun s => s.isRunning = true) (repeatCountOf (topRepeat s))
    (0, repeatStart s) n

/-- The assembly ends in the turn in which the condition is true for that many times. -/
def AssemblyEndsBehind (parser : StatementParser ω) (fuel : Nat) (s : ExpandState ω) (n : Nat) : Prop :=
  StoppedBehind (turnOf parser fuel s) (fun s => s.isRunning = true) (0, repeatStart s) n

/-- The guardian does what it is there for, from the line of the `WHILE` to the end of its loop. -/
def GuardianKept (parser : StatementParser ω) (fuel : Nat) (s : ExpandState ω) (guardian : Aint) :
    Prop :=
  (guardianCount guardian).2 = [] ∧
    Kept (turnOf parser fuel s) (fun s => s.isRunning = true) (ConditionHolds parser (topRepeat s))
      GivesUp (0, repeatStart s) guardian.toInt

/-- **The guardian of `WHILE`.**  It bounds the turns and reports exactly the loops that go on beyond
it, if and only if its count does not overflow and only the turns take the count down, or it is below
-1 and the first turn sets the count to zero. -/
theorem guardianKept_iff {operands : WhileOperands} {s : ExpandState ω} (hseparate : parser.Separate)
    (h : EndsWhile operands s) :
    GuardianKept parser fuel s operands.guardianValue ↔
      if -1 ≤ operands.guardianValue.toInt then
        operands.guardianValue.toInt < 2 ^ 31 - 1 ∧ (∀ n, ¬ CountResetIn parser fuel s n) ∧
          ¬ AssemblyEndsBehind parser fuel s (operands.guardianValue.toInt + 1).toNat
      else CountResetIn parser fuel s 0 := by
  have hlast := operands.guardianValue.toInt_lt
  obtain ⟨hinv, hcount⟩ := inWhile_repeatStart h
  -- the largest guardian overflows as it is made a count
  by_cases hmax : operands.guardianValue.toInt = 2 ^ 31 - 1
  · rw [GuardianKept, guardianCount, if_pos hmax, if_pos (by omega)]
    refine iff_of_false (fun h => List.cons_ne_nil _ _ h.1) fun h => ?_
    omega
  · rw [toInt_guardianCount hmax] at hcount
    -- for all others the general result on guarded loops decides
    have hkept := (counts_repeatTurn fuel (topRepeat s) hseparate).kept_iff
      (x := (0, repeatStart s)) hinv hcount
    rw [GuardianKept, guardianCount, if_neg hmax, hkept]
    simp only [true_and]
    split_ifs
    · refine ⟨fun h => ⟨by omega, h⟩, fun h => h.2⟩
    · exact Iff.rfl

/-- Conditions are true. -/
def trueParser : StatementParser Unit :=
  { exampleParser with repeatExpression := fun _ _ => (true, []) }

/-- Three lines, `WHILE 1` with a guardian value, `nop` and `EDUP`, behind the last one. -/
def exampleWhile (guardian : Aint) : ExpandState Unit :=
  { exampleExpandState with
    repeatStack := [⟨(guardianCount guardian).1.toInt, some ['1'], ⟨6, 0, 0⟩,
      [⟨some [], ⟨6, 0, 0⟩⟩, ⟨some " nop".toList, ⟨7, 0, 0⟩⟩, ⟨some " EDUP".toList, ⟨8, 0, 0⟩⟩], false, 0⟩] }

theorem endsWhile_exampleWhile (guardian : Aint) :
    EndsWhile ⟨['1'], some guardian⟩ (exampleWhile guardian) :=
  ⟨_, ⟨rfl, rfl, rfl⟩, rfl, rfl⟩

/-- A guardian value of 2. -/
theorem guardianKept_iff_exampleWhile :
    GuardianKept trueParser 4 (exampleWhile 2) 2 ↔
      if -1 ≤ (2 : Aint).toInt then
        (2 : Aint).toInt < 2 ^ 31 - 1 ∧ (∀ n, ¬ CountResetIn trueParser 4 (exampleWhile 2) n) ∧
          ¬ AssemblyEndsBehind trueParser 4 (exampleWhile 2) ((2 : Aint).toInt + 1).toNat
      else CountResetIn trueParser 4 (exampleWhile 2) 0 := by
  have hseparate : trueParser.Separate := fun _ _ => (List.cons_ne_nil _ _).symm
  exact guardianKept_iff hseparate (endsWhile_exampleWhile 2)

/-- With a guardian value of -2 the body is assembled a second time, and so on. -/
theorem not_guardianKept : ¬ GuardianKept trueParser 4 (exampleWhile (-2)) (-2) := by
  rintro ⟨-, hkept⟩
  have hfirst : TurnsIn (turnOf trueParser 4 (exampleWhile (-2)))
      (0, repeatStart (exampleWhile (-2))) 1
      (0, (turnOf trueParser 4 (exampleWhile (-2)) 0).final (repeatStart (exampleWhile (-2)))) :=
    TurnsIn.zero.succ (exec_of_fst (by decide))
  have hgoes : ((turnOf trueParser 4 (exampleWhile (-2)) 0).exec
      ((turnOf trueParser 4 (exampleWhile (-2)) 0).final (repeatStart (exampleWhile (-2))))).1
        ≠ some (.inr ()) := by
    decide
  have hsecond := hkept.bodies 1 _ hfirst fun t ht => hgoes (congrArg Prod.fst ht)
  revert hsecond
  decide

end Sjasmplus
