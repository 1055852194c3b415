import Sjasmplus.MacroRestore
import Sjasmplus.WhileGuardian

/-!
# Chains of `IF`, `ELSEIF` and `ELSE` (`dirIfInternal` of `directives.cpp`)

`dirIfInternal` processes or skips the branches of a chain one after the other.  A branch that is
skipped goes up to the next keyword which is not inside of another chain, perhaps behind a label
(`SkipFile`).  A branch that is processed goes up to the first line which starts with a keyword and
is not taken by a statement in front of it (`ReadFile`): there a label in front is not skipped.

* `assembleChain` — what the chain is for: go to the first branch whose condition is true, process the
  lines of its body, and skip all others without evaluating anything;
* `assemblesChain_iff` — `dirIfInternal` does this exactly when `ReadFile` sees a keyword in the line
  that ends the branch, and in no line of its body;
* `assemblesChain_of_quiet` — it does so for the chains that are usually written, without labels in front
  of keywords.
-/

namespace Sjasmplus

open Program

variable {ω : Type}

/-! ### The lines that are left -/

/-- The lines of a macro or of a repeat, up to the end of the repeat. -/
def listLines : List BodyLine → List Text
  | ⟨some string, _⟩ :: rest => string :: listLines rest
  | _ => []

/-- The lines that `ReadLine` gives. -/
def upcoming (s : ExpandState ω) : List Text :=
  if !s.isRunning then [] else if s.lijst ≠ 0 then listLines s.lijstp else s.source

/-- The state behind a number of lines that are only read. -/
def skipped : Nat → ExpandState ω → ExpandState ω
  | 0, s => s
  | n + 1, s => skipped n ((readLine : ExpandProgram ω Bool).final s)

theorem skipped_add (n k : Nat) (s : ExpandState ω) : skipped (n + k) s = skipped k (skipped n s) := by
  induction n generalizing s with
  | zero => rw [Nat.zero_add, skipped]
  | succ n ih => rw [Nat.add_right_comm, skipped, ih, skipped]

@[simp] theorem skipped_zero (s : ExpandState ω) : skipped 0 s = s := rfl

theorem skipped_one (s : ExpandState ω) : skipped 1 s = (readLine : ExpandProgram ω Bool).final s := rfl

section

variable {s : ExpandState ω} {line : Text} {lines rest : List Text}

/-- What `ReadLine` does: nothing without a line, and else it moves over the first one. -/
theorem readLine_cases (s : ExpandState ω) :
    (upcoming s = [] ∧ (readLine : ExpandProgram ω Bool).exec s = (some false, s)) ∨
    ∃ (line : Text) (rest : List Text) (lijstp : List BodyLine) (source : List Text)
      (pos : List TextFilePos), pos.length = s.sourcePosStack.length ∧ upcoming s = line :: rest ∧
      (readLine : ExpandProgram ω Bool).exec s = (some true, { s with
        line := line, lijstp := lijstp, source := source, sourcePosStack := pos }) ∧
      upcoming { s with
        line := line, lijstp := lijstp, source := source, sourcePosStack := pos } = rest := by
  rw [readLine, exec_bind_of_some (exec_get s)]
  by_cases hrunning : s.isRunning = true
  · by_cases hlijst : s.lijst = 0
    · -- a line of the file
      rw [if_neg (by simp [hlijst]), readLineNoMacro, exec_bind_of_some (exec_get s)]
      rcases hsource : s.source with _ | ⟨line, source⟩
      · exact .inl ⟨by simp [upcoming, hrunning, hlijst, hsource], rfl⟩
      · dsimp only
        rw [if_pos hrunning]
        refine .inr ⟨line, source, s.lijstp, source, _, length_setBack _ _, ?_, rfl, ?_⟩
        · simp [upcoming, hrunning, hlijst, hsource]
        · simp [upcoming, hrunning, hlijst]
    · -- a line of a macro or of a repeat
      rw [if_pos ⟨hrunning, hlijst⟩]
      rcases hlijstp : s.lijstp with _ | ⟨⟨_ | string, source⟩, rest⟩
      · exact .inl ⟨by simp [upcoming, hrunning, hlijst, hlijstp, listLines], rfl⟩
      · exact .inl ⟨by simp [upcoming, hrunning, hlijst, hlijstp, listLines], rfl⟩
      · refine .inr ⟨string, listLines rest, rest, s.source, _, length_setBack _ _, ?_, rfl, ?_⟩
        · simp [upcoming, hrunning, hlijst, hlijstp, listLines]
        · simp [upcoming, hrunning, hlijst]
  · -- the assembly has ended
    have hfalse : s.isRunning = false := by simpa using hrunning
    rw [if_neg (by simp [hfalse]), readLineNoMacro, exec_bind_of_some (exec_get s)]
    refine .inl ⟨by simp [upcoming, hfalse], ?_⟩
    rcases s.source with _ | ⟨line, source⟩
    · rfl
    · simp [hfalse]

/-- Without a line nothing happens. -/
theorem exec_readLine_of_nil (h : upcoming s = []) :
    (readLine : ExpandProgram ω Bool).exec s = (some false, s) := by
  rcases readLine_cases s with ⟨-, hexec⟩ | ⟨_, _, _, _, _, -, hcons, -, -⟩
  · exact hexec
  · rw [h] at hcons
    exact absurd hcons (List.cons_ne_nil _ _).symm

/-- A line is read. -/
theorem exec_readLine_of_cons (h : upcoming s = line :: rest) :
    (readLine : ExpandProgram ω Bool).exec s = (some true, skipped 1 s) := by
  rcases readLine_cases s with ⟨hnil, -⟩ | ⟨_, _, _, _, _, -, -, hexec, -⟩
  · rw [h] at hnil
    exact absurd hnil (List.cons_ne_nil _ _)
  · rw [skipped_one, final, hexec]

/-- What reading lines leaves alone. -/
theorem skipped_one_eq (s : ExpandState ω) : ∃ (line : Text) (lijstp : List BodyLine)
    (source : List Text) (pos : List TextFilePos), pos.length = s.sourcePosStack.length ∧
      skipped 1 s = { s with
        line := line, lijstp := lijstp, source := source, sourcePosStack := pos } := by
  rw [skipped_one, final]
  rcases readLine_cases s with ⟨-, hexec⟩ | ⟨line, _, lijstp, source, pos, hdepth, -, hexec, -⟩
  · exact ⟨s.line, s.lijstp, s.source, s.sourcePosStack, rfl, by rw [hexec]⟩
  · exact ⟨line, lijstp, source, pos, hdepth, by rw [hexec]⟩

@[simp] theorem repeatStack_skipped_one (s : ExpandState ω) :
    (skipped 1 s).repeatStack = s.repeatStack := by
  obtain ⟨_, _, _, _, -, h⟩ := skipped_one_eq s
  rw [h]

theorem line_skipped_one (h : upcoming s = line :: rest) : (skipped 1 s).line = line := by
  rw [skipped_one, final]
  rcases readLine_cases s with ⟨hnil, -⟩ | ⟨_, _, _, _, _, -, hcons, hexec, -⟩
  · rw [h] at hnil
    exact absurd hnil (List.cons_ne_nil _ _)
  · rw [hexec]
    exact (List.cons.inj (h.symm.trans hcons)).1.symm

theorem upcoming_skipped_one (h : upcoming s = line :: rest) : upcoming (skipped 1 s) = rest := by
  rw [skipped_one, final]
  rcases readLine_cases s with ⟨hnil, -⟩ | ⟨_, _, _, _, _, -, hcons, hexec, hrest⟩
  · rw [h] at hnil
    exact absurd hnil (List.cons_ne_nil _ _)
  · rw [hexec, hrest]
    exact (List.cons.inj (h.symm.trans hcons)).2.symm

theorem upcoming_skipped (h : upcoming s = lines ++ rest) : upcoming (skipped lines.length s) = rest := by
  induction lines generalizing s with
  | nil => exact h
  | cons line lines ih =>
    rw [List.length_cons, Nat.add_comm, skipped_add]
    exact ih (upcoming_skipped_one h)

/-- Where lines are left, the assembly goes on. -/
theorem isRunning_of_cons (h : upcoming s = line :: rest) : s.isRunning = true := by
  by_contra hstopped
  rw [upcoming, if_pos (by simpa using hstopped)] at h
  exact absurd h (List.cons_ne_nil _ _).symm

end

/-! ### Nested text -/

/-- What a line is for `SkipFile`. -/
inductive LineKind
  | opens
  | ends (retVal : EReturn)
  | lua
  | plain
deriving DecidableEq, Repr

/-- The kind of a line, by the word behind a label. -/
def lineKind (isPseudoOpBOF : Bool) (line : Text) : LineKind :=
  let p := skippedKeyword isPseudoOpBOF line
  if startsIf p then .opens
  else
    match branchEnd p with
    | some retVal => .ends retVal
    | none => if (cmphstr p "lua".toList).isSome then .lua else .plain

/-- The last line of a Lua block. -/
def isEndlua (line : Text) : Bool := (cmphstr (skipBlanks line) "endlua".toList).isSome

/-- Well nested lines.  Lines between an `IF` and its `ENDIF` (`inner`) may be in several branches. -/
inductive NestedLines (isPseudoOpBOF : Bool) : Bool → List Text → Prop
  | nil {inner : Bool} : NestedLines isPseudoOpBOF inner []
  | plain {inner : Bool} {line : Text} {lines : List Text}
      (hline : lineKind isPseudoOpBOF line = .plain) (h : NestedLines isPseudoOpBOF inner lines) :
      NestedLines isPseudoOpBOF inner (line :: lines)
  | lua {inner : Bool} {line last : Text} {block lines : List Text}
      (hline : lineKind isPseudoOpBOF line = .lua) (hblock : ∀ l ∈ block, isEndlua l = false)
      (hlast : isEndlua last = true) (h : NestedLines isPseudoOpBOF inner lines) :
      NestedLines isPseudoOpBOF inner (line :: block ++ last :: lines)
  | branch {line : Text} {lines : List Text} {retVal : EReturn}
      (hline : lineKind isPseudoOpBOF line = .ends retVal) (hretVal : retVal ≠ .ENDIF)
      (h : NestedLines isPseudoOpBOF true lines) : NestedLines isPseudoOpBOF true (line :: lines)
  | chain {inner : Bool} {line last : Text} {block lines : List Text}
      (hline : lineKind isPseudoOpBOF line = .opens) (hblock : NestedLines isPseudoOpBOF true block)
      (hlast : lineKind isPseudoOpBOF last = .ends .ENDIF)
      (h : NestedLines isPseudoOpBOF inner lines) :
      NestedLines isPseudoOpBOF inner (line :: block ++ last :: lines)

/-- What is left of a chain behind a body: the `ENDIF`, or more branches. -/
inductive IfTail
  | endif (line : Text)
  | otherwise (line : Text) (body : List Text) (last : Text)
  | elseif (line : Text) (body : List Text) (tail : IfTail)

namespace IfTail

/-- The lines. -/
def lines : IfTail → List Text
  | endif line => [line]
  | otherwise line body last => line :: body ++ [last]
  | elseif line body tail => line :: body ++ tail.lines

/-- The keyword of the first line. -/
def keyword : IfTail → EReturn
  | endif _ => .ENDIF
  | otherwise .. => .ELSE
  | elseif .. => .ELSEIF

/-- The lines with the keywords are what they should be, and the bodies are well nested. -/
def WellFormed (isPseudoOpBOF : Bool) : IfTail → Prop
  | endif line => lineKind isPseudoOpBOF line = .ends .ENDIF
  | otherwise line body last => lineKind isPseudoOpBOF line = .ends .ELSE ∧
      NestedLines isPseudoOpBOF false body ∧ lineKind isPseudoOpBOF last = .ends .ENDIF
  | elseif line body tail => lineKind isPseudoOpBOF line = .ends .ELSEIF ∧
      NestedLines isPseudoOpBOF false body ∧ tail.WellFormed isPseudoOpBOF

end IfTail

/-- What stands behind the line of an `IF`. -/
structure IfChain (isPseudoOpBOF : Bool) where
  body : List Text
  tail : IfTail
  nested : NestedLines isPseudoOpBOF false body
  wellFormed : tail.WellFormed isPseudoOpBOF

/-- The lines of a chain. -/
def IfChain.lines {isPseudoOpBOF : Bool} (chain : IfChain isPseudoOpBOF) : List Text :=
  chain.body ++ chain.tail.lines

/-! ### Branches that are skipped -/

section

variable {isPseudoOpBOF : Bool} {fuel : Nat} {s : ExpandState ω} {line : Text}
  {lines rest : List Text}

/-- A turn of `SkipFile`, by the kind of its line. -/
theorem exec_skipFileTurn (isPseudoOpBOF : Bool) (fuel : Nat) (h : upcoming s = line :: rest)
    (iflevel : Nat) :
    (skipFileTurn isPseudoOpBOF fuel iflevel : ExpandProgram ω _).exec s =
      (match lineKind isPseudoOpBOF line with
        | .opens => pure (.inl (iflevel + 1))
        | .ends .ENDIF => pure (if iflevel ≠ 0 then .inl (iflevel - 1) else .inr .ENDIF)
        | .ends retVal => pure (if iflevel ≠ 0 then .inl iflevel else .inr retVal)
        | .lua => do
          skipUntil isEndlua fuel
          pure (.inl iflevel)
        | .plain => pure (.inl iflevel) : ExpandProgram ω (Nat ⊕ EReturn)).exec (skipped 1 s) := by
  rw [skipFileTurn, exec_bind_of_some (exec_readLine_of_cons h), if_pos rfl,
    exec_bind_of_some (exec_get _), line_skipped_one h, lineKind]
  dsimp only
  -- in the order of the source: an opening, an end of a branch, a Lua block
  by_cases hopens : startsIf (skippedKeyword isPseudoOpBOF line) = true
  · rw [if_pos hopens, if_pos hopens]
  · rw [if_neg hopens, if_neg hopens]
    rcases branchEnd (skippedKeyword isPseudoOpBOF line) with _ | retVal
    · by_cases hlua : (cmphstr (skippedKeyword isPseudoOpBOF line) "lua".toList).isSome = true
      · simp only [hlua, when, if_true]
        rfl
      · simp only [hlua, when]
        rfl
    · cases retVal <;> rfl

/-- The rest of a Lua block. -/
theorem exec_skipUntil {last : Text} (hlines : ∀ l ∈ lines, isEndlua l = false)
    (hlast : isEndlua last = true) (h : upcoming s = lines ++ last :: rest)
    (hfuel : lines.length < fuel) :
    (skipUntil isEndlua fuel : ExpandProgram ω Unit).exec s = (some (), skipped (lines.length + 1) s) := by
  induction lines generalizing s fuel with
  | nil =>
    obtain ⟨fuel, rfl⟩ : ∃ k, fuel = k + 1 := ⟨fuel - 1, by simp at hfuel; omega⟩
    rw [skipUntil, loop, exec_bind, exec_bind_of_some (exec_readLine_of_cons h), if_pos rfl,
      exec_bind_of_some (exec_get _), line_skipped_one h, if_pos hlast]
    rfl
  | cons line lines ih =>
    rw [List.forall_mem_cons] at hlines
    obtain ⟨fuel, rfl⟩ : ∃ k, fuel = k + 1 := ⟨fuel - 1, by simp at hfuel; omega⟩
    have hrest := ih hlines.2 (upcoming_skipped_one h) (show lines.length < fuel by simpa using hfuel)
    rw [skipUntil, loop, exec_bind, exec_bind_of_some (exec_readLine_of_cons h), if_pos rfl,
      exec_bind_of_some (exec_get _), line_skipped_one h, if_neg (by simp [hlines.1])]
    rw [List.length_cons, Nat.add_right_comm, Nat.add_comm (lines.length + 1) 1, skipped_add]
    exact hrest

/-- Over well nested lines `SkipFile` gets back to its level. -/
theorem turns_skipFile {inner : Bool} (hnested : NestedLines isPseudoOpBOF inner lines)
    (iflevel : Nat) (hlevel : inner = true → iflevel ≠ 0) (h : upcoming s = lines ++ rest)
    (hfuel : lines.length < fuel) : ∃ n ≤ lines.length,
      TurnsIn (skipFileTurn isPseudoOpBOF fuel : Nat → ExpandProgram ω (Nat ⊕ EReturn)) (iflevel, s) n
        (iflevel, skipped lines.length s) := by
  induction hnested generalizing iflevel s rest with
  | nil => exact ⟨0, Nat.le_refl 0, .zero⟩
  | @plain inner line lines hline _ ih =>
    have hturn := exec_skipFileTurn isPseudoOpBOF fuel h iflevel
    rw [hline] at hturn
    dsimp only at hturn
    rw [exec_pure] at hturn
    obtain ⟨n, hn, hturns⟩ := ih iflevel hlevel (upcoming_skipped_one h) (by simp at hfuel; omega)
    refine ⟨n + 1, by simpa using hn, ?_⟩
    rw [List.length_cons, Nat.add_comm lines.length 1, skipped_add]
    exact TurnsIn.cons hturn hturns
  | @lua inner line last block lines hline hblock hlast _ ih =>
    simp only [List.cons_append, List.append_assoc] at h
    simp only [List.cons_append, List.length_cons, List.length_append] at hfuel
    have hblocks := upcoming_skipped_one h
    have hturn := exec_skipFileTurn isPseudoOpBOF fuel h iflevel
    rw [hline] at hturn
    dsimp only at hturn
    rw [exec_bind_of_some (exec_skipUntil hblock hlast hblocks (by omega)), exec_pure] at hturn
    have hlines : upcoming (skipped (block.length + 1) (skipped 1 s)) = lines ++ rest := by
      rw [skipped_add]
      exact upcoming_skipped_one (upcoming_skipped hblocks)
    obtain ⟨n, hn, hturns⟩ := ih iflevel hlevel hlines (by omega)
    refine ⟨n + 1, by simp only [List.cons_append, List.length_cons, List.length_append]; omega, ?_⟩
    have hlength : (line :: block ++ last :: lines).length = 1 + ((block.length + 1) + lines.length) := by
      simp only [List.cons_append, List.length_cons, List.length_append]
      omega
    rw [hlength, skipped_add, skipped_add]
    exact TurnsIn.cons hturn hturns
  | @branch line lines retVal hline hretVal _ ih =>
    have hne : iflevel ≠ 0 := hlevel rfl
    have hturn := exec_skipFileTurn isPseudoOpBOF fuel h iflevel
    rw [hline] at hturn
    have hstay : (skipFileTurn isPseudoOpBOF fuel iflevel : ExpandProgram ω _).exec s
        = (some (.inl iflevel), skipped 1 s) := by
      rw [hturn]
      cases retVal with
      | ENDIF => exact absurd rfl hretVal
      | END | ELSE | ELSEIF =>
        dsimp only
        rw [if_pos hne, exec_pure]
    obtain ⟨n, hn, hturns⟩ := ih iflevel hlevel (upcoming_skipped_one h) (by simp at hfuel; omega)
    refine ⟨n + 1, by simpa using hn, ?_⟩
    rw [List.length_cons, Nat.add_comm lines.length 1, skipped_add]
    exact TurnsIn.cons hstay hturns
  | @chain inner line last block lines hline _ hlast _ ihblock ih =>
    simp only [List.cons_append, List.append_assoc] at h
    simp only [List.cons_append, List.length_cons, List.length_append] at hfuel
    have hblocks := upcoming_skipped_one h
    -- the inner chain is one level up
    have hfirst := exec_skipFileTurn isPseudoOpBOF fuel h iflevel
    rw [hline] at hfirst
    dsimp only at hfirst
    rw [exec_pure] at hfirst
    obtain ⟨k, hk, hinner⟩ := ihblock (iflevel + 1) (fun _ => Nat.succ_ne_zero iflevel) hblocks (by omega)
    -- and its last line goes back
    have hend := exec_skipFileTurn isPseudoOpBOF fuel
      (upcoming_skipped hblocks) (iflevel + 1)
    rw [hlast] at hend
    dsimp only at hend
    rw [if_pos (Nat.succ_ne_zero iflevel), Nat.add_sub_cancel, exec_pure] at hend
    have hlines := upcoming_skipped_one (upcoming_skipped hblocks)
    obtain ⟨n, hn, hturns⟩ := ih iflevel hlevel hlines (by omega)
    refine ⟨k + (n + 1) + 1, ?_, ?_⟩
    · simp only [List.cons_append, List.length_cons, List.length_append]
      omega
    · have hlength : (line :: block ++ last :: lines).length
          = 1 + (block.length + (1 + lines.length)) := by
        simp only [List.cons_append, List.length_cons, List.length_append]
        omega
      rw [hlength, skipped_add, skipped_add, skipped_add]
      exact TurnsIn.cons hfirst (hinner.trans (TurnsIn.cons hend hturns))

/-- `SkipFile` goes up to the line that ends a branch. -/
theorem exec_skipFile {retVal : EReturn} (hnested : NestedLines isPseudoOpBOF false lines)
    (hline : lineKind isPseudoOpBOF line = .ends retVal) (h : upcoming s = lines ++ line :: rest)
    (hfuel : lines.length < fuel) :
    (skipFile isPseudoOpBOF fuel : ExpandProgram ω EReturn).exec s
      = (some retVal, skipped (lines.length + 1) s) := by
  obtain ⟨n, hn, hturns⟩ := turns_skipFile hnested 0 nofun h hfuel
  have hend := exec_skipFileTurn isPseudoOpBOF fuel
    (upcoming_skipped h) 0
  rw [hline] at hend
  rw [skipped_add]
  apply exec_loop_of_end hturns _ (by omega)
  rw [hend]
  cases retVal <;> rfl

end

/-! ### What a chain is for -/

section

variable (parser : StatementParser ω) (parseLine : ExpandProgram ω Unit) (fuel : Nat)

/-- The condition of an `ELSEIF`. -/
def ifCondition : ExpandProgram ω (Option Bool) := do
  let val ← asks fun s => (parser.ifExpression s).1
  modify fun s => { s with log := s.log ++ (parser.ifExpression s).2 }
  pure val

/-- Go to the first body whose condition is true, and say what is left behind it.  A condition that cannot
be read ends the search. -/
def toTaken : Bool → List Text → IfTail → ExpandProgram ω (Option IfTail)
  | true, _, tail => pure (some tail)
  | false, body, .endif _ => do
    modify (skipped (body.length + 1))
    pure none
  | false, body, .otherwise _ _ last => do
    modify (skipped (body.length + 1))
    pure (some (.endif last))
  | false, body, .elseif _ body' tail => do
    modify (skipped (body.length + 1))
    match ← ifCondition parser with
    | some val => toTaken val body' tail
    | none => do
      modify (skipped (body'.length + tail.lines.length))
      pure none

/-- A turn over a body: its lines end where those behind it start. -/
def bodyTurn (behind : List Text) (keyword : EReturn) (_ : Unit) :
    ExpandProgram ω (Unit ⊕ EReturn) := do
  let s ← get
  if !s.isRunning then pure (.inr .END)
  else do
    modify (skipped 1)
    if upcoming s = behind then pure (.inr keyword)
    else do
      parseLine
      pure (.inl ())

/-- Process the lines of a body. -/
def assembleBody (behind : List Text) (keyword : EReturn) : ExpandProgram ω EReturn :=
  loop (bodyTurn parseLine behind keyword) fuel ()

/-- What a chain is for, with the lines behind it. -/
def assembleChain (rest : List Text) (val : Bool) (body : List Text) (tail : IfTail) :
    ExpandProgram ω Unit := do
  match ← toTaken parser val body tail with
  | none => pure ()
  | some tail => do
    let ret ← assembleBody parseLine fuel (tail.lines ++ rest) tail.keyword
    when (ret ≠ .END) <| modify (skipped (tail.lines.length - 1))

/-! ### The branch that is taken -/

/-- The keyword that `ReadFile` sees in the next line. -/
def keywordSeen (s : ExpandState ω) : Option EReturn :=
  if collectsLines s then none
  else (upcoming s).head?.bind fun line => branchEnd (skipDot (skipBlanks line))

/-- From here, wherever `ReadFile` gets while the assembly goes on, no line behind the body was read, and
it sees a keyword exactly in the line that ends the branch. -/
def SeesKeywords (behind : List Text) (keyword : EReturn) (s : ExpandState ω) : Prop :=
  ∀ n y, TurnsIn (readFileTurn parseLine) ((), s) n y → y.2.isRunning = true →
    behind <:+ upcoming y.2 ∧
      keywordSeen y.2 = if upcoming y.2 = behind then some keyword else none

/-- From here, wherever `ReadFile` gets, no line behind the body was read, and it processes a line of the
body, or ends with the keyword of the line behind it. -/
def AssemblesBody (behind : List Text) (keyword : EReturn) (s : ExpandState ω) : Prop :=
  ∀ n y, TurnsIn (readFileTurn parseLine) ((), s) n y →
    (y.2.isRunning = true → behind <:+ upcoming y.2) ∧
      (readFileTurn parseLine ()).exec y.2 = (bodyTurn parseLine behind keyword ()).exec y.2

end

section

variable {parser : StatementParser ω} {parseLine : ExpandProgram ω Unit} {fuel : Nat}
  {behind rest : List Text} {keyword : EReturn} {s : ExpandState ω}

@[simp] theorem collectsLines_skipped_one (s : ExpandState ω) :
    collectsLines (skipped 1 s) = collectsLines s := by
  rw [collectsLines, collectsLines, repeatStack_skipped_one]

theorem exec_ifCondition (s : ExpandState ω) : (ifCondition parser).exec s
    = (some (parser.ifExpression s).1, { s with log := s.log ++ (parser.ifExpression s).2 }) := rfl

/-- A turn of `ReadFile` where there is a line. -/
theorem exec_readFileTurn {line : Text} {lines : List Text} (h : upcoming s = line :: lines) :
    (readFileTurn parseLine ()).exec s =
      (match keywordSeen s with
        | some retVal => pure (.inr retVal)
        | none => do
          parseLine
          pure (.inl ()) : ExpandProgram ω (Unit ⊕ EReturn)).exec (skipped 1 s) := by
  -- the keyword is looked for in the line, unless a definition collects it
  have hseen : (if collectsLines (skipped 1 s) then none
      else branchEnd (skipDot (skipBlanks (skipped 1 s).line))) = keywordSeen s := by
    rw [keywordSeen, collectsLines_skipped_one, line_skipped_one h, h]
    rfl
  rw [readFileTurn, exec_bind_of_some (exec_readLine_of_cons h), if_pos rfl,
    exec_bind_of_some (exec_get _)]
  show (match if collectsLines (skipped 1 s) then none
      else branchEnd (skipDot (skipBlanks (skipped 1 s).line)) with
    | some retVal => pure (.inr retVal)
    | none => do
      parseLine
      pure (.inl ()) : ExpandProgram ω (Unit ⊕ EReturn)).exec (skipped 1 s) = _
  rw [hseen]

/-- A turn of `ReadFile` when the assembly has ended. -/
theorem exec_readFileTurn_of_stopped (h : s.isRunning = false) :
    (readFileTurn parseLine ()).exec s = (some (.inr .END), s) := by
  have hnil : upcoming s = [] := by rw [upcoming, h]; rfl
  rw [readFileTurn, exec_bind_of_some (exec_readLine_of_nil hnil)]
  rfl

theorem exec_bodyTurn_of_stopped (h : s.isRunning = false) :
    (bodyTurn parseLine behind keyword ()).exec s = (some (.inr .END), s) := by
  rw [bodyTurn, exec_bind_of_some (exec_get s), h]
  rfl

theorem exec_bodyTurn (h : s.isRunning = true) : (bodyTurn parseLine behind keyword ()).exec s =
    (if upcoming s = behind then pure (.inr keyword)
      else do
        parseLine
        pure (.inl ()) : ExpandProgram ω (Unit ⊕ EReturn)).exec (skipped 1 s) := by
  rw [bodyTurn, exec_bind_of_some (exec_get s), h]
  rfl

/-- Processing a line gives no keyword. -/
theorem exec_process_ne (retVal : EReturn) (t : ExpandState ω) :
    (do
      parseLine
      pure (.inl ()) : ExpandProgram ω (Unit ⊕ EReturn)).exec s ≠ (some (.inr retVal), t) := by
  intro h
  rw [exec_bind] at h
  rcases hexec : parseLine.exec s with ⟨_ | _, u⟩
  · simp [hexec] at h
  · simp [hexec] at h

/-- A turn does what it should exactly when the keyword is seen where it should be. -/
theorem turn_eq_iff {line : Text} {lines : List Text} (h : upcoming s = line :: lines) :
    (readFileTurn parseLine ()).exec s = (bodyTurn parseLine behind keyword ()).exec s ↔
      keywordSeen s = if upcoming s = behind then some keyword else none := by
  rw [exec_readFileTurn h, exec_bodyTurn (isRunning_of_cons h)]
  by_cases hbehind : upcoming s = behind
  · rw [if_pos hbehind, if_pos hbehind]
    rcases keywordSeen s with _ | retVal
    · exact iff_of_false (exec_process_ne keyword _) nofun
    · simp
  · rw [if_neg hbehind, if_neg hbehind]
    rcases keywordSeen s with _ | retVal
    · simp
    · exact iff_of_false (fun heq => exec_process_ne retVal _ heq.symm) nofun

/-- `ReadFile` processes a body exactly when it sees the keywords where they are. -/
theorem assemblesBody_iff (hbehind : behind ≠ []) :
    AssemblesBody parseLine behind keyword s ↔ SeesKeywords parseLine behind keyword s := by
  -- there is always the line of the keyword left, so that a turn reads a line
  have hcons {u : ExpandState ω} (hsuffix : behind <:+ upcoming u) :
      ∃ line lines, upcoming u = line :: lines := by
    apply List.exists_cons_of_ne_nil
    rintro hnil
    rw [hnil, List.suffix_nil] at hsuffix
    exact hbehind hsuffix
  constructor
  · intro h n y hturns hrunning
    obtain ⟨hsuffix, hturn⟩ := h n y hturns
    obtain ⟨line, lines, hline⟩ := hcons (hsuffix hrunning)
    exact ⟨hsuffix hrunning, (turn_eq_iff hline).mp hturn⟩
  · intro h n y hturns
    by_cases hrunning : y.2.isRunning = true
    · obtain ⟨hsuffix, hseen⟩ := h n y hturns hrunning
      obtain ⟨line, lines, hline⟩ := hcons hsuffix
      exact ⟨fun _ => hsuffix, (turn_eq_iff hline).mpr hseen⟩
    · have hstopped : y.2.isRunning = false := by simpa using hrunning
      refine ⟨fun hrunning' => absurd hrunning' hrunning, ?_⟩
      rw [exec_readFileTurn_of_stopped hstopped, exec_bodyTurn_of_stopped hstopped]

/-- What `ReadFile` makes of a body that it processes. -/
theorem exec_readFile (h : AssemblesBody parseLine behind keyword s) :
    (readFile parseLine fuel).exec s = (assembleBody parseLine fuel behind keyword).exec s :=
  exec_loop_of_agree (x := ((), s)) (fun n y hy => (h n y hy).2) fuel

/-- A body that is processed ends with the assembly, or in front of the lines behind its last line. -/
theorem ensures_readFile (fuel : Nat) (h : AssemblesBody parseLine behind keyword s) :
    Ensures (readFile parseLine fuel) s fun ret t =>
      (ret = .END ∧ t.isRunning = false) ∨ (ret = keyword ∧ upcoming t = behind.tail) := by
  intro ret t hexec
  -- the turn that ended the loop, which the bodies of the chain describe
  obtain ⟨n, y, hturns, hend⟩ := turns_of_exec_loop (x := ((), s)) hexec
  obtain ⟨hsuffix, hturn⟩ := h n y hturns
  rw [hturn] at hend
  -- it found the keyword, or the assembly had ended
  by_cases hrunning : y.2.isRunning = true
  · rw [exec_bodyTurn hrunning] at hend
    by_cases hbehind : upcoming y.2 = behind
    · rw [if_pos hbehind, exec_pure, Prod.mk.injEq, Option.some_inj, Sum.inr.injEq] at hend
      right
      refine ⟨hend.1.symm, ?_⟩
      rw [← hend.2]
      rcases hlines : upcoming y.2 with _ | ⟨line, lines⟩
      · rw [skipped_one, final, exec_readLine_of_nil hlines, ← hbehind, hlines]
        rfl
      · rw [upcoming_skipped_one hlines, ← hbehind, hlines]
        rfl
    · rw [if_neg hbehind] at hend
      exact absurd hend (exec_process_ne ret t)
  · have hstopped : y.2.isRunning = false := by simpa using hrunning
    rw [exec_bodyTurn_of_stopped hstopped, Prod.mk.injEq, Option.some_inj, Sum.inr.injEq] at hend
    left
    exact ⟨hend.1.symm, hend.2 ▸ hstopped⟩

end

/-! ### The turns of `dirIfInternal` -/

/-- How many lines with a keyword are left. -/
def IfTail.branches : IfTail → Nat
  | endif _ => 1
  | otherwise .. => 2
  | elseif _ _ tail => tail.branches + 1

theorem IfTail.branches_le (tail : IfTail) : tail.branches ≤ tail.lines.length := by
  induction tail with
  | endif line => exact Nat.le_refl 1
  | otherwise line body last => simp [branches, lines]
  | elseif line body tail ih =>
    simp only [branches, lines, List.cons_append, List.length_cons, List.length_append]
    omega

theorem IfTail.lines_ne_nil (tail : IfTail) (rest : List Text) : tail.lines ++ rest ≠ [] := by
  cases tail <;> simp [lines]

section

variable {parser : StatementParser ω} {parseLine : ExpandProgram ω Unit} {fuel n : Nat}
  {dirName : String} {s : ExpandState ω} {body rest : List Text} {tail : IfTail}

/-- A turn that skips its branch. -/
theorem exec_ifTurn_of_skipped (parseLine : ExpandProgram ω Unit) (dirName : String) {line : Text}
    {lines : List Text} {retVal : EReturn} (hnested : NestedLines parser.isPseudoOpBOF false body)
    (hline : lineKind parser.isPseudoOpBOF line = .ends retVal)
    (h : upcoming s = body ++ line :: lines) (hfuel : body.length < fuel) (orVal : Bool)
    (elseCounter : Nat) :
    (ifTurn parser parseLine fuel dirName ⟨false, orVal, elseCounter⟩).exec s =
      (match retVal with
        | .ELSE => do
          when (elseCounter ≠ 0) <| reportError ("[" ++ dirName ++ "] one ELSE only expected")
          pure (.inl ⟨!orVal, orVal, elseCounter + 1⟩)
        | .ELSEIF =>
          if !orVal then do
            let state ← elseifValue parser ⟨!orVal, orVal, elseCounter⟩
            pure (.inl state)
          else pure (.inl ⟨!orVal, orVal, elseCounter⟩)
        | .ENDIF => pure (.inr ())
        | .END => do
          let isRunning ← asks fun s => s.isRunning
          when isRunning <| reportError ("[" ++ dirName ++ "] No ENDIF")
          pure (.inr ()) : ExpandProgram ω (IfState ⊕ Unit)).exec (skipped (body.length + 1) s) := by
  have hskip := exec_skipFile (ω := ω) hnested hline h hfuel
  rw [ifTurn]
  simp only [readBranch, Bool.or_false, Bool.not_false, Bool.true_and, Bool.false_eq_true, if_false]
  -- the branch is skipped up to its keyword, which decides what comes next
  rw [exec_bind_of_some hskip]
  cases retVal <;> rfl

/-- The last branch is skipped. -/
theorem exec_ifLoop_endif {line : Text} (hnested : NestedLines parser.isPseudoOpBOF false body)
    (hline : lineKind parser.isPseudoOpBOF line = .ends .ENDIF) (h : upcoming s = body ++ line :: rest)
    (hfuel : body.length < fuel) (hn : 1 ≤ n) (orVal : Bool) (elseCounter : Nat) :
    (loop (ifTurn parser parseLine fuel dirName) n ⟨false, orVal, elseCounter⟩).exec s
      = (some (), skipped (body.length + 1) s) := by
  obtain ⟨n, rfl⟩ : ∃ k, n = k + 1 := ⟨n - 1, by omega⟩
  have hturn := exec_ifTurn_of_skipped parseLine dirName hnested hline h
    hfuel orVal elseCounter
  dsimp only at hturn
  rw [exec_pure] at hturn
  rw [loop, exec_bind_of_some hturn]
  rfl

/-- All branches are skipped once one was taken. -/
theorem exec_ifLoop_skipped (hnested : NestedLines parser.isPseudoOpBOF false body)
    (htail : tail.WellFormed parser.isPseudoOpBOF) (h : upcoming s = body ++ (tail.lines ++ rest))
    (hfuel : (body ++ tail.lines).length < fuel) (hn : tail.branches ≤ n) :
    (loop (ifTurn parser parseLine fuel dirName) n ⟨false, true, 0⟩).exec s
      = (some (), skipped (body.length + tail.lines.length) s) := by
  -- by induction on the rest of the chain, one keyword a turn; `orVal` skips every branch
  induction tail generalizing body s n with
  | endif line =>
    exact exec_ifLoop_endif hnested htail h (by simp at hfuel; omega) hn true 0
  | otherwise line body' last =>
    obtain ⟨hline, hnested', hlast⟩ := htail
    simp only [IfTail.lines, List.cons_append, List.append_assoc, List.nil_append] at h
    simp only [IfTail.lines, List.length_append, List.length_cons, List.length_nil] at hfuel
    obtain ⟨n, rfl⟩ : ∃ k, n = k + 1 := ⟨n - 1, by simp [IfTail.branches] at hn; omega⟩
    have hturn := exec_ifTurn_of_skipped parseLine dirName hnested hline h
      (show body.length < fuel by omega) true 0
    dsimp only at hturn
    have hrest : upcoming (skipped (body.length + 1) s) = body' ++ last :: rest := by
      rw [skipped_add]
      exact upcoming_skipped_one (upcoming_skipped h)
    rw [loop, exec_bind, hturn]
    simp only [when, ne_eq, not_true_eq_false, if_false]
    show (loop (ifTurn parser parseLine fuel dirName) n ⟨false, true, 1⟩).exec _ = _
    have hlength : body.length + (IfTail.otherwise line body' last).lines.length
        = body.length + 1 + (body'.length + 1) := by
      simp only [IfTail.lines, List.length_append, List.length_cons, List.length_nil]
      omega
    -- the branch of the `ELSE` is skipped up to the `ENDIF`
    rw [exec_ifLoop_endif hnested' hlast hrest (by omega) (by simp [IfTail.branches] at hn; omega),
      hlength, skipped_add (body.length + 1)]
  | elseif line body' tail ih =>
    obtain ⟨hline, hnested', htail'⟩ := htail
    simp only [IfTail.lines, List.cons_append, List.append_assoc] at h
    simp only [IfTail.lines, List.length_append, List.length_cons] at hfuel
    obtain ⟨n, rfl⟩ : ∃ k, n = k + 1 := ⟨n - 1, by simp [IfTail.branches] at hn; omega⟩
    have hturn := exec_ifTurn_of_skipped parseLine dirName hnested hline h
      (show body.length < fuel by omega) true 0
    dsimp only at hturn
    have hrest : upcoming (skipped (body.length + 1) s) = body' ++ (tail.lines ++ rest) := by
      rw [skipped_add]
      exact upcoming_skipped_one (upcoming_skipped h)
    rw [loop, exec_bind, hturn]
    show (loop (ifTurn parser parseLine fuel dirName) n ⟨false, true, 0⟩).exec _ = _
    have hlength : body.length + (IfTail.elseif line body' tail).lines.length
        = body.length + 1 + (body'.length + tail.lines.length) := by
      simp only [IfTail.lines, List.length_append, List.length_cons]
      omega
    -- the condition of an `ELSEIF` is not read any more
    rw [ih hnested' htail' hrest (by rw [List.length_append]; omega)
      (by simpa [IfTail.branches] using hn), hlength, skipped_add (body.length + 1)]

/-- The state behind a condition. -/
def evaluated (parser : StatementParser ω) (s : ExpandState ω) : ExpandState ω :=
  { s with log := s.log ++ (parser.ifExpression s).2 }

theorem exec_elseifValue (elseCounter : Nat) (s : ExpandState ω) :
    (elseifValue parser ⟨true, false, elseCounter⟩).exec s =
      (some (match (parser.ifExpression s).1 with
        | some val => ⟨val, false, elseCounter⟩
        | none => ⟨false, true, elseCounter⟩), evaluated parser s) := by
  rw [elseifValue, exec_bind_of_some (exec_asks _ s), exec_bind_of_some (exec_modify _ s)]
  rcases (parser.ifExpression s).1 with _ | val
  · rfl
  · rfl

/-- The search goes on with the condition of an `ELSEIF`. -/
theorem exec_toTaken_elseif (line : Text) (body body' : List Text) (s : ExpandState ω) :
    (toTaken parser false body (.elseif line body' tail)).exec s =
      match (parser.ifExpression (skipped (body.length + 1) s)).1 with
      | some val =>
        (toTaken parser val body' tail).exec (evaluated parser (skipped (body.length + 1) s))
      | none => (some none, skipped (body'.length + tail.lines.length)
          (evaluated parser (skipped (body.length + 1) s))) := by
  rw [toTaken, exec_bind_of_some (exec_modify _ s), exec_bind_of_some (exec_ifCondition _)]
  rcases (parser.ifExpression (skipped (body.length + 1) s)).1 with _ | val
  · rfl
  · rfl

/-- A turn that processes its branch. -/
theorem exec_ifTurn_of_taken (dirName : String) {keyword : EReturn} {behind : List Text}
    (h : AssemblesBody parseLine behind keyword s) (orVal : Bool) (elseCounter : Nat) :
    (ifTurn parser parseLine fuel dirName ⟨true, orVal, elseCounter⟩).exec s =
      (do
        match ← assembleBody parseLine fuel behind keyword with
        | .ELSE => do
          when (elseCounter ≠ 0) <| reportError ("[" ++ dirName ++ "] one ELSE only expected")
          pure (.inl ⟨false, true, elseCounter + 1⟩)
        | .ELSEIF => pure (.inl ⟨false, true, elseCounter⟩)
        | .ENDIF => pure (.inr ())
        | .END => do
          let isRunning ← asks fun s => s.isRunning
          when isRunning <| reportError ("[" ++ dirName ++ "] No ENDIF")
          pure (.inr ()) : ExpandProgram ω (IfState ⊕ Unit)).exec s := by
  have hread : (readFile parseLine fuel).exec s = _ := exec_readFile h
  rw [ifTurn]
  simp only [readBranch, Bool.or_true, Bool.not_true, Bool.false_and, if_true]
  rw [exec_bind, exec_bind, hread]
  -- the body may end the assembly; else its keyword decides
  rcases (assembleBody parseLine fuel behind keyword).exec s with ⟨_ | ret, t⟩
  · rfl
  · cases ret <;> rfl

/-- Once a branch is processed, the others are skipped. -/
theorem exec_ifLoop_taken (htail : tail.WellFormed parser.isPseudoOpBOF)
    (h : AssemblesBody parseLine (tail.lines ++ rest) tail.keyword s)
    (hfuel : tail.lines.length < fuel) (hn : tail.branches ≤ n) {elseCounter : Nat}
    (hcounter : elseCounter = 0 ∨ tail.keyword = .ENDIF) (orVal : Bool) :
    (loop (ifTurn parser parseLine fuel dirName) n ⟨true, orVal, elseCounter⟩).exec s =
      (do
        let ret ← assembleBody parseLine fuel (tail.lines ++ rest) tail.keyword
        when (ret ≠ .END) <| modify (skipped (tail.lines.length - 1)) : ExpandProgram ω Unit).exec s := by
  obtain ⟨n, rfl⟩ : ∃ k, n = k + 1 := by
    cases tail <;> simp only [IfTail.branches] at hn <;> exact ⟨n - 1, by omega⟩
  have hensures := ensures_readFile fuel h
  rw [loop, exec_bind, exec_ifTurn_of_taken dirName h, exec_bind, exec_bind]
  rw [Ensures, exec_readFile h] at hensures
  rcases hexec : (assembleBody parseLine fuel (tail.lines ++ rest) tail.keyword).exec s
    with ⟨_ | ret, t⟩
  · rfl
  · rcases hensures ret t hexec with ⟨rfl, hstopped⟩ | ⟨rfl, hlines⟩
    · -- the assembly has ended
      dsimp only
      rw [exec_bind_of_some (exec_asks _ t), hstopped]
      rfl
    -- the keyword behind the body: what follows it is skipped
    · cases tail with
      | endif line => rfl
      | otherwise line body last =>
        obtain ⟨hline, hnested, hlast⟩ := htail
        obtain rfl : elseCounter = 0 := hcounter.resolve_right fun hend => by cases hend
        simp only [IfTail.lines, List.length_cons, List.length_append, List.length_nil] at hfuel
        have hrest : upcoming t = body ++ last :: rest := by simpa [IfTail.lines] using hlines
        have hlength : (IfTail.otherwise line body last).lines.length - 1 = body.length + 1 := by
          simp [IfTail.lines]
        show (loop (ifTurn parser parseLine fuel dirName) n ⟨false, true, 1⟩).exec t = _
        rw [exec_ifLoop_endif hnested hlast hrest (by omega) (by simp [IfTail.branches] at hn; omega),
          hlength]
        rfl
      | elseif line body tail =>
        obtain ⟨hline, hnested, htail'⟩ := htail
        obtain rfl : elseCounter = 0 := hcounter.resolve_right fun hend => by cases hend
        simp only [IfTail.lines, List.cons_append, List.length_cons] at hfuel
        have hrest : upcoming t = body ++ (tail.lines ++ rest) := by simpa [IfTail.lines] using hlines
        have hlength : (IfTail.elseif line body tail).lines.length - 1
            = body.length + tail.lines.length := by
          simp [IfTail.lines]
        show (loop (ifTurn parser parseLine fuel dirName) n ⟨false, true, 0⟩).exec t = _
        rw [exec_ifLoop_skipped hnested htail' hrest (by omega) (by simpa [IfTail.branches] using hn),
          hlength]
        rfl

/-- The loop over the branches is what the chain is for, where the branch that is taken is processed as it
should be. -/
theorem exec_ifLoop (hnested : NestedLines parser.isPseudoOpBOF false body)
    (htail : tail.WellFormed parser.isPseudoOpBOF) (h : upcoming s = body ++ (tail.lines ++ rest))
    (hfuel : (body ++ tail.lines).length < fuel) (hn : tail.branches ≤ n) (val : Bool)
    (htaken : ∀ tail' t, (toTaken parser val body tail).exec s = (some (some tail'), t) →
      AssemblesBody parseLine (tail'.lines ++ rest) tail'.keyword t) :
    (loop (ifTurn parser parseLine fuel dirName) n ⟨val, false, 0⟩).exec s
      = (assembleChain parser parseLine fuel rest val body tail).exec s := by
  -- by induction on the rest of the chain: a false condition moves on to the next branch
  induction tail generalizing val body s n with
  | endif line =>
    cases val with
    | true =>
      rw [exec_ifLoop_taken htail (htaken _ s rfl) (by simp at hfuel; omega) hn (.inl rfl)]
      rfl
    | false =>
      rw [exec_ifLoop_endif hnested htail h (by simp at hfuel; omega) hn]
      rfl
  | otherwise line body' last =>
    cases val with
    | true =>
      rw [exec_ifLoop_taken htail (htaken _ s rfl) (by simp at hfuel; omega) hn (.inl rfl)]
      rfl
    | false =>
      obtain ⟨hline, hnested', hlast⟩ := htail
      simp only [IfTail.lines, List.cons_append, List.append_assoc, List.nil_append] at h
      simp only [IfTail.lines, List.length_append, List.length_cons, List.length_nil] at hfuel
      obtain ⟨n, rfl⟩ : ∃ k, n = k + 1 := ⟨n - 1, by simp [IfTail.branches] at hn; omega⟩
      have hturn := exec_ifTurn_of_skipped parseLine dirName hnested hline h
        (show body.length < fuel by omega) false 0
      dsimp only at hturn
      rw [loop, exec_bind, hturn]
      -- no condition was true, so that the branch of the `ELSE` is taken
      show (loop (ifTurn parser parseLine fuel dirName) n ⟨true, false, 1⟩).exec _ = _
      rw [exec_ifLoop_taken (show (IfTail.endif last).WellFormed _ from hlast) (htaken _ _ rfl) _ _ (.inr rfl)]
      · rfl
      · simp only [IfTail.lines, List.length_cons, List.length_nil]
        omega
      · simpa [IfTail.branches] using hn
  | elseif line body' tail ih =>
    cases val with
    | true =>
      rw [exec_ifLoop_taken htail (htaken _ s rfl) (by simp at hfuel; omega) hn (.inl rfl)]
      rfl
    | false =>
      obtain ⟨hline, hnested', htail'⟩ := htail
      simp only [IfTail.lines, List.cons_append, List.append_assoc] at h
      simp only [IfTail.lines, List.length_append, List.length_cons] at hfuel
      obtain ⟨n, rfl⟩ : ∃ k, n = k + 1 := ⟨n - 1, by simp [IfTail.branches] at hn; omega⟩
      have hturn := exec_ifTurn_of_skipped parseLine dirName hnested hline h
        (show body.length < fuel by omega) false 0
      dsimp only at hturn
      have hrest : upcoming (skipped (body.length + 1) s) = body' ++ (tail.lines ++ rest) := by
        rw [skipped_add]
        exact upcoming_skipped_one (upcoming_skipped h)
      rw [loop, exec_bind, hturn, assembleChain, exec_bind, exec_toTaken_elseif]
      rw [exec_toTaken_elseif] at htaken
      simp only [Bool.not_false, if_true]
      rw [exec_bind, exec_elseifValue]
      set u := skipped (body.length + 1) s
      have hrest' : upcoming (evaluated parser u) = body' ++ (tail.lines ++ rest) := hrest
      -- the condition of the `ELSEIF` takes the place of the first one
      rcases hval : (parser.ifExpression u).1 with _ | val
      · -- the condition cannot be read
        show (loop (ifTurn parser parseLine fuel dirName) n ⟨false, true, 0⟩).exec _ = _
        rw [exec_ifLoop_skipped hnested' htail' hrest' (by rw [List.length_append]; omega)
          (by simpa [IfTail.branches] using hn)]
        rfl
      · rw [hval] at htaken
        show (loop (ifTurn parser parseLine fuel dirName) n ⟨val, false, 0⟩).exec _ = _
        rw [ih hnested' htail' hrest' (by rw [List.length_append]; omega)
          (by simpa [IfTail.branches] using hn) val htaken, assembleChain, exec_bind]

/-- Where no branch is taken, all lines of the chain are read. -/
theorem ensures_toTaken (val : Bool) (h : upcoming s = body ++ (tail.lines ++ rest)) :
    Ensures (toTaken parser val body tail) s fun taken t => taken = none → upcoming t = rest := by
  -- by induction on the rest of the chain: a skipped branch is read up to its keyword
  induction tail generalizing val body s with
  | endif line =>
    cases val with
    | true => exact Ensures.pure nofun
    | false =>
      have hexec : (toTaken parser false body (.endif line)).exec s
          = (some none, skipped (body.length + 1) s) := rfl
      refine Ensures.of_exec hexec fun _ => ?_
      rw [skipped_add]
      exact upcoming_skipped_one (upcoming_skipped h)
  | otherwise line body' last =>
    cases val with
    | true => exact Ensures.pure nofun
    | false =>
      have hexec : (toTaken parser false body (.otherwise line body' last)).exec s
          = (some (some (.endif last)), skipped (body.length + 1) s) := rfl
      exact Ensures.of_exec hexec nofun
  | elseif line body' tail ih =>
    cases val with
    | true => exact Ensures.pure nofun
    | false =>
      simp only [IfTail.lines, List.cons_append, List.append_assoc] at h
      have hrest : upcoming (evaluated parser (skipped (body.length + 1) s))
          = body' ++ (tail.lines ++ rest) := by
        show upcoming (skipped (body.length + 1) s) = _
        rw [skipped_add]
        exact upcoming_skipped_one (upcoming_skipped h)
      intro taken t hexec
      rw [exec_toTaken_elseif] at hexec
      -- a condition that cannot be read skips all that is left
      rcases hval : (parser.ifExpression (skipped (body.length + 1) s)).1 with _ | val <;>
        rw [hval] at hexec
      · intro _
        obtain ⟨-, rfl⟩ := Prod.mk.inj hexec
        rw [skipped_add]
        exact upcoming_skipped (upcoming_skipped hrest)
      · exact ih val hrest taken t hexec

/-- The lines behind the chain are left. -/
theorem ensures_assembleChain (val : Bool) (h : upcoming s = body ++ (tail.lines ++ rest))
    (htaken : ∀ tail' t, (toTaken parser val body tail).exec s = (some (some tail'), t) →
      AssemblesBody parseLine (tail'.lines ++ rest) tail'.keyword t) :
    Ensures (assembleChain parser parseLine fuel rest val body tail) s fun _ t =>
      t.isRunning = true → upcoming t = rest := by
  have hsearch : Ensures (toTaken parser val body tail) s fun taken t =>
      (toTaken parser val body tail).exec s = (some taken, t) := fun _ _ hexec => hexec
  refine hsearch.bind fun taken t hexec => ?_
  -- no branch was taken, or one was: the body ends at its keyword
  cases taken with
  | none => exact Ensures.pure fun _ => ensures_toTaken val h none t hexec rfl
  | some tail' =>
    have hbody := htaken tail' t hexec
    have hread : Ensures (assembleBody parseLine fuel (tail'.lines ++ rest) tail'.keyword) t
        fun ret u => (ret = .END ∧ u.isRunning = false) ∨
          (ret = tail'.keyword ∧ upcoming u = (tail'.lines ++ rest).tail) := by
      rw [Ensures, ← exec_readFile hbody]
      exact ensures_readFile fuel hbody
    refine hread.bind ?_
    rintro ret u (⟨rfl, hstopped⟩ | ⟨rfl, hlines⟩)
    · apply Ensures.when
      · exact fun hne => absurd rfl hne
      · intro _ hrunning
        rw [hstopped] at hrunning
        exact absurd hrunning Bool.false_ne_true
    · have hkeyword : tail'.keyword ≠ .END := by
        cases tail' <;> exact fun hend => by cases hend
      apply Ensures.when
      · intro _
        refine Ensures.of_exec (exec_modify _ u) fun _ => ?_
        -- the lines behind the keyword are skipped, and those of the rest are left
        have hsplit : (tail'.lines ++ rest).tail = tail'.lines.tail ++ rest := by
          cases tail' <;> rfl
        rw [hsplit] at hlines
        rw [← List.length_tail]
        exact upcoming_skipped hlines
      · exact fun hne => absurd hkeyword hne

end

/-! ### Chains without labels in front of keywords -/

/-- There is no label in front of the keyword of a line. -/
def Unlabelled (isPseudoOpBOF : Bool) (line : Text) : Prop :=
  isLabelStart line = false ∨ isPseudoOpBOF = true

theorem skippedKeyword_eq {isPseudoOpBOF : Bool} {line : Text} (h : Unlabelled isPseudoOpBOF line) :
    skippedKeyword isPseudoOpBOF line = skipDot (skipBlanks line) := by
  rw [skippedKeyword, if_neg]
  rcases h with h | h <;> simp [h]

/-- Without a label `ReadFile` sees the keyword that `SkipFile` sees. -/
theorem branchEnd_of_unlabelled {isPseudoOpBOF : Bool} {line : Text} {retVal : EReturn}
    (h : Unlabelled isPseudoOpBOF line) (hline : lineKind isPseudoOpBOF line = .ends retVal) :
    branchEnd (skipDot (skipBlanks line)) = some retVal := by
  rw [lineKind, skippedKeyword_eq h] at hline
  by_cases hopens : startsIf (skipDot (skipBlanks line)) = true
  · rw [if_pos hopens] at hline
    exact absurd hline nofun
  · rw [if_neg hopens] at hline
    rcases hend : branchEnd (skipDot (skipBlanks line)) with _ | retVal' <;> rw [hend] at hline
    · dsimp only at hline
      split_ifs at hline
    · rw [LineKind.ends.inj hline]

/-- The statements of these lines leave the other lines alone, and start no repeat. -/
def QuietOn (parseLine : ExpandProgram ω Unit) (lines : List Text) : Prop :=
  ∀ s t, s.line ∈ lines → collectsLines s = false → parseLine.exec s = (some (), t) →
    t.isRunning = true → upcoming t = upcoming s ∧ collectsLines t = false

namespace IfTail

/-- The lines between the keywords. -/
def bodies : IfTail → List Text
  | endif _ => []
  | otherwise _ body _ => body
  | elseif _ body tail => body ++ tail.bodies

/-- The lines with the keywords. -/
def keywordLines : IfTail → List Text
  | endif line => [line]
  | otherwise line _ last => [line, last]
  | elseif line _ tail => line :: tail.keywordLines

end IfTail

/-- A chain as it is usually written: no line of a body starts with a keyword, the statements are of the
line they stand in, and the keywords of the chain have no label in front. -/
structure QuietChain (isPseudoOpBOF : Bool) (parseLine : ExpandProgram ω Unit) (body : List Text)
    (tail : IfTail) : Prop where
  quiet : QuietOn parseLine (body ++ tail.bodies)
  bodies : ∀ l ∈ body ++ tail.bodies, branchEnd (skipDot (skipBlanks l)) = none
  unlabelled : ∀ l ∈ tail.keywordLines, Unlabelled isPseudoOpBOF l

section

variable {parser : StatementParser ω} {parseLine : ExpandProgram ω Unit} {isPseudoOpBOF : Bool}
  {body rest : List Text} {line : Text} {tail : IfTail} {s : ExpandState ω}

/-- In a quiet body `ReadFile` sees the keyword where it is. -/
theorem seesKeywords_of_quiet {keyword : EReturn} (hquiet : QuietOn parseLine body)
    (hs : upcoming s = body ++ line :: rest) (hcollects : collectsLines s = false)
    (hbody : ∀ l ∈ body, branchEnd (skipDot (skipBlanks l)) = none)
    (hline : branchEnd (skipDot (skipBlanks line)) = some keyword) :
    SeesKeywords parseLine (line :: rest) keyword s := by
  -- wherever it gets, an end of the body is left in front of the line with the keyword
  have hplace : ∀ n y, TurnsIn (readFileTurn parseLine) ((), s) n y → y.2.isRunning = true →
      ∃ front, front <:+ body ∧ upcoming y.2 = front ++ line :: rest ∧
        collectsLines y.2 = false := by
    intro n y hturns
    induction hturns with
    | zero => exact fun _ => ⟨body, List.suffix_rfl, hs, hcollects⟩
    | @succ n y z _ hturn ih =>
      intro hrunning
      by_cases hy : y.2.isRunning = true
      · obtain ⟨front, hfront, hlines, hcollects⟩ := ih hy
        cases front with
        | nil =>
          -- the line behind the body ends it
          have hseen : keywordSeen y.2 = some keyword := by
            rw [keywordSeen, hcollects, hlines]
            exact hline
          rw [exec_readFileTurn hlines, hseen] at hturn
          exact absurd (congrArg Prod.fst hturn) nofun
        | cons l front =>
          have hmem : l ∈ body := hfront.subset List.mem_cons_self
          have hseen : keywordSeen y.2 = none := by
            rw [keywordSeen, hcollects, hlines]
            exact hbody l hmem
          rw [exec_readFileTurn hlines, hseen, exec_bind] at hturn
          rcases hexec : parseLine.exec (skipped 1 y.2) with ⟨_ | _, t⟩
          · rw [hexec] at hturn
            exact absurd (congrArg Prod.fst hturn) nofun
          · rw [hexec] at hturn
            obtain rfl : t = z.2 := congrArg Prod.snd hturn
            obtain ⟨hupcoming, hcollects'⟩ := hquiet (skipped 1 y.2) z.2
              (by rw [line_skipped_one hlines]; exact hmem) (by rw [collectsLines_skipped_one, hcollects])
              hexec hrunning
            refine ⟨front, (List.suffix_cons l front).trans hfront, ?_, hcollects'⟩
            rw [hupcoming, upcoming_skipped_one hlines]
            rfl
      · rw [exec_readFileTurn_of_stopped (by simpa using hy)] at hturn
        exact absurd (congrArg Prod.fst hturn) nofun
  intro n y hturns hrunning
  obtain ⟨front, hfront, hlines, hcollects⟩ := hplace n y hturns hrunning
  refine ⟨hlines ▸ List.suffix_append front (line :: rest), ?_⟩
  rw [keywordSeen, hcollects, hlines, if_neg Bool.false_ne_true]
  cases front with
  | nil =>
    rw [List.nil_append, if_pos rfl]
    exact hline
  | cons l front =>
    have hne : l :: front ++ line :: rest ≠ line :: rest := by
      intro heq
      have hlength := congrArg List.length heq
      simp at hlength
      omega
    rw [if_neg hne]
    exact hbody l (hfront.subset List.mem_cons_self)

/-- A quiet chain whose first body is taken. -/
theorem QuietChain.seesKeywords (hchain : QuietChain isPseudoOpBOF parseLine body tail)
    (htail : tail.WellFormed isPseudoOpBOF) (h : upcoming s = body ++ (tail.lines ++ rest))
    (hcollects : collectsLines s = false) :
    SeesKeywords parseLine (tail.lines ++ rest) tail.keyword s := by
  obtain ⟨line, lines, hlines, hmem, hline⟩ : ∃ line lines, tail.lines = line :: lines ∧
      line ∈ tail.keywordLines ∧ lineKind isPseudoOpBOF line = .ends tail.keyword := by
    cases tail with
    | endif line => exact ⟨line, [], rfl, List.mem_cons_self, htail⟩
    | otherwise line body last => exact ⟨line, body ++ [last], rfl, List.mem_cons_self, htail.1⟩
    | elseif line body tail => exact ⟨line, body ++ tail.lines, rfl, List.mem_cons_self, htail.1⟩
  rw [hlines] at h ⊢
  exact seesKeywords_of_quiet
    (fun u t hu => hchain.quiet u t (List.mem_append_left tail.bodies hu)) h hcollects
    (fun l hl => hchain.bodies l (List.mem_append_left tail.bodies hl))
    (branchEnd_of_unlabelled (hchain.unlabelled line hmem) hline)

/-- What is behind the first line of the tail of a quiet chain is quiet. -/
theorem QuietChain.elseif (body' : List Text)
    (hchain : QuietChain isPseudoOpBOF parseLine body (.elseif line body' tail)) :
    QuietChain isPseudoOpBOF parseLine body' tail where
  quiet := fun u t hu => hchain.quiet u t (List.mem_append_right body hu)
  bodies := fun l hl => hchain.bodies l (List.mem_append_right body hl)
  unlabelled := fun l hl => hchain.unlabelled l (List.mem_cons_of_mem line hl)

theorem collectsLines_skipped (n : Nat) (s : ExpandState ω) :
    collectsLines (skipped n s) = collectsLines s := by
  induction n generalizing s with
  | zero => rfl
  | succ n ih => rw [Nat.add_comm, skipped_add, ih, collectsLines_skipped_one]

/-- Whatever body of a quiet chain is taken, `ReadFile` sees its keywords where they are. -/
theorem seesKeywords_of_taken (hchain : QuietChain parser.isPseudoOpBOF parseLine body tail)
    (htail : tail.WellFormed parser.isPseudoOpBOF) (h : upcoming s = body ++ (tail.lines ++ rest))
    (hcollects : collectsLines s = false) (val : Bool) {tail' : IfTail} {t : ExpandState ω}
    (htaken : (toTaken parser val body tail).exec s = (some (some tail'), t)) :
    SeesKeywords parseLine (tail'.lines ++ rest) tail'.keyword t := by
  induction tail generalizing val body s with
  | endif line =>
    cases val with
    | true =>
      obtain ⟨hsome, rfl⟩ := Prod.mk.inj htaken
      obtain rfl := Option.some.inj (Option.some.inj hsome)
      exact hchain.seesKeywords htail h hcollects
    | false => exact absurd (Option.some.inj (congrArg Prod.fst htaken)) nofun
  | otherwise line body' last =>
    cases val with
    | true =>
      obtain ⟨hsome, rfl⟩ := Prod.mk.inj htaken
      obtain rfl := Option.some.inj (Option.some.inj hsome)
      exact hchain.seesKeywords htail h hcollects
    | false =>
      obtain ⟨hsome, rfl⟩ := Prod.mk.inj htaken
      obtain rfl := Option.some.inj (Option.some.inj hsome)
      -- the body behind the `ELSE`, which ends with the `ENDIF`
      have hmem {l : Text} (hl : l ∈ body' ++ []) : l ∈ body ++ body' := by
        rw [List.append_nil] at hl
        exact List.mem_append_right body hl
      have hlast : QuietChain parser.isPseudoOpBOF parseLine body' (.endif last) :=
        { quiet := fun u t hu => hchain.quiet u t (hmem hu)
          bodies := fun l hl => hchain.bodies l (hmem hl)
          unlabelled := fun l hl => hchain.unlabelled l (List.mem_cons_of_mem line hl) }
      apply hlast.seesKeywords htail.2.2
      · simp only [IfTail.lines, List.cons_append, List.append_assoc] at h
        rw [skipped_add]
        exact upcoming_skipped_one (upcoming_skipped h)
      · rw [collectsLines_skipped, hcollects]
  | elseif line body' tail ih =>
    cases val with
    | true =>
      obtain ⟨hsome, rfl⟩ := Prod.mk.inj htaken
      obtain rfl := Option.some.inj (Option.some.inj hsome)
      exact hchain.seesKeywords htail h hcollects
    | false =>
      simp only [IfTail.lines, List.cons_append, List.append_assoc] at h
      have hrest : upcoming (evaluated parser (skipped (body.length + 1) s))
          = body' ++ (tail.lines ++ rest) := by
        show upcoming (skipped (body.length + 1) s) = _
        rw [skipped_add]
        exact upcoming_skipped_one (upcoming_skipped h)
      rw [exec_toTaken_elseif] at htaken
      rcases hval : (parser.ifExpression (skipped (body.length + 1) s)).1 with _ | val <;>
        rw [hval] at htaken
      · exact absurd (Option.some.inj (congrArg Prod.fst htaken)) nofun
      · refine ih (QuietChain.elseif body' hchain) htail.2.2 hrest ?_ val htaken
        show collectsLines (skipped (body.length + 1) s) = false
        rw [collectsLines_skipped, hcollects]

end

/-! ### The main result -/

/-- `dirIfInternal` does what the chain is for: it processes the lines of the body that is taken and no
others, evaluates no condition behind it, and leaves the lines behind the chain. -/
structure AssemblesChain (parser : StatementParser ω) (parseLine : ExpandProgram ω Unit) (fuel : Nat)
    (dirName : String) (val : Bool) (body : List Text) (tail : IfTail) (rest : List Text)
    (s : ExpandState ω) : Prop where
  taken : ∀ tail' t, (toTaken parser val body tail).exec s = (some (some tail'), t) →
    AssemblesBody parseLine (tail'.lines ++ rest) tail'.keyword t
  whole : (dirIfInternal parser parseLine fuel dirName val).exec s
    = (assembleChain parser parseLine fuel rest val body tail).exec s
  leaves : Ensures (dirIfInternal parser parseLine fuel dirName val) s fun _ t =>
    t.isRunning = true → upcoming t = rest

/-- A chain is processed as it should be where `ReadFile` sees the keywords of the body that is taken. -/
theorem assemblesChain_of_seesKeywords (parser : StatementParser ω) (parseLine : ExpandProgram ω Unit)
    (dirName : String) (val : Bool) (chain : IfChain parser.isPseudoOpBOF) {fuel : Nat}
    {rest : List Text} {s : ExpandState ω} (hlines : upcoming s = chain.lines ++ rest)
    (hfuel : chain.lines.length < fuel)
    (h : ∀ tail t, (toTaken parser val chain.body chain.tail).exec s = (some (some tail), t) →
      SeesKeywords parseLine (tail.lines ++ rest) tail.keyword t) :
    AssemblesChain parser parseLine fuel dirName val chain.body chain.tail rest s := by
  rw [IfChain.lines, List.append_assoc] at hlines
  have htaken : ∀ tail t, (toTaken parser val chain.body chain.tail).exec s = (some (some tail), t) →
      AssemblesBody parseLine (tail.lines ++ rest) tail.keyword t := fun tail t hexec =>
    (assemblesBody_iff (tail.lines_ne_nil rest)).mpr (h tail t hexec)
  -- each turn of the loop reads a keyword, so that the lines are enough fuel
  have hbranches : chain.tail.branches ≤ fuel := by
    have hle := chain.tail.branches_le
    rw [IfChain.lines, List.length_append] at hfuel
    omega
  have hwhole : (dirIfInternal parser parseLine fuel dirName val).exec s
      = (assembleChain parser parseLine fuel rest val chain.body chain.tail).exec s :=
    exec_ifLoop chain.nested chain.wellFormed hlines hfuel hbranches val htaken
  refine ⟨htaken, hwhole, ?_⟩
  rw [Ensures, hwhole]
  exact ensures_assembleChain val hlines htaken

/-- **Chains of `IF`.**  A chain is processed as it should be exactly when, from the start of the body
that is taken, `ReadFile` sees a keyword in the line that ends the body, and in no other line. -/
theorem assemblesChain_iff (parser : StatementParser ω) (parseLine : ExpandProgram ω Unit)
    (dirName : String) (val : Bool) (chain : IfChain parser.isPseudoOpBOF) {fuel : Nat}
    {rest : List Text} {s : ExpandState ω} (hlines : upcoming s = chain.lines ++ rest)
    (hfuel : chain.lines.length < fuel) :
    AssemblesChain parser parseLine fuel dirName val chain.body chain.tail rest s ↔
      ∀ tail t, (toTaken parser val chain.body chain.tail).exec s = (some (some tail), t) →
        SeesKeywords parseLine (tail.lines ++ rest) tail.keyword t := by
  constructor
  · intro h tail t htaken
    exact (assemblesBody_iff (tail.lines_ne_nil rest)).mp (h.taken tail t htaken)
  · exact assemblesChain_of_seesKeywords parser parseLine dirName val chain hlines hfuel

/-- A quiet chain is processed as it should be, outside of a repeat that collects lines. -/
theorem assemblesChain_of_quiet (parser : StatementParser ω) (parseLine : ExpandProgram ω Unit)
    (dirName : String) (val : Bool) (chain : IfChain parser.isPseudoOpBOF)
    (hchain : QuietChain parser.isPseudoOpBOF parseLine chain.body chain.tail) {fuel : Nat}
    {rest : List Text} {s : ExpandState ω} (hcollects : collectsLines s = false)
    (hlines : upcoming s = chain.lines ++ rest) (hfuel : chain.lines.length < fuel) :
    AssemblesChain parser parseLine fuel dirName val chain.body chain.tail rest s := by
  apply assemblesChain_of_seesKeywords parser parseLine dirName val chain hlines hfuel
  intro tail t htaken
  rw [IfChain.lines, List.append_assoc] at hlines
  exact seesKeywords_of_taken hchain chain.wellFormed hlines hcollects val htaken

/-- A chain with an `ELSE` behind a label. -/
def labelledChain : IfChain false where
  body := [" nop".toList]
  tail := .otherwise "lab: ELSE".toList [" halt".toList] " ENDIF".toList
  nested := .plain (by decide) .nil
  wellFormed := ⟨by decide, .plain (by decide) .nil, by decide⟩

/-- A file with the lines of a chain. -/
def exampleChain (lines : List Text) : ExpandState Unit :=
  { exampleExpandState with source := lines, lijst := 0, lijstp := [] }

/-- The condition is false, and the body behind the `ELSE` is processed. -/
theorem assemblesChain_iff_labelledChain :
    AssemblesChain exampleParser (parseLine exampleParser 2) 5 "IF" false labelledChain.body
        labelledChain.tail [] (exampleChain labelledChain.lines) ↔
      ∀ tail t, (toTaken exampleParser false labelledChain.body labelledChain.tail).exec
          (exampleChain labelledChain.lines) = (some (some tail), t) →
        SeesKeywords (parseLine exampleParser 2) (tail.lines ++ []) tail.keyword t :=
  assemblesChain_iff exampleParser (parseLine exampleParser 2) "IF" false labelledChain
    (by decide) (by decide)

/-- The condition is true, and the `ELSE` behind the label is not seen. -/
theorem not_assemblesChain : ¬ ∀ (chain : IfChain exampleParser.isPseudoOpBOF) (fuel : Nat)
    (rest : List Text) (s : ExpandState Unit), upcoming s = chain.lines ++ rest →
      chain.lines.length < fuel →
      AssemblesChain exampleParser (parseLine exampleParser 2) fuel "IF" true chain.body chain.tail
        rest s := by
  intro h
  have hchain := h labelledChain 5 [] (exampleChain labelledChain.lines) (by decide) (by decide)
  have hbody := (assemblesBody_iff (List.cons_ne_nil _ _)).mp (hchain.taken _ _ rfl)
  have hfirst : TurnsIn (readFileTurn (parseLine exampleParser 2))
      ((), exampleChain labelledChain.lines) 1
      ((), (readFileTurn (parseLine exampleParser 2) ()).final (exampleChain labelledChain.lines)) :=
    TurnsIn.zero.succ (exec_of_fst (by decide))
  have hseen := (hbody 1 _ hfirst (by decide)).2
  revert hseen
  decide

end Sjasmplus
