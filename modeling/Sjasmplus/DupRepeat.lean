import Sjasmplus.IfChain
import Sjasmplus.Lib.Passes
import Sjasmplus.WhileGuardian

/-!
# Repeats with a count (`DUP` and `EDUP` of `directives.cpp`)

The lines between `DUP` and its `EDUP` are collected as they are, with a level for the blocks inside of
them.  The `EDUP` processes them as often as the count says, through the pointer to lines that macros
use as well, and puts this pointer back behind them.

* `processes_collects` — well nested lines are collected, and the level gets back to where it was;
* `repeatStack_of_pass` — a pass over the lines leaves the stack below the repeat as it is;
* `assemblesTimes_of_undisturbed` — the block is assembled `n` times, with 0 to `n - 1` in its variable,
  and everything is put back, unless a pass over the lines disturbs the repeat.

A pass disturbs the repeat when it ends the assembly, leaves a block of its own open, or has an `ELSE`,
`ELSEIF` or `ENDIF` that belongs to no block of these lines: this is reported and takes the count to zero.
-/

namespace Sjasmplus

open Program

variable {ω : Type}

/-! ### Lines one after the other -/

/-- What getting the next line, or collecting it, leaves alone. -/
structure SameContext (s t : ExpandState ω) : Prop where
  isRunning : t.isRunning = s.isRunning
  lijst : t.lijst = s.lijst
  listmacro : t.listmacro = s.listmacro
  depth : t.sourcePosStack.length = s.sourcePosStack.length
  defs : t.defs = s.defs
  macrolabp : t.macrolabp = s.macrolabp
  used : t.used = s.used
  world : t.world = s.world

theorem SameContext.refl (s : ExpandState ω) : SameContext s s :=
  ⟨rfl, rfl, rfl, rfl, rfl, rfl, rfl, rfl⟩

theorem SameContext.trans {s t u : ExpandState ω} (h : SameContext s t) (h' : SameContext t u) :
    SameContext s u where
  isRunning := h'.isRunning.trans h.isRunning
  lijst := h'.lijst.trans h.lijst
  listmacro := h'.listmacro.trans h.listmacro
  depth := h'.depth.trans h.depth
  defs := h'.defs.trans h.defs
  macrolabp := h'.macrolabp.trans h.macrolabp
  used := h'.used.trans h.used
  world := h'.world.trans h.world

/-- The next line is in `line`, wherever it came from. -/
structure Fetched (line : Text) (s u : ExpandState ω) : Prop extends SameContext s u where
  line : u.line = line
  repeatStack : u.repeatStack = s.repeatStack

/-- A line of the source, be it a file or the lines of a macro. -/
theorem fetched_skipped_one {s : ExpandState ω} {line : Text} {rest : List Text}
    (h : upcoming s = line :: rest) : Fetched line s (skipped 1 s) := by
  have hline := line_skipped_one h
  obtain ⟨_, _, _, _, hdepth, heq⟩ := skipped_one_eq s
  rw [heq] at hline ⊢
  constructor
  · exact ⟨rfl, rfl, rfl, hdepth, rfl, rfl, rfl, rfl⟩
  · exact hline
  · rfl

/-- These lines are processed one after the other. -/
inductive Processes (parse : ExpandProgram ω Unit) : List Text → ExpandState ω → ExpandState ω → Prop
  | nil {s : ExpandState ω} : Processes parse [] s s
  | cons {line : Text} {lines : List Text} {s u v t : ExpandState ω} (hfetched : Fetched line s u)
      (hexec : parse.exec u = (some (), v)) (h : Processes parse lines v t) :
      Processes parse (line :: lines) s t

theorem Processes.of_append {parse : ExpandProgram ω Unit} {lines lines' : List Text}
    {s t : ExpandState ω} (h : Processes parse (lines ++ lines') s t) :
    ∃ u, Processes parse lines s u ∧ Processes parse lines' u t := by
  induction lines generalizing s with
  | nil => exact ⟨s, .nil, h⟩
  | cons line lines ih =>
    cases h with
    | cons hfetched hexec h =>
      obtain ⟨u, hfirst, hlast⟩ := ih h
      exact ⟨u, .cons hfetched hexec hfirst, hlast⟩

/-! ### Collecting the lines -/

/-- Lines with well nested repeats. -/
inductive NestedRepeats (parser : StatementParser ω) : List Text → Prop
  | nil : NestedRepeats parser []
  | plain {line : Text} {lines : List Text} (hline : parser.repeatDirective line = none)
      (h : NestedRepeats parser lines) : NestedRepeats parser (line :: lines)
  | block {line last : Text} {inner lines : List Text}
      (hline : parser.repeatDirective line = some .dirDUP) (hinner : NestedRepeats parser inner)
      (hlast : parser.repeatDirective last = some .dirEDUP) (h : NestedRepeats parser lines) :
      NestedRepeats parser (line :: inner ++ last :: lines)

theorem modify_concat {α : Type} (stack : List α) (top : α) (f : α → α) :
    (stack ++ [top]).modify stack.length f = stack ++ [f top] := by
  induction stack with
  | nil => rfl
  | cons head stack ih =>
    rw [List.cons_append, List.length_cons, List.modify_succ_cons, ih]
    rfl

/-- A line as it is collected. -/
def collectedLine (u : ExpandState ω) : BodyLine :=
  ⟨some u.line, u.sourcePosStack.getLast?.getD ⟨0, 0, 0⟩⟩

/-- A line that a repeat only collects. -/
theorem exec_parseLine_of_collects {parser : StatementParser ω} {u : ExpandState ω} (fuel : Nat)
    (h : collectsLines u = true) : (parseLine parser (fuel + 1)).exec u
      = (collectLine parser (parseLine parser fuel) fuel).exec u := by
  rw [parseLine, parseLineWith, exec_bind_of_some (exec_asks _ u), if_pos h]

section

variable {parser : StatementParser ω} {fuel : Nat} {stack : List Repeat} {dup : Repeat}
  {s t u : ExpandState ω}

theorem exec_modifyRepeat_top (hu : u.repeatStack = stack ++ [dup]) (f : Repeat → Repeat) :
    (modifyRepeat stack.length f : ExpandProgram ω Unit).exec u
      = (some (), { u with repeatStack := stack ++ [f dup] }) := by
  rw [modifyRepeat, exec_modify, hu, modify_concat]

/-- The line is added to the lines of the top. -/
theorem exec_collectLine (hu : u.repeatStack = stack ++ [dup]) :
    (collectLine parser (parseLine parser fuel) fuel).exec u =
      (match parser.repeatDirective u.line with
        | none => pure ()
        | some .dirDUP => modifyRepeat stack.length fun dup => { dup with level := dup.level + 1 }
        | some .dirEDUP => dirEDUP parser (parseLine parser fuel) fuel
        | some .dirENDM => dirENDM parser (parseLine parser fuel) fuel : ExpandProgram ω Unit).exec
        { u with repeatStack := stack ++ [{ dup with lines := dup.lines ++ [collectedLine u] }] } := by
  have hlast : u.repeatStack.length - 1 = stack.length := by simp [hu]
  rw [collectLine, exec_bind_of_some (exec_get u), hlast]
  show (modifyRepeat stack.length _ >>= fun _ => _).exec u = _
  rw [exec_bind_of_some (exec_modifyRepeat_top hu _)]
  rfl

theorem collectsLines_of_top (hu : u.repeatStack = stack ++ [dup]) (hdup : dup.isInWork = false) :
    collectsLines u = true := by
  simp [collectsLines, hu, hdup]

/-- An end of a block inside takes the level down. -/
theorem exec_dirEDUP_inside {parse : ExpandProgram ω Unit} (hu : u.repeatStack = stack ++ [dup])
    (hdup : dup.isInWork = false) (hlevel : dup.level ≠ 0) :
    (dirEDUP parser parse fuel).exec u
      = (some (), { u with repeatStack := stack ++ [{ dup with level := dup.level - 1 }] }) := by
  have htop : u.repeatStack.getLast? = some dup := by rw [hu, List.getLast?_concat]
  have hlast : u.repeatStack.length - 1 = stack.length := by simp [hu]
  rw [dirEDUP, exec_bind_of_some (exec_get u), htop]
  dsimp only
  rw [if_neg (by rw [hdup]; exact Bool.false_ne_true), if_pos hlevel, hlast]
  exact exec_modifyRepeat_top hu _

/-- The level of a repeat behind a line that it collects. -/
def levelBehind : Option RepeatDirective → Nat → Nat
  | some .dirDUP, level => level + 1
  | some .dirEDUP, level => level - 1
  | _, level => level

/-- The line is one of the block: it has no directive for repeats, it opens a block inside, or it ends
one. -/
def IsInside (directive : Option RepeatDirective) (level : Nat) : Prop :=
  directive = none ∨ directive = some .dirDUP ∨ directive = some .dirEDUP ∧ level ≠ 0

/-- The repeat behind a line that it collects. -/
def collectInto (dup : Repeat) (line : BodyLine) (directive : Option RepeatDirective) : Repeat :=
  { dup with lines := dup.lines ++ [line], level := levelBehind directive dup.level }

/-- A line of a block is added to it. -/
theorem exec_collect (hu : u.repeatStack = stack ++ [dup]) (hdup : dup.isInWork = false)
    (hline : IsInside (parser.repeatDirective u.line) dup.level) :
    (parseLine parser (fuel + 1)).exec u = (some (), { u with
      repeatStack := stack ++ [collectInto dup (collectedLine u) (parser.repeatDirective u.line)] }) := by
  rw [exec_parseLine_of_collects fuel (collectsLines_of_top hu hdup), exec_collectLine hu]
  rcases hline with hline | hline | ⟨hline, hlevel⟩
  · rw [hline]
    rfl
  · rw [hline]
    exact exec_modifyRepeat_top (u := { u with
      repeatStack := stack ++ [{ dup with lines := dup.lines ++ [collectedLine u] }] }) rfl _
  · rw [hline]
    exact exec_dirEDUP_inside (u := { u with
      repeatStack := stack ++ [{ dup with lines := dup.lines ++ [collectedLine u] }] }) rfl hdup hlevel

theorem sameContext_repeatStack (u : ExpandState ω) (stack : List Repeat) :
    SameContext u { u with repeatStack := stack } :=
  ⟨rfl, rfl, rfl, rfl, rfl, rfl, rfl, rfl⟩

/-- Well nested lines are collected, and the level gets back to where it was. -/
theorem processes_collects {body : List Text} (hbody : NestedRepeats parser body)
    (hs : s.repeatStack = stack ++ [dup]) (hdup : dup.isInWork = false)
    (h : Processes (parseLine parser (fuel + 1)) body s t) :
    SameContext s t ∧ ∃ lines : List BodyLine, lines.map BodyLine.string = body.map some ∧
      t.repeatStack = stack ++ [{ dup with lines := dup.lines ++ lines }] := by
  induction hbody generalizing dup s t with
  | nil =>
    cases h
    exact ⟨SameContext.refl s, [], rfl, by rw [hs, List.append_nil]⟩
  | @plain line lines hline _ ih =>
    cases h with
    | @cons _ _ _ u v _ hfetched hexec h =>
      have hu := hfetched.repeatStack.trans hs
      rw [← hfetched.line] at hline
      rw [exec_collect hu hdup (.inl hline), hline] at hexec
      have hv : v = { u with repeatStack := stack ++ [collectInto dup (collectedLine u) none] } :=
        (congrArg Prod.snd hexec).symm
      obtain ⟨hcontext, rest, hrest, hstack⟩ := ih (congrArg ExpandState.repeatStack hv) hdup h
      refine ⟨hfetched.toSameContext.trans ((hv ▸ sameContext_repeatStack u _).trans hcontext),
        collectedLine u :: rest, ?_, ?_⟩
      · rw [List.map_cons, List.map_cons, hrest, collectedLine, hfetched.line]
      · rw [hstack]
        simp [collectInto, levelBehind]
  | @block line last inner lines hline _ hlast _ ihinner ih =>
    cases h with
    | @cons _ _ _ u v _ hfetched hexec h =>
      have hu := hfetched.repeatStack.trans hs
      rw [← hfetched.line] at hline
      rw [exec_collect hu hdup (.inr (.inl hline)), hline] at hexec
      have hv : v = { u with
          repeatStack := stack ++ [collectInto dup (collectedLine u) (some .dirDUP)] } :=
        (congrArg Prod.snd hexec).symm
      -- the inner block is one level up
      obtain ⟨w, hinner, h⟩ := h.of_append
      obtain ⟨hcontext, block, hblock, hw⟩ := ihinner (congrArg ExpandState.repeatStack hv) hdup hinner
      cases h with
      | @cons _ _ _ u' v' _ hfetched' hexec' h =>
        -- and its last line goes back
        have hu' := hfetched'.repeatStack.trans hw
        rw [← hfetched'.line] at hlast
        have hinside : IsInside (parser.repeatDirective u'.line) (dup.level + 1) :=
          .inr (.inr ⟨hlast, Nat.succ_ne_zero dup.level⟩)
        rw [exec_collect hu' hdup hinside, hlast] at hexec'
        have hv' : v' = { u' with
            repeatStack := stack ++ [collectInto { dup with
              lines := dup.lines ++ [collectedLine u] ++ block
              level := dup.level + 1 } (collectedLine u') (some .dirEDUP)] } :=
          (congrArg Prod.snd hexec').symm
        obtain ⟨hcontext', rest, hrest, hstack⟩ := ih (congrArg ExpandState.repeatStack hv') hdup h
        refine ⟨?_, collectedLine u :: block ++ collectedLine u' :: rest, ?_, ?_⟩
        · have hfirst := hfetched.toSameContext.trans (hv ▸ sameContext_repeatStack u _)
          have hsecond := hfetched'.toSameContext.trans (hv' ▸ sameContext_repeatStack u' _)
          exact hfirst.trans (hcontext.trans (hsecond.trans hcontext'))
        · simp only [List.map_cons, List.map_append, List.cons_append, hrest, hblock, collectedLine,
            hfetched.line, hfetched'.line]
        · rw [hstack]
          simp [collectInto, levelBehind]

end

/-! ### Passes over the lines -/

/-- A pass over the lines of a repeat: the count goes down, the variable gets the number of the pass, and
the lines are processed. -/
def repeatPass (parser : StatementParser ω) (parse : ExpandProgram ω Unit) (fuel i : Nat)
    (sourcePos : TextFilePos) (indexVar : Text) (lines : List BodyLine) (k : Nat) :
    ExpandProgram ω Unit := do
  modify (countDown i)
  setSourcePos sourcePos
  when (indexVar ≠ []) <| modifyWorld fun s => parser.indexVariable s indexVar k
  modify fun s => { s with lijstp := lines }
  loop (repeatLineTurn parse) fuel ()

/-- `currentRepeatIndex` in front of a pass. -/
def repeatIndex (indexVar : Text) (k : Nat) : Nat := if indexVar ≠ [] then k else 0

/-- The passes of a repeat return and leave no block open, only they take its count down, and the assembly
goes on until the last one. -/
def Undisturbed (pass : Nat → ExpandProgram ω Unit) (i n : Nat) (x : ExpandState ω) : Prop :=
  ∀ k < n, ∀ y, PassesTo pass x k y → ∃ z, (pass k).exec y = (some (), z) ∧
    z.repeatStack.length = y.repeatStack.length ∧ repeatCountOf i z = repeatCountOf i y - 1 ∧
      (k + 1 < n → z.isRunning = true)

section

variable {parser : StatementParser ω} {parse : ExpandProgram ω Unit} {fuel : Nat}
  {stack : List Repeat} {dup : Repeat} {indexVar : Text} {lines : List BodyLine} {x y z : ExpandState ω}

theorem getElem?_concat_length (stack : List Repeat) (dup : Repeat) :
    (stack ++ [dup])[stack.length]? = some dup := by
  simp

/-- A test of a count that is not used up. -/
theorem exec_shouldRepeat_of_count (i : Nat) (hcondition : dup.repeatCondition = none) :
    (shouldRepeat parser i dup).exec y = (some (decide (0 ≤ dup.repeatCount - 1)), countDown i y) := by
  rw [shouldRepeat, modifyRepeat, exec_bind_of_some (exec_modify _ y), hcondition]
  rfl

/-- Behind the count, a pass is the body of a turn. -/
theorem exec_repeatBody_of_pass {pos : TextFilePos} (hlines : dup.lines = ⟨some indexVar, pos⟩ :: lines)
    {k : Nat}
    (hpass : (repeatPass parser parse fuel stack.length dup.sourcePos indexVar lines k).exec y
      = (some (), z)) :
    (repeatBody parser parse fuel dup (repeatIndex indexVar k)).exec (countDown stack.length y)
      = (some (.inl (repeatIndex indexVar (k + 1))), z) := by
  rw [repeatPass, exec_bind_of_some (exec_modify _ y), setSourcePos,
    exec_bind_of_some (exec_modify _ _)] at hpass
  rw [repeatBody, hlines, setSourcePos, exec_bind_of_some (exec_modify _ _)]
  dsimp only [List.head?_cons, Option.bind_some, Option.getD_some, List.tail_cons]
  by_cases hindex : indexVar = []
  · -- without a variable the index stays at zero
    rw [when, if_neg (not_not.mpr hindex), exec_bind_of_some (exec_pure _ _),
      exec_bind_of_some (exec_modify _ _)] at hpass
    rw [setIndexVariable, if_neg (not_not.mpr hindex), exec_bind_of_some (exec_pure _ _),
      exec_bind_of_some (exec_modify _ _), exec_bind_of_some hpass, exec_pure]
    simp only [repeatIndex, hindex, ne_eq, not_true_eq_false, if_false]
  -- the variable is defined to the index of the turn, which then goes up
  · rw [when, if_pos hindex, modifyWorld, exec_bind_of_some (exec_modify _ _),
      exec_bind_of_some (exec_modify _ _)] at hpass
    rw [setIndexVariable, if_pos hindex, modifyWorld, repeatIndex, if_pos hindex, bind_assoc,
      exec_bind_of_some (exec_modify _ _), exec_bind_of_some (exec_pure _ _),
      exec_bind_of_some (exec_modify _ _), exec_bind_of_some hpass, exec_pure, repeatIndex,
      if_pos hindex]

/-- A turn of the loop is a pass. -/
theorem exec_repeatTurn_of_pass {pos : TextFilePos} (hy : y.repeatStack = stack ++ [dup])
    (hrunning : y.isRunning = true) (hcondition : dup.repeatCondition = none)
    (hcount : 0 < dup.repeatCount) (hlines : dup.lines = ⟨some indexVar, pos⟩ :: lines) {k : Nat}
    (hpass : (repeatPass parser parse fuel stack.length dup.sourcePos indexVar lines k).exec y
      = (some (), z)) :
    (repeatTurn parser parse fuel stack.length (repeatIndex indexVar k)).exec y
      = (some (.inl (repeatIndex indexVar (k + 1))), z) := by
  have hdup : y.repeatStack[stack.length]? = some dup := by rw [hy, getElem?_concat_length]
  have hgoes : decide (0 ≤ dup.repeatCount - 1) = true := decide_eq_true (by omega)
  rw [exec_repeatTurn parse fuel _ hdup hrunning (exec_shouldRepeat_of_count _ hcondition), hgoes,
    if_pos rfl]
  exact exec_repeatBody_of_pass hlines hpass

/-- The loop ends when the count is used up. -/
theorem exec_repeatTurn_of_end (hy : y.repeatStack = stack ++ [dup])
    (hrunning : y.isRunning = true) (hcondition : dup.repeatCondition = none)
    (hcount : dup.repeatCount = 0) (index : Nat) :
    (repeatTurn parser parse fuel stack.length index).exec y
      = (some (.inr ()), countDown stack.length y) := by
  have hdup : y.repeatStack[stack.length]? = some dup := by rw [hy, getElem?_concat_length]
  have hends : decide (0 ≤ dup.repeatCount - 1) = false := decide_eq_false (by omega)
  rw [exec_repeatTurn parse fuel _ hdup hrunning (exec_shouldRepeat_of_count _ hcondition), hends]
  rfl

/-- The loop ends when the assembly has ended. -/
theorem exec_repeatTurn_of_stopped (i index : Nat) (hstopped : y.isRunning = false) :
    (repeatTurn parser parse fuel i index).exec y = (some (.inr ()), y) := by
  rw [repeatTurn, exec_bind_of_some (exec_get y)]
  rcases y.repeatStack[i]? with _ | dup
  · rfl
  · simp [hstopped]

end

/-! ### The block -/

/-- The state in which the line that ends a block starts to repeat its lines. -/
def blockStart (u : ExpandState ω) : ExpandState ω :=
  repeatStart { u with
    repeatStack := u.repeatStack.modify (u.repeatStack.length - 1) fun dup =>
      { dup with lines := dup.lines ++ [collectedLine u] } }

/-- The lines that are repeated. -/
def repeatedLines (u : ExpandState ω) : List BodyLine :=
  (((blockStart u).repeatStack.getLast?.map Repeat.lines).getD []).tail

/-- A pass over these lines, for a `DUP` in the state `s`. -/
def dupPass (parser : StatementParser ω) (fuel : Nat) (indexVar : Text) (s u : ExpandState ω) :
    Nat → ExpandProgram ω Unit :=
  repeatPass parser (parseLine parser fuel) fuel s.repeatStack.length
    (s.sourcePosStack.getLast?.getD ⟨0, 0, 0⟩) indexVar (repeatedLines u)

/-- Behind the block: the repeats and the counters of the state `s` in front of it, and the lines and the
position of its last line in the state `u`. -/
structure PutBack (s u v : ExpandState ω) : Prop where
  repeatStack : v.repeatStack = s.repeatStack
  lijstp : v.lijstp = u.lijstp
  lijst : v.lijst = s.lijst
  listmacro : v.listmacro = s.listmacro
  sourcePos : v.sourcePosStack.getLast? = u.sourcePosStack.getLast?
  depth : v.sourcePosStack.length = s.sourcePosStack.length
  line : v.line = u.line

/-- The last line of the block, in the state `u`, makes exactly `n` passes over the lines of the block,
and puts everything back. -/
def AssemblesTimes (parser : StatementParser ω) (fuel : Nat) (body : List Text) (n : Nat)
    (indexVar : Text) (s u : ExpandState ω) : Prop :=
  (repeatedLines u).map BodyLine.string = body.map some ++ [none] ∧
    ∃ z, PassesTo (dupPass parser fuel indexVar s u) (blockStart u) n z ∧
      (parseLine parser (fuel + 1)).exec u = (some (), repeatEnd u z) ∧
      PutBack s u (repeatEnd u z)

section

variable {parser : StatementParser ω} {fuel n : Nat} {body : List Text} {indexVar edup : Text}
  {stack : List Repeat} {dup : Repeat} {s t u v x z : ExpandState ω}

/-- In front of the first pass the lines are in work. -/
theorem repeatStack_blockStart (hu : u.repeatStack = stack ++ [dup]) :
    (blockStart u).repeatStack = stack ++ [{ dup with
      isInWork := true
      lines := dup.lines ++ [⟨none, (collectedLine u).source⟩] }] := by
  rw [blockStart, repeatStart]
  dsimp only
  rw [hu, List.length_append, List.length_singleton, Nat.add_sub_cancel, modify_concat,
    List.length_append, List.length_singleton, Nat.add_sub_cancel, modify_concat, List.length_append,
    List.length_singleton, Nat.add_sub_cancel, modify_concat]

/-- The end of a block runs the loop of its repeat. -/
theorem exec_parseLine_of_edup (hedup : parser.repeatDirective u.line = some .dirEDUP)
    (hu : u.repeatStack = stack ++ [dup]) (hdup : dup.isInWork = false) (hlevel : dup.level = 0)
    (hloop : (loop (repeatTurn parser (parseLine parser fuel) fuel stack.length) fuel 0).exec
      (blockStart u) = (some (), z)) :
    (parseLine parser (fuel + 1)).exec u = (some (), repeatEnd u z) := by
  have hcollected : u.repeatStack.modify (u.repeatStack.length - 1) (fun dup =>
      { dup with lines := dup.lines ++ [collectedLine u] }) =
        stack ++ [{ dup with lines := dup.lines ++ [collectedLine u] }] := by
    rw [hu, List.length_append, List.length_singleton, Nat.add_sub_cancel, modify_concat]
  rw [exec_parseLine_of_collects fuel (collectsLines_of_top hu hdup), exec_collectLine hu, hedup]
  dsimp only
  rw [blockStart, hcollected] at hloop
  -- the last line is collected too, and closes the block at its own level
  have hatEnd : AtEnd { u with
      repeatStack := stack ++ [{ dup with lines := dup.lines ++ [collectedLine u] }] }
      { dup with lines := dup.lines ++ [collectedLine u] } :=
    ⟨List.getLast?_concat .., hdup, hlevel⟩
  rw [exec_dirEDUP_of_atEnd hatEnd, topRepeat]
  dsimp only
  rw [List.length_append, List.length_singleton, Nat.add_sub_cancel, hloop]
  rfl

theorem eq_concat {α : Type} {l : List α} {stack : List α} {a : α}
    (hlength : l.length = stack.length + 1) (htake : l.take stack.length = stack)
    (hget : l[stack.length]? = some a) : l = stack ++ [a] := by
  apply List.ext_getElem?
  intro k
  rcases Nat.lt_trichotomy k stack.length with hlt | rfl | hgt
  · rw [List.getElem?_append_left hlt, ← List.getElem?_take_of_lt hlt, htake]
  · rw [hget, List.getElem?_concat_length]
  · rw [List.getElem?_eq_none (by omega), List.getElem?_eq_none (by simp; omega)]

/-- A pass leaves what is below its repeat, and the repeat itself, but for its count. -/
theorem repeatStack_of_pass {pos : TextFilePos} {lines : List BodyLine} {k : Nat} {y : ExpandState ω}
    (hy : y.repeatStack = stack ++ [dup]) (hwork : dup.isInWork = true)
    (hlines : dup.lines = ⟨some indexVar, pos⟩ :: lines)
    (hpass : (repeatPass parser (parseLine parser fuel) fuel stack.length dup.sourcePos indexVar lines
      k).exec y = (some (), z))
    (hlength : z.repeatStack.length = y.repeatStack.length)
    (hcount : repeatCountOf stack.length z = repeatCountOf stack.length y - 1) :
    z.repeatStack = stack ++ [{ dup with repeatCount := dup.repeatCount - 1 }] := by
  have hstart : (countDown stack.length y).repeatStack =
      stack ++ [{ dup with repeatCount := dup.repeatCount - 1 }] := by
    rw [countDown, hy, modify_concat]
  -- the lines of the pass keep what is below the repeat, and the fields of the repeat
  have hbelow : BelowKept none (countDown stack.length y) z := by
    have hbody : Keeps (BelowKept none) (repeatBody parser (parseLine parser fuel) fuel dup
        (repeatIndex indexVar k)) :=
      StackRelation.keeps_repeatBody (keepsBelow_parseLine parser fuel) parser fuel dup _
    have hfinal := hbody (countDown stack.length y)
    rwa [final, exec_repeatBody_of_pass hlines hpass] at hfinal
  have hdup : (countDown stack.length y).repeatStack[stack.length]? =
      some { dup with repeatCount := dup.repeatCount - 1 } := by
    rw [hstart, getElem?_concat_length]
  obtain ⟨count, hlast, -⟩ := hbelow.1 _ _ hdup hwork
  rw [repeatCountOf_eq hlast, repeatCountOf_eq (by rw [hy, getElem?_concat_length])] at hcount
  have htake := hbelow.2 _ _ hdup hwork fun i hi => by cases hi
  rw [hstart, List.take_left] at htake
  -- the length excludes blocks that are still open
  apply eq_concat
  · rw [hlength, hy, List.length_append, List.length_singleton]
  · exact htake
  · show z.repeatStack[stack.length]? = some { dup with repeatCount := dup.repeatCount - 1 }
    rw [hlast, ← hcount]

/-- Every pass starts with its own count. -/
theorem repeatStack_of_passesTo (dup : Repeat) {pos : TextFilePos} {lines : List BodyLine} {k : Nat}
    {y : ExpandState ω} (hx : x.repeatStack = stack ++ [{ dup with repeatCount := n }])
    (hwork : dup.isInWork = true) (hlines : dup.lines = ⟨some indexVar, pos⟩ :: lines)
    (hrunning : x.isRunning = true)
    (hundisturbed : Undisturbed (repeatPass parser (parseLine parser fuel) fuel stack.length
      dup.sourcePos indexVar lines) stack.length n x) (hk : k ≤ n)
    (hy : PassesTo (repeatPass parser (parseLine parser fuel) fuel stack.length dup.sourcePos indexVar
      lines) x k y) :
    y.repeatStack = stack ++ [{ dup with repeatCount := n - k }] ∧ (k < n → y.isRunning = true) := by
  refine hy.holds (P := fun k y => y.repeatStack = stack ++ [{ dup with repeatCount := n - k }] ∧
    (k < n → y.isRunning = true)) ?_ ?_
  · exact ⟨by rw [hx, Nat.cast_zero, sub_zero], fun _ => hrunning⟩
  · rintro j hj y z hyj ⟨hstack, -⟩ hpass
    obtain ⟨z', hpass', hlength, hcount, hruns⟩ := hundisturbed j (hj.trans_le hk) y hyj
    obtain rfl := congrArg Prod.snd (hpass.symm.trans hpass')
    refine ⟨?_, hruns⟩
    rw [repeatStack_of_pass hstack hwork hlines hpass hlength hcount]
    simp [sub_sub]

/-- The loop of a repeat makes all its passes. -/
theorem exec_loop_of_undisturbed (dup : Repeat) {pos : TextFilePos} {lines : List BodyLine}
    (hx : x.repeatStack = stack ++ [{ dup with repeatCount := n }]) (hrunning : x.isRunning = true)
    (hcondition : dup.repeatCondition = none) (hwork : dup.isInWork = true)
    (hlines : dup.lines = ⟨some indexVar, pos⟩ :: lines) (hfuel : n < fuel)
    (hundisturbed : Undisturbed (repeatPass parser (parseLine parser fuel) fuel stack.length
      dup.sourcePos indexVar lines) stack.length n x) :
    ∃ z, PassesTo (repeatPass parser (parseLine parser fuel) fuel stack.length dup.sourcePos indexVar
        lines) x n z ∧
      (∃ last, z.repeatStack = stack ++ [last]) ∧
      ((loop (repeatTurn parser (parseLine parser fuel) fuel stack.length) fuel 0).exec x = (some (), z) ∨
        (loop (repeatTurn parser (parseLine parser fuel) fuel stack.length) fuel 0).exec x
          = (some (), countDown stack.length z)) := by
  obtain ⟨z, hz⟩ := PassesTo.of_returns fun k hk y hy =>
    (hundisturbed k hk y hy).imp fun _ h => h.1
  have hturns : TurnsIn (repeatTurn parser (parseLine parser fuel) fuel stack.length)
      (repeatIndex indexVar 0, x) n (repeatIndex indexVar n, z) := by
    apply hz.turns
    intro k hk y w hy hpass
    obtain ⟨hstack, hruns⟩ := repeatStack_of_passesTo dup hx hwork hlines hrunning hundisturbed hk.le hy
    exact exec_repeatTurn_of_pass hstack (hruns hk) hcondition (by dsimp only; omega) hlines hpass
  have hzero : repeatIndex indexVar 0 = 0 := by simp [repeatIndex]
  rw [hzero] at hturns
  obtain ⟨hstack, -⟩ := repeatStack_of_passesTo dup hx hwork hlines hrunning hundisturbed le_rfl hz
  refine ⟨z, hz, ⟨_, hstack⟩, ?_⟩
  -- the count is used up, but it is not even looked at when the assembly has ended
  by_cases hruns : z.isRunning = true
  · right
    apply exec_loop_of_end hturns _ hfuel
    exact exec_repeatTurn_of_end hstack hruns hcondition (by simp) (repeatIndex indexVar n)
  · left
    apply exec_loop_of_end hturns _ hfuel
    exact exec_repeatTurn_of_stopped stack.length (repeatIndex indexVar n) (by simpa using hruns)

/-- The end of a block puts everything back. -/
theorem putBack_repeatEnd (hs : s.Sound) (hcontext : SameContext s u)
    (hexec : (parseLine parser (fuel + 1)).exec u = (some (), repeatEnd u z))
    (hstack : z.repeatStack.dropLast = s.repeatStack) : PutBack s u (repeatEnd u z) := by
  have hsound : u.Sound := by
    have hcall : InCall s.defs s.macrolabp s := ⟨hs, rfl, rfl⟩
    exact (hcall.congr hcontext.defs hcontext.macrolabp hcontext.used).1
  -- every line puts the state of its caller back, errors apart
  have hframe : Frame u (repeatEnd u z) :=
    (keepsFrame_parseLine parser (fuel + 1) u.defs u.macrolabp u ⟨hsound, rfl, rfl⟩).2 () _ hexec
  constructor
  · exact hstack
  · rfl
  · exact hframe.lijst.trans hcontext.lijst
  · exact hframe.listmacro.trans hcontext.listmacro
  -- the position of the last line is put back where there is one
  · rcases hlast : u.sourcePosStack.getLast? with _ | pos
    · have hdepth := hframe.depth
      rw [List.getLast?_eq_none_iff.mp hlast] at hdepth
      rw [List.length_eq_zero_iff.mp hdepth]
      rfl
    · show (z.sourcePosStack.dropLast ++ u.sourcePosStack.getLast?.toList).getLast? = some pos
      rw [hlast]
      exact List.getLast?_concat ..
  · exact hframe.depth.trans hcontext.depth
  · rfl

/-- **Repeats with a count.**  The block behind a `DUP` in the state `s` is collected, and its last line
assembles it `n` times, whatever blocks are nested in it and wherever its lines come from. -/
theorem assemblesTimes_of_undisturbed (hs : s.Sound) (hrunning : s.isRunning = true)
    (hbody : NestedRepeats parser body)
    (hcollected : Processes (parseLine parser (fuel + 1)) body ((dirDUP n none indexVar).final s) t)
    (hfetched : Fetched edup t u) (hedup : parser.repeatDirective edup = some .dirEDUP)
    (hfuel : n < fuel)
    (hundisturbed : Undisturbed (dupPass parser fuel indexVar s u) s.repeatStack.length n
      (blockStart u)) :
    AssemblesTimes parser fuel body n indexVar s u := by
  -- collecting the block opens no other repeat and reads the lines as they are
  obtain ⟨hcontext, lines, hlines, ht⟩ := processes_collects hbody rfl rfl hcollected
  have hsame : SameContext s u := by
    refine SameContext.trans ?_ (hcontext.trans hfetched.toSameContext)
    exact sameContext_repeatStack s _
  have hu := hfetched.repeatStack.trans ht
  have hstart := repeatStack_blockStart hu
  have hrepeated : repeatedLines u = lines ++ [⟨none, (collectedLine u).source⟩] := by
    rw [repeatedLines, hstart, List.getLast?_concat]
    rfl
  refine ⟨by rw [hrepeated, List.map_append, hlines]; rfl, ?_⟩
  rw [dupPass, hrepeated] at hundisturbed
  -- the loop makes its passes and then finds the count at zero
  have hloop := exec_loop_of_undisturbed
    ⟨n, none, s.sourcePosStack.getLast?.getD ⟨0, 0, 0⟩, _, true, 0⟩ hstart
    (hsame.isRunning.trans hrunning) rfl rfl rfl hfuel hundisturbed
  obtain ⟨z, hz, ⟨last, hlast⟩, hloop⟩ := hloop
  have hexec : (parseLine parser (fuel + 1)).exec u = (some (), repeatEnd u z) := by
    rw [← hfetched.line] at hedup
    rcases hloop with hloop | hloop
    · exact exec_parseLine_of_edup hedup hu rfl rfl hloop
    · -- the count goes with the repeat
      rw [exec_parseLine_of_edup hedup hu rfl rfl hloop, repeatEnd, repeatEnd, countDown]
      dsimp only
      rw [hlast, modify_concat, List.dropLast_concat, List.dropLast_concat]
  refine ⟨z, ?_, hexec, putBack_repeatEnd hs hsame hexec (by rw [hlast, List.dropLast_concat])⟩
  rw [dupPass, hrepeated]
  exact hz

end

/-- Lines that open and close blocks, a stray `ENDIF`, or anything else. -/
def dupParser : StatementParser Unit :=
  { exampleParser with
    instruction := fun _ s =>
      if s.line = " DUP 3".toList then .dirDUP 3 none []
      else if s.line = " ENDIF".toList then .dirENDIF
      else .other () []
    repeatDirective := fun line =>
      if line = " DUP 3".toList then some .dirDUP
      else if line = " EDUP".toList then some .dirEDUP
      else none }

/-- A state behind a line that was processed, with another one fetched. -/
def nextLine (line : Text) (s : ExpandState Unit) : ExpandState Unit := { s with line := line }

theorem fetched_nextLine (line : Text) (s : ExpandState Unit) : Fetched line s (nextLine line s) :=
  ⟨⟨rfl, rfl, rfl, rfl, rfl, rfl, rfl, rfl⟩, rfl, rfl⟩

/-- The state behind the lines of a block, with a count of 2 and a variable. -/
def collectedExample (body : List Text) : ExpandState Unit :=
  body.foldl (fun s line => (parseLine dupParser 7).final (nextLine line s))
    ((dirDUP 2 none ['i']).final exampleExpandState)

/-- The last line of this block. -/
def edupExample (body : List Text) : ExpandState Unit := nextLine " EDUP".toList (collectedExample body)

/-- The state behind a number of passes. -/
def passedExample (body : List Text) : Nat → ExpandState Unit
  | 0 => blockStart (edupExample body)
  | k + 1 => (dupPass dupParser 6 ['i'] exampleExpandState (edupExample body) k).final
      (passedExample body k)

/-- The next pass. -/
theorem exec_passedExample (body : List Text) (k : Nat)
    (h : ((dupPass dupParser 6 ['i'] exampleExpandState (edupExample body) k).exec
      (passedExample body k)).1 = some ()) :
    (dupPass dupParser 6 ['i'] exampleExpandState (edupExample body) k).exec (passedExample body k)
      = (some (), passedExample body (k + 1)) :=
  exec_of_fst h

/-- A block in a block, inside of a macro. -/
theorem assemblesTimes_of_undisturbed_nested :
    AssemblesTimes dupParser 6 [" DUP 3".toList, " nop".toList, " EDUP".toList] 2 ['i']
      exampleExpandState (edupExample [" DUP 3".toList, " nop".toList, " EDUP".toList]) := by
  have hinner : NestedRepeats dupParser [" nop".toList] := .plain rfl .nil
  have hbody : NestedRepeats dupParser [" DUP 3".toList, " nop".toList, " EDUP".toList] :=
    .block rfl hinner rfl .nil
  have hcollected : Processes (parseLine dupParser 7) [" DUP 3".toList, " nop".toList, " EDUP".toList]
      ((dirDUP 2 none ['i']).final exampleExpandState)
      (collectedExample [" DUP 3".toList, " nop".toList, " EDUP".toList]) :=
    .cons (fetched_nextLine _ _) (exec_of_fst (by decide))
      (.cons (fetched_nextLine _ _) (exec_of_fst (by decide))
        (.cons (fetched_nextLine _ _) (exec_of_fst (by decide)) .nil))
  -- two passes, each of them over the inner block
  have hundisturbed : Undisturbed (dupPass dupParser 6 ['i'] exampleExpandState
      (edupExample [" DUP 3".toList, " nop".toList, " EDUP".toList])) 0 2
      (passedExample [" DUP 3".toList, " nop".toList, " EDUP".toList] 0) := by
    intro k hk y hy
    obtain rfl | rfl : k = 0 ∨ k = 1 := by omega
    · cases hy
      exact ⟨_, exec_passedExample _ 0 (by decide +kernel), by decide +kernel,
        by decide +kernel, fun _ => by decide +kernel⟩
    · obtain rfl := hy.unique (PassesTo.zero.succ (exec_passedExample _ 0 (by decide +kernel)))
      exact ⟨_, exec_passedExample _ 1 (by decide +kernel), by decide +kernel,
        by decide +kernel, fun h => by omega⟩
  exact assemblesTimes_of_undisturbed (by decide) rfl hbody hcollected (fetched_nextLine _ _) rfl
    (by decide) hundisturbed

/-- A stray `ENDIF` ends the repeat in its first pass. -/
theorem not_assemblesTimes : ¬ ∀ (body : List Text) (n fuel : Nat) (s t u : ExpandState Unit),
    s.Sound → s.isRunning = true → NestedRepeats dupParser body →
      Processes (parseLine dupParser (fuel + 1)) body ((dirDUP n none ['i']).final s) t →
      Fetched " EDUP".toList t u → n < fuel → AssemblesTimes dupParser fuel body n ['i'] s u := by
  intro h
  have hbody : NestedRepeats dupParser [" ENDIF".toList] := .plain rfl .nil
  obtain ⟨-, z, hz, hexec, -⟩ := h [" ENDIF".toList] 2 6 exampleExpandState
    (collectedExample [" ENDIF".toList]) (edupExample [" ENDIF".toList]) (by decide) rfl hbody
    (.cons (fetched_nextLine _ _) (exec_of_fst (by decide)) .nil) (fetched_nextLine _ _) (by decide)
  have hpasses : PassesTo (dupPass dupParser 6 ['i'] exampleExpandState (edupExample [" ENDIF".toList]))
      (blockStart (edupExample [" ENDIF".toList])) 2 (passedExample [" ENDIF".toList] 2) :=
    (PassesTo.zero.succ (exec_passedExample _ 0 (by decide))).succ (exec_passedExample _ 1 (by decide))
  obtain rfl := hz.unique hpasses
  -- a second pass would have reported the line once more
  have hlog := congrArg (fun r => r.2.log.length) hexec
  revert hlog
  decide

end Sjasmplus
