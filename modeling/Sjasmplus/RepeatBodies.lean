import Sjasmplus.DupRepeat

/-!
# The bodies of repeats

A pass over the lines of a repeat gets through them when each statement takes its own lines, leaves the
stack of repeats alone and lets the assembly go on.  Repeats that are nested in the lines do the same:
they are opened, collected, and repeated with their own counts.

* `Statements.getsThrough` — the turns over such lines;
* `undisturbed_of_statements` — a repeat of such lines is undisturbed;
* `exists_undisturbed_of_upcoming` — so is one whose lines `ReadFile` gets from a file or a macro;
* `endsWhile_of_block` — the block of a `WHILE` gets from its first line to its last one with the count
  and the condition of its line.
-/

namespace Sjasmplus

open Program

variable {ω : Type}

/-! ### Statements that keep the stack of repeats -/

/-- The assembly goes on with these lines, in the same repeats. -/
structure StaysInBody (rest : List BodyLine) (s t : ExpandState ω) : Prop where
  repeatStack : t.repeatStack = s.repeatStack
  lijstp : t.lijstp = rest
  lijst : t.lijst = s.lijst
  isRunning : t.isRunning = true

/-- The lines of a body have these texts. -/
def HaveTexts (lines : List BodyLine) (texts : List Text) : Prop :=
  lines.map BodyLine.string = texts.map some

theorem HaveTexts.of_nil {lines : List BodyLine} (h : HaveTexts lines []) : lines = [] :=
  List.map_eq_nil_iff.mp h

theorem HaveTexts.of_cons {lines : List BodyLine} {text : Text} {texts : List Text}
    (h : HaveTexts lines (text :: texts)) :
    ∃ source rest, lines = ⟨some text, source⟩ :: rest ∧ HaveTexts rest texts := by
  obtain ⟨⟨string, source⟩, rest, rfl, hstring, hrest⟩ := List.map_eq_cons_iff.mp h
  obtain rfl : string = some text := hstring
  exact ⟨source, rest, rfl, hrest⟩

theorem HaveTexts.of_append {lines : List BodyLine} {texts texts' : List Text}
    (h : HaveTexts lines (texts ++ texts')) :
    ∃ first rest, lines = first ++ rest ∧ HaveTexts first texts ∧ HaveTexts rest texts' := by
  rw [HaveTexts, List.map_append] at h
  obtain ⟨first, rest, rfl, hfirst, hrest⟩ := List.map_eq_append_iff.mp h
  exact ⟨first, rest, rfl, hfirst, hrest⟩

/-- No repeat collects the lines, and they come from the lines of a repeat or a macro. -/
structure TakesTurns (s : ExpandState ω) : Prop where
  collects : collectsLines s = false
  isRunning : s.isRunning = true
  lijst : s.lijst ≠ 0

/-- The statement in this line takes the lines behind it that are its own, if it has any, and keeps the
stack of repeats. -/
def KeepsStack (parser : StatementParser ω) (fuel : Nat) (line : Text) (own : List Text) : Prop :=
  ∀ (u : ExpandState ω) (lines rest : List BodyLine), u.line = line → TakesTurns u →
    HaveTexts lines own → u.lijstp = lines ++ rest →
      ∃ v, (parseLine parser fuel).exec u = (some (), v) ∧ StaysInBody rest u v

/-- The line is a `DUP` with this count and this variable. -/
def OpensRepeat (parser : StatementParser ω) (line : Text) (n : Nat) (indexVar : Text) : Prop :=
  ∀ u : ExpandState ω, u.line = line →
    parser.macroCall u = none ∧ parser.instruction none u = .dirDUP n none indexVar

/-- Lines with statements that keep the stack of repeats, and with repeats of such lines. -/
inductive Statements (parser : StatementParser ω) : Nat → List Text → Prop
  | nil {fuel : Nat} : Statements parser fuel []
  | statement {fuel : Nat} {line : Text} {own lines : List Text} (hline : KeepsStack parser fuel line own)
      (h : Statements parser fuel lines) : Statements parser fuel (line :: own ++ lines)
  | block {fuel n : Nat} {line last indexVar : Text} {inner lines : List Text}
      (hline : OpensRepeat parser line n indexVar) (hnested : NestedRepeats parser inner)
      (hinner : Statements parser fuel inner) (hcount : n < fuel) (hlength : inner.length < fuel)
      (hlast : parser.repeatDirective last = some .dirEDUP) (h : Statements parser (fuel + 1) lines) :
      Statements parser (fuel + 1) (line :: inner ++ last :: lines)

section

variable {parser : StatementParser ω} {parse : ExpandProgram ω Unit} {fuel n : Nat} {texts : List Text}
  {lines rest : List BodyLine} {stack : List Repeat} {dup : Repeat} {s t u v : ExpandState ω}

theorem TakesTurns.congr (h : TakesTurns s) (hstack : t.repeatStack = s.repeatStack)
    (hlijst : t.lijst = s.lijst) (hrunning : t.isRunning = true) : TakesTurns t where
  collects := by
    rw [collectsLines, hstack]
    exact h.collects
  isRunning := hrunning
  lijst := hlijst ▸ h.lijst

/-- A repeat in work collects no lines. -/
theorem TakesTurns.of_work (hstack : s.repeatStack = stack ++ [dup]) (hwork : dup.isInWork = true)
    (hrunning : s.isRunning = true) (hlijst : s.lijst ≠ 0) : TakesTurns s where
  collects := by simp [collectsLines, hstack, hwork]
  isRunning := hrunning
  lijst := hlijst

/-! ### Turns over the lines -/

/-- The state in which a line of a body is processed. -/
def atLine (line : Text) (source : TextFilePos) (rest : List BodyLine) (s : ExpandState ω) :
    ExpandState ω :=
  { s with
    line := line
    lijstp := rest
    sourcePosStack := if source.line ≠ 0 then
        s.sourcePosStack.dropLast ++ s.sourcePosStack.getLast?.toList.map fun _ => source
      else s.sourcePosStack }

/-- The state behind the line: the position is moved. -/
def behindLine (v : ExpandState ω) : ExpandState ω :=
  let pos := v.sourcePosStack.getLast?.getD ⟨0, 0, 0⟩
  { v with sourcePosStack := v.sourcePosStack.dropLast ++
      v.sourcePosStack.getLast?.toList.map fun _ => pos.nextSegment false 0 }

/-- A turn processes a line, and moves the position behind it. -/
theorem exec_repeatLineTurn {line : Text} {source : TextFilePos}
    (hlines : s.lijstp = ⟨some line, source⟩ :: rest) (hrunning : s.isRunning = true)
    (hexec : parse.exec (atLine line source rest s) = (some (), v)) :
    (repeatLineTurn parse ()).exec s = (some (.inl ()), behindLine v) := by
  have hstart : (do
      when (source.line ≠ 0) <| setSourcePos source
      copyLijstp (some line) rest : ExpandProgram ω Unit).exec s
        = (some (), atLine line source rest s) := by
    by_cases hsource : source.line ≠ 0
    · rw [when, if_pos hsource, atLine, if_pos hsource]
      rfl
    · rw [when, if_neg hsource, atLine, if_neg hsource]
      rfl
  rw [repeatLineTurn, exec_bind_of_some (exec_get s), hrunning, hlines]
  dsimp only
  rw [← bind_assoc, exec_bind_of_some hstart, exec_bind_of_some hexec]
  rfl

/-- The loop ends at the line without a text. -/
theorem exec_repeatLineTurn_of_end {source : TextFilePos} (hlines : s.lijstp = [⟨none, source⟩])
    (parse : ExpandProgram ω Unit) : (repeatLineTurn parse ()).exec s = (some (.inr ()), s) := by
  rw [repeatLineTurn, exec_bind_of_some (exec_get s), hlines]
  cases s.isRunning <;> rfl

/-- The turns over these lines get through them, whatever comes behind them. -/
def GetsThrough (parser : StatementParser ω) (fuel : Nat) (texts : List Text) : Prop :=
  ∀ (s : ExpandState ω) (lines rest : List BodyLine), TakesTurns s → HaveTexts lines texts →
    s.lijstp = lines ++ rest → ∃ j ≤ texts.length, ∃ t,
      TurnsIn (repeatLineTurn (parseLine parser fuel)) ((), s) j ((), t) ∧ StaysInBody rest s t

/-- A line that is processed in one turn, and the lines behind it. -/
theorem GetsThrough.cons {line : Text} {source : TextFilePos} {behind : List BodyLine}
    (h : GetsThrough parser fuel texts) (htexts : HaveTexts lines texts) (hs : TakesTurns s)
    (hlines : s.lijstp = ⟨some line, source⟩ :: behind)
    (hexec : (parseLine parser fuel).exec (atLine line source behind s) = (some (), v))
    (hv : StaysInBody (lines ++ rest) s v) : ∃ j ≤ texts.length + 1, ∃ t,
      TurnsIn (repeatLineTurn (parseLine parser fuel)) ((), s) j ((), t) ∧ StaysInBody rest s t := by
  have hturn := exec_repeatLineTurn hlines hs.isRunning hexec
  obtain ⟨j, hj, t, hturns, ht⟩ := h (behindLine v) lines rest
    (hs.congr hv.repeatStack hv.lijst hv.isRunning) htexts hv.lijstp
  refine ⟨j + 1, Nat.succ_le_succ hj, t, TurnsIn.cons hturn hturns, ?_⟩
  exact ⟨ht.repeatStack.trans hv.repeatStack, ht.lijstp, ht.lijst.trans hv.lijst, ht.isRunning⟩

/-! ### A repeat of such lines -/

/-- What a pass does in front of its lines. -/
def beginPass (parser : StatementParser ω) (i : Nat) (pos : TextFilePos) (indexVar : Text)
    (lines : List BodyLine) (k : Nat) : ExpandProgram ω PUnit := do
  modify (countDown i)
  setSourcePos pos
  when (indexVar ≠ []) <| modifyWorld fun s => parser.indexVariable s indexVar k
  modify fun s => { s with lijstp := lines }

theorem repeatPass_eq (parser : StatementParser ω) (parse : ExpandProgram ω Unit) (fuel i : Nat)
    (pos : TextFilePos) (indexVar : Text) (lines : List BodyLine) (k : Nat) :
    repeatPass parser parse fuel i pos indexVar lines k
      = beginPass parser i pos indexVar lines k >>= fun _ => loop (repeatLineTurn parse) fuel () := by
  simp only [repeatPass, beginPass, bind_assoc]

theorem exec_startPass (parser : StatementParser ω) (i : Nat) (pos : TextFilePos) (indexVar : Text)
    (lines : List BodyLine) (k : Nat) (s : ExpandState ω) :
    ∃ t, (beginPass parser i pos indexVar lines k).exec s = (some ⟨⟩, t) ∧
      t.repeatStack = (countDown i s).repeatStack ∧ t.lijstp = lines ∧ t.lijst = s.lijst ∧
      t.isRunning = s.isRunning := by
  by_cases hindex : indexVar ≠ []
  · rw [beginPass, when, if_pos hindex]
    exact ⟨_, rfl, rfl, rfl, rfl, rfl⟩
  · rw [beginPass, when, if_neg hindex]
    exact ⟨_, rfl, rfl, rfl, rfl, rfl⟩

/-- A pass over lines that the turns get through. -/
theorem exists_exec_repeatPass (hthrough : GetsThrough parser fuel texts) (htexts : HaveTexts lines texts)
    (hlength : texts.length < fuel) (pos source : TextFilePos) (indexVar : Text)
    (hs : s.repeatStack = stack ++ [dup]) (hwork : dup.isInWork = true) (hrunning : s.isRunning = true)
    (hlijst : s.lijst ≠ 0) (k : Nat) :
    ∃ t, (repeatPass parser (parseLine parser fuel) fuel stack.length pos indexVar
        (lines ++ [⟨none, source⟩]) k).exec s = (some (), t) ∧
      t.repeatStack = stack ++ [{ dup with repeatCount := dup.repeatCount - 1 }] ∧
      t.isRunning = true ∧ t.lijst = s.lijst := by
  obtain ⟨u, hstart, hstack, hlines, hsame, hruns⟩ :=
    exec_startPass parser stack.length pos indexVar (lines ++ [⟨none, source⟩]) k s
  rw [countDown, hs, modify_concat] at hstack
  have hu : TakesTurns u := .of_work hstack hwork (hruns.trans hrunning) (hsame ▸ hlijst)
  obtain ⟨j, hj, t, hturns, ht⟩ := hthrough u lines [⟨none, source⟩] hu htexts hlines
  refine ⟨t, ?_, ht.repeatStack.trans hstack, ht.isRunning, ht.lijst.trans hsame⟩
  rw [repeatPass_eq, exec_bind_of_some hstart]
  exact exec_loop_of_end hturns (exec_repeatLineTurn_of_end ht.lijstp _) (hj.trans_lt hlength)

/-- The passes of a repeat: the count goes down with them, and nothing else changes. -/
theorem undisturbed_of_through (dup : Repeat) (hthrough : GetsThrough parser fuel texts)
    (htexts : HaveTexts lines texts) (hlength : texts.length < fuel) (pos source : TextFilePos)
    (indexVar : Text)
    (hs : s.repeatStack = stack ++ [{ dup with repeatCount := n }]) (hwork : dup.isInWork = true)
    (hrunning : s.isRunning = true) (hlijst : s.lijst ≠ 0) :
    Undisturbed (repeatPass parser (parseLine parser fuel) fuel stack.length pos indexVar
        (lines ++ [⟨none, source⟩])) stack.length n s ∧
      ∀ t, PassesTo (repeatPass parser (parseLine parser fuel) fuel stack.length pos indexVar
        (lines ++ [⟨none, source⟩])) s n t → t.isRunning = true ∧ t.lijst = s.lijst := by
  -- by induction on the passes: what the stack is behind each of them
  have hpasses : ∀ k t, PassesTo (repeatPass parser (parseLine parser fuel) fuel stack.length pos indexVar
      (lines ++ [⟨none, source⟩])) s k t →
        t.repeatStack = stack ++ [{ dup with repeatCount := n - k }] ∧ t.isRunning = true ∧
          t.lijst = s.lijst := by
    intro k t ht
    refine ht.holds (P := fun k t => t.repeatStack = stack ++ [{ dup with repeatCount := n - k }] ∧
      t.isRunning = true ∧ t.lijst = s.lijst) ⟨by simpa using hs, hrunning, rfl⟩ ?_
    rintro j - y z - ⟨hy, hruns, hsame⟩ hpass
    obtain ⟨z', hpass', hstack, hruns', hsame'⟩ :=
      exists_exec_repeatPass hthrough htexts hlength pos source indexVar hy hwork hruns (hsame ▸ hlijst) j
    obtain rfl := congrArg Prod.snd (hpass.symm.trans hpass')
    refine ⟨?_, hruns', hsame'.trans hsame⟩
    rw [hstack]
    simp [sub_sub]
  -- the count in the repeat is the one that the passes leave
  refine ⟨fun k hk y hy => ?_, fun t ht => (hpasses n t ht).2⟩
  obtain ⟨hstack, hruns, hsame⟩ := hpasses k y hy
  obtain ⟨z, hpass, hz, hruns', -⟩ :=
    exists_exec_repeatPass hthrough htexts hlength pos source indexVar hstack hwork hruns (hsame ▸ hlijst) k
  refine ⟨z, hpass, ?_, ?_, fun _ => hruns'⟩
  · rw [hz, hstack, List.length_append, List.length_append]
    rfl
  · have hbefore : y.repeatStack[stack.length]? = some { dup with repeatCount := n - k } := by
      rw [hstack, getElem?_concat_length]
    have hbehind : z.repeatStack[stack.length]? = some { dup with repeatCount := n - k - 1 } := by
      rw [hz, getElem?_concat_length]
    rw [repeatCountOf_eq hbehind, repeatCountOf_eq hbefore]

/-! ### Repeats inside of the lines -/

/-- The assembly goes on with these lines, and with this repeat on the top. -/
structure CollectsOn (stack : List Repeat) (dup : Repeat) (rest : List BodyLine) (s t : ExpandState ω) :
    Prop where
  repeatStack : t.repeatStack = stack ++ [dup]
  lijstp : t.lijstp = rest
  lijst : t.lijst = s.lijst
  isRunning : t.isRunning = s.isRunning

/-- A turn that collects a line of a block. -/
theorem exec_repeatLineTurn_of_collects (fuel : Nat) {line : Text} {source : TextFilePos}
    (hs : s.repeatStack = stack ++ [dup]) (hdup : dup.isInWork = false) (hrunning : s.isRunning = true)
    (hlines : s.lijstp = ⟨some line, source⟩ :: rest)
    (hline : IsInside (parser.repeatDirective line) dup.level) :
    ∃ t collected, (repeatLineTurn (parseLine parser (fuel + 1)) ()).exec s = (some (.inl ()), t) ∧
      collected.string = some line ∧
      CollectsOn stack (collectInto dup collected (parser.repeatDirective line)) rest s t := by
  have hexec : (parseLine parser (fuel + 1)).exec (atLine line source rest s) = _ :=
    exec_collect (u := atLine line source rest s) hs hdup hline
  exact ⟨_, _, exec_repeatLineTurn hlines hrunning hexec, rfl, rfl, rfl, rfl, rfl⟩

/-- The turns that collect the lines of a block. -/
theorem exists_turns_of_nested (hnested : NestedRepeats parser texts) (htexts : HaveTexts lines texts)
    (hs : s.repeatStack = stack ++ [dup]) (hdup : dup.isInWork = false) (hrunning : s.isRunning = true)
    (hlines : s.lijstp = lines ++ rest) :
    ∃ t collected, TurnsIn (repeatLineTurn (parseLine parser (fuel + 1))) ((), s) texts.length ((), t) ∧
      HaveTexts collected texts ∧
      CollectsOn stack { dup with lines := dup.lines ++ collected } rest s t := by
  induction hnested generalizing lines rest dup s with
  | nil =>
    obtain rfl := htexts.of_nil
    exact ⟨s, [], .zero, rfl, by rw [hs, List.append_nil], hlines, rfl, rfl⟩
  | @plain line texts hline _ ih =>
    obtain ⟨source, lines, rfl, hrest⟩ := htexts.of_cons
    obtain ⟨u, first, hturn, hfirst, hu⟩ :=
      exec_repeatLineTurn_of_collects fuel hs hdup hrunning hlines (.inl hline)
    rw [hline] at hu
    obtain ⟨t, collected, hturns, hcollected, ht⟩ :=
      ih hrest hu.repeatStack hdup (hu.isRunning.trans hrunning) hu.lijstp
    refine ⟨t, first :: collected, TurnsIn.cons hturn hturns, ?_, ?_, ht.lijstp, ht.lijst.trans hu.lijst,
      ht.isRunning.trans hu.isRunning⟩
    · rw [HaveTexts, List.map_cons, List.map_cons, hfirst, hcollected]
    · rw [ht.repeatStack]
      simp [collectInto, levelBehind]
  | @block line last inner texts hline _ hlast _ ihinner ih =>
    obtain ⟨source, lines, rfl, hinside⟩ := htexts.of_cons
    obtain ⟨block, lines, rfl, hblock, hbehind⟩ := hinside.of_append
    obtain ⟨source', lines, rfl, hrest⟩ := hbehind.of_cons
    obtain ⟨u, first, hturn, hfirst, hu⟩ :=
      exec_repeatLineTurn_of_collects fuel hs hdup hrunning hlines (.inr (.inl hline))
    rw [hline] at hu
    -- the inner block is one level up
    obtain ⟨v, collected, hturns, hcollected, hv⟩ :=
      ihinner hblock hu.repeatStack hdup (hu.isRunning.trans hrunning)
        (hu.lijstp.trans (List.append_assoc block _ rest))
    have hruns := hv.isRunning.trans (hu.isRunning.trans hrunning)
    -- and its last line goes back
    obtain ⟨w, final, hturn', hfinal, hw⟩ :=
      exec_repeatLineTurn_of_collects fuel hv.repeatStack hdup hruns hv.lijstp
        (.inr (.inr ⟨hlast, Nat.succ_ne_zero dup.level⟩))
    rw [hlast] at hw
    obtain ⟨t, collected', hturns', hcollected', ht⟩ :=
      ih hrest hw.repeatStack hdup (hw.isRunning.trans hruns) hw.lijstp
    refine ⟨t, first :: collected ++ final :: collected', ?_, ?_, ?_, ht.lijstp, ?_, ?_⟩
    · have hall : TurnsIn (repeatLineTurn (parseLine parser (fuel + 1))) ((), s)
          (inner.length + 1 + (texts.length + 1)) ((), t) :=
        (TurnsIn.cons hturn hturns).trans (TurnsIn.cons hturn' hturns')
      have hlength : (line :: inner ++ last :: texts).length
          = inner.length + 1 + (texts.length + 1) := by
        rw [List.length_append, List.length_cons, List.length_cons]
      rw [hlength]
      exact hall
    · simp only [HaveTexts] at hcollected hcollected' ⊢
      simp [hfirst, hcollected, hfinal, hcollected']
    · rw [ht.repeatStack]
      simp [collectInto, levelBehind]
    · exact ht.lijst.trans (hw.lijst.trans (hv.lijst.trans hu.lijst))
    · exact ht.isRunning.trans (hw.isRunning.trans (hv.isRunning.trans hu.isRunning))

/-- A line that no repeat collects, and no macro call: the instruction is read behind the label. -/
theorem exec_parseLine_instruction (fuel : Nat) (hcollects : collectsLines u = false)
    (hcall : parser.macroCall { u with
      world := (parser.parseLabel u).1, log := u.log ++ (parser.parseLabel u).2 } = none) :
    (parseLine parser (fuel + 1)).exec u
      = (parseInstruction parser (parseLine parser fuel) fuel none).exec { u with
          world := (parser.parseLabel u).1, log := u.log ++ (parser.parseLabel u).2 } := by
  rw [parseLine, parseLineWith, exec_bind_of_some (exec_asks _ u), hcollects, if_neg Bool.false_ne_true,
    modifyWorld, exec_bind_of_some (exec_modify _ u), exec_bind_of_some (exec_asks _ _), hcall]

/-- Statements that do nothing to the lines keep the stack. -/
theorem keepsStack_other {line : Text} (h : ∀ u : ExpandState ω, u.line = line →
    parser.macroCall u = none ∧ ∃ world log, parser.instruction none u = .other world log) :
    KeepsStack parser (fuel + 1) line [] := by
  intro u lines rest hline hu hlines hrest
  obtain rfl := hlines.of_nil
  let w : ExpandState ω :=
    { u with world := (parser.parseLabel u).1, log := u.log ++ (parser.parseLabel u).2 }
  obtain ⟨hcall, world, log, hinstruction⟩ := h w hline
  refine ⟨{ w with world := world, log := w.log ++ log }, ?_, rfl, hrest, rfl, hu.isRunning⟩
  rw [exec_parseLine_instruction fuel hu.collects hcall, parseInstruction,
    exec_bind_of_some (exec_asks _ w), hinstruction]
  rfl

/-- The line that opens a repeat. -/
theorem exec_parseLine_of_opens (fuel : Nat) {line indexVar : Text}
    (hline : OpensRepeat parser line n indexVar) (hu : u.line = line)
    (hcollects : collectsLines u = false) :
    ∃ v pos, (parseLine parser (fuel + 1)).exec u = (some (), v) ∧
      CollectsOn u.repeatStack ⟨n, none, pos, [⟨some indexVar, pos⟩], false, 0⟩ u.lijstp u v := by
  let w : ExpandState ω :=
    { u with world := (parser.parseLabel u).1, log := u.log ++ (parser.parseLabel u).2 }
  obtain ⟨hcall, hinstruction⟩ := hline w hu
  refine ⟨(dirDUP n none indexVar).final w, u.sourcePosStack.getLast?.getD ⟨0, 0, 0⟩, ?_, rfl, rfl, rfl,
    rfl⟩
  rw [exec_parseLine_instruction fuel hcollects hcall, parseInstruction,
    exec_bind_of_some (exec_asks _ w), hinstruction]
  rfl

/-- The last line of a block repeats its lines, and takes the repeat off the stack. -/
theorem exec_parseLine_of_through (hthrough : GetsThrough parser fuel texts)
    (htexts : HaveTexts lines texts) (hlength : texts.length < fuel) (hcount : n < fuel)
    {pos : TextFilePos} {indexVar : Text}
    (hu : u.repeatStack = stack ++ [⟨n, none, pos, ⟨some indexVar, pos⟩ :: lines, false, 0⟩])
    (hedup : parser.repeatDirective u.line = some .dirEDUP) (hrunning : u.isRunning = true) :
    ∃ v, (parseLine parser (fuel + 1)).exec u = (some (), v) ∧ v.repeatStack = stack ∧
      v.lijstp = u.lijstp ∧ v.lijst = u.lijst ∧ v.isRunning = true := by
  have hstart := repeatStack_blockStart hu
  have hlijst : (blockStart u).lijst ≠ 0 := Nat.succ_ne_zero u.lijst
  -- the lines of the block get through, so that its passes are undisturbed
  obtain ⟨hundisturbed, hends⟩ :=
    undisturbed_of_through ⟨n, none, pos, _, true, 0⟩ hthrough htexts hlength pos (collectedLine u).source
      indexVar hstart rfl hrunning hlijst
  obtain ⟨z, hz, ⟨last, hlast⟩, hloop⟩ :=
    exec_loop_of_undisturbed ⟨n, none, pos, _, true, 0⟩ hstart hrunning rfl rfl rfl hcount hundisturbed
  obtain ⟨hruns, hsame⟩ := hends z hz
  have hback : z.lijst - 1 = u.lijst := by
    rw [hsame]
    exact Nat.add_sub_cancel u.lijst 1
  -- the loop ends at the count, which may be counted down once more
  rcases hloop with hloop | hloop
  · refine ⟨_, exec_parseLine_of_edup hedup hu rfl rfl hloop, ?_, rfl, hback, hruns⟩
    rw [repeatEnd, hlast, List.dropLast_concat]
  · refine ⟨_, exec_parseLine_of_edup hedup hu rfl rfl hloop, ?_, rfl, hback, hruns⟩
    rw [repeatEnd, countDown, hlast, modify_concat, List.dropLast_concat]

/-- **The turns get through the lines**, however deep repeats are nested in them. -/
theorem Statements.getsThrough (h : Statements parser fuel texts) : GetsThrough parser fuel texts := by
  induction h with
  | nil =>
    intro s lines rest hs htexts hlines
    obtain rfl := htexts.of_nil
    exact ⟨0, le_rfl, s, .zero, rfl, hlines, rfl, hs.isRunning⟩
  | @statement fuel line own texts hline _ ih =>
    intro s lines rest hs htexts hlines
    obtain ⟨source, lines, rfl, hinside⟩ := htexts.of_cons
    obtain ⟨first, lines, rfl, hown, hrest⟩ := hinside.of_append
    have hat : TakesTurns (atLine line source (first ++ lines ++ rest) s) :=
      hs.congr rfl rfl hs.isRunning
    obtain ⟨v, hexec, hv⟩ :=
      hline _ first (lines ++ rest) rfl hat hown (List.append_assoc first lines rest)
    have hsame : StaysInBody (lines ++ rest) s v := ⟨hv.repeatStack, hv.lijstp, hv.lijst, hv.isRunning⟩
    obtain ⟨j, hj, hturns⟩ := ih.cons hrest hs hlines hexec hsame
    refine ⟨j, hj.trans ?_, hturns⟩
    simp only [List.length_append, List.length_cons]
    omega
  | @block fuel n line last indexVar inner texts hline hnested _ hcount hlength hlast _ ihinner ih =>
    intro s lines rest hs htexts hlines
    obtain ⟨source, lines, rfl, hinside⟩ := htexts.of_cons
    obtain ⟨block, lines, rfl, hblock, hbehind⟩ := hinside.of_append
    obtain ⟨source', lines, rfl, hrest⟩ := hbehind.of_cons
    -- the repeat is opened, and its lines are collected
    have hat : TakesTurns (atLine line source (block ++ ⟨some last, source'⟩ :: lines ++ rest) s) :=
      hs.congr rfl rfl hs.isRunning
    obtain ⟨u, pos, hopen, hu⟩ := exec_parseLine_of_opens fuel hline rfl hat.collects
    have hfirst := exec_repeatLineTurn hlines hs.isRunning hopen
    have hblockLines : (behindLine u).lijstp = block ++ (⟨some last, source'⟩ :: (lines ++ rest)) :=
      hu.lijstp.trans (List.append_assoc block _ rest)
    obtain ⟨v, collected, hturns, hcollected, hv⟩ :=
      exists_turns_of_nested (s := behindLine u) hnested hblock hu.repeatStack rfl
        (hu.isRunning.trans hs.isRunning) hblockLines
    have hruns : v.isRunning = true := hv.isRunning.trans (hu.isRunning.trans hs.isRunning)
    -- and the last one repeats them
    obtain ⟨w, hend, hstack, hlijstp, hlijst, hruns'⟩ :=
      exec_parseLine_of_through (u := atLine last source' (lines ++ rest) v) ihinner hcollected hlength
        hcount hv.repeatStack hlast hruns
    have hlijst' : w.lijst = s.lijst := hlijst.trans (hv.lijst.trans hu.lijst)
    have hlastTurn := exec_repeatLineTurn hv.lijstp hruns hend
    obtain ⟨j, hj, t, hbehindTurns, ht⟩ := ih (behindLine w) lines rest
      (hs.congr hstack hlijst' hruns') hrest hlijstp
    refine ⟨inner.length + 1 + (j + 1), ?_, t, ?_, ?_⟩
    · simp only [List.length_append, List.length_cons]
      omega
    · exact (TurnsIn.cons hfirst hturns).trans (TurnsIn.cons hlastTurn hbehindTurns)
    · exact ⟨ht.repeatStack.trans hstack, ht.lijstp, ht.lijst.trans hlijst', ht.isRunning⟩

/-- **A repeat of such lines is undisturbed**, whatever its count is and wherever the lines come from. -/
theorem undisturbed_of_statements {body : List Text} {indexVar edup : Text}
    (hrunning : s.isRunning = true) (hbody : NestedRepeats parser body)
    (hstatements : Statements parser fuel body)
    (hlength : body.length < fuel)
    (hcollected : Processes (parseLine parser (fuel + 1)) body ((dirDUP n none indexVar).final s) t)
    (hfetched : Fetched edup t u) :
    Undisturbed (dupPass parser fuel indexVar s u) s.repeatStack.length n (blockStart u) := by
  -- the block is collected with the texts of its lines, whatever stands in them
  obtain ⟨hcontext, lines, hlines, ht⟩ := processes_collects hbody rfl rfl hcollected
  have hsame : SameContext s u :=
    (sameContext_repeatStack s _).trans (hcontext.trans hfetched.toSameContext)
  have hstart := repeatStack_blockStart (hfetched.repeatStack.trans ht)
  have hrepeated : repeatedLines u = lines ++ [⟨none, (collectedLine u).source⟩] := by
    rw [repeatedLines, hstart, List.getLast?_concat]
    rfl
  rw [dupPass, hrepeated]
  have hlijst : (blockStart u).lijst ≠ 0 := Nat.succ_ne_zero u.lijst
  obtain ⟨hundisturbed, -⟩ := undisturbed_of_through
    ⟨n, none, s.sourcePosStack.getLast?.getD ⟨0, 0, 0⟩, _, true, 0⟩ hstatements.getsThrough hlines hlength
    _ _ indexVar hstart rfl (hsame.isRunning.trans hrunning) hlijst
  exact hundisturbed

/-! ### The block of a `WHILE` -/

/-- The last line of a block, added to its lines. -/
def lineCollected (u : ExpandState ω) : ExpandState ω :=
  { u with
    repeatStack := u.repeatStack.modify (u.repeatStack.length - 1) fun dup =>
      { dup with lines := dup.lines ++ [collectedLine u] } }

/-- The line opens a repeat with its condition, and with its guardian value in the count. -/
theorem repeatStack_dirWHILE (operands : WhileOperands) (lp : Text) (s : ExpandState ω) :
    ∃ pos, ((dirWHILE (some operands) lp).final s).repeatStack = s.repeatStack ++
      [⟨(guardianCount operands.guardianValue).1.toInt, some operands.condition, pos,
        [⟨some [], pos⟩], false, 0⟩] := by
  refine ⟨s.sourcePosStack.getLast?.getD ⟨0, 0, 0⟩, ?_⟩
  rw [dirWHILE, final_bind_of_some (exec_modify _ s), whileRepeat_eq]
  rfl

/-- **The block of a `WHILE`.**  Its last line starts the loop with the guardian value and the condition
that were read from its first line, whatever well nested lines are collected in between. -/
theorem endsWhile_of_block {body : List Text} {lp edup : Text} {operands : WhileOperands}
    {parseExpression : Text → Option Aint × Text}
    (hoperands : whileOperands parseExpression lp = some operands) (hbody : NestedRepeats parser body)
    (hcollected : Processes (parseLine parser (fuel + 1)) body
      ((dirWHILE (whileOperands parseExpression lp) lp).final s) t)
    (hfetched : Fetched edup t u) (hedup : parser.repeatDirective edup = some .dirEDUP) :
    EndsWhile operands (lineCollected u) ∧ (parseLine parser (fuel + 1)).exec u
      = (dirEDUP parser (parseLine parser fuel) fuel).exec (lineCollected u) := by
  rw [hoperands] at hcollected
  -- the `WHILE` opens a repeat with its guardian and its condition
  obtain ⟨pos, hopened⟩ := repeatStack_dirWHILE operands lp s
  obtain ⟨-, lines, -, ht⟩ := processes_collects hbody hopened rfl hcollected
  have hu := hfetched.repeatStack.trans ht
  -- the nested blocks are closed again, so that the repeat is the top one
  have hstate : lineCollected u = { u with repeatStack := s.repeatStack ++
      [⟨(guardianCount operands.guardianValue).1.toInt, some operands.condition, pos,
        [⟨some [], pos⟩] ++ lines ++ [collectedLine u], false, 0⟩] } := by
    rw [lineCollected, hu, List.length_append, List.length_singleton, Nat.add_sub_cancel, modify_concat]
  rw [hstate]
  refine ⟨⟨_, ⟨List.getLast?_concat .., rfl, rfl⟩, rfl, rfl⟩, ?_⟩
  rw [exec_parseLine_of_collects fuel (collectsLines_of_top hu rfl), exec_collectLine hu, hfetched.line,
    hedup]

end

/-! ### The lines of a block, as `ReadFile` gets them -/

section

variable {parser : StatementParser ω} {fuel n : Nat} {stack : List Repeat} {dup : Repeat}
  {lines lines' body rest : List Text} {line edup : Text} {s t u : ExpandState ω}

/-- `ReadFile` takes a turn for each of these lines, and processes it. -/
structure ReadsLines (parser : StatementParser ω) (fuel : Nat) (lines : List Text)
    (s t : ExpandState ω) : Prop where
  turns : TurnsIn (readFileTurn (parseLine parser (fuel + 1))) ((), s) lines.length ((), t)
  processes : Processes (parseLine parser (fuel + 1)) lines s t

theorem ReadsLines.refl (s : ExpandState ω) : ReadsLines parser fuel [] s s := ⟨.zero, .nil⟩

theorem Processes.append {parse : ExpandProgram ω Unit} (h : Processes parse lines s t)
    (h' : Processes parse lines' t u) : Processes parse (lines ++ lines') s u := by
  induction h with
  | nil => exact h'
  | cons hfetched hexec _ ih => exact .cons hfetched hexec (ih h')

theorem ReadsLines.append (h : ReadsLines parser fuel lines s t)
    (h' : ReadsLines parser fuel lines' t u) : ReadsLines parser fuel (lines ++ lines') s u := by
  refine ⟨?_, h.processes.append h'.processes⟩
  rw [List.length_append]
  exact h.turns.trans h'.turns

/-- A turn over a line that is collected, whatever keyword it starts with. -/
theorem exists_readsLines_one (fuel : Nat) (hs : s.repeatStack = stack ++ [dup])
    (hdup : dup.isInWork = false) (h : upcoming s = line :: rest) (hline : IsInside (parser.repeatDirective line) dup.level) :
    ∃ t, ReadsLines parser fuel [line] s t ∧ upcoming t = rest ∧ ∃ source : BodyLine,
      t.repeatStack = stack ++ [collectInto dup source (parser.repeatDirective line)] := by
  have hfetched := fetched_skipped_one h
  have hu := hfetched.repeatStack.trans hs
  rw [← hfetched.line] at hline
  have hexec : (parseLine parser (fuel + 1)).exec _ = _ := exec_collect hu hdup hline
  rw [hfetched.line] at hexec
  refine ⟨_, ⟨.succ .zero ?_, .cons hfetched hexec .nil⟩, upcoming_skipped_one h, _, rfl⟩
  have hcollects : collectsLines s = true := collectsLines_of_top hs hdup
  rw [exec_readFileTurn h, keywordSeen, if_pos hcollects]
  dsimp only
  rw [exec_bind_of_some hexec, exec_pure]

/-- Well nested lines behind the line of a repeat are read as its lines. -/
theorem exists_readsLines (fuel : Nat) (hbody : NestedRepeats parser body)
    (hs : s.repeatStack = stack ++ [dup]) (hdup : dup.isInWork = false) (h : upcoming s = body ++ rest) :
    ∃ t, ReadsLines parser fuel body s t ∧ upcoming t = rest := by
  induction hbody generalizing dup s rest with
  | nil => exact ⟨s, .refl s, h⟩
  | @plain line lines hline _ ih =>
    obtain ⟨u, hfirst, hlines, _, hu⟩ := exists_readsLines_one fuel hs hdup h (.inl hline)
    obtain ⟨t, hreads, hrest⟩ := ih hu hdup hlines
    exact ⟨t, hfirst.append hreads, hrest⟩
  | @block line last inner lines hline hinner hlast _ ihinner ih =>
    rw [List.append_assoc] at h
    obtain ⟨u, hfirst, hlines, _, hu⟩ :=
      exists_readsLines_one fuel hs hdup h (.inr (.inl hline))
    -- the lines of the inner block leave its level, so its last line is not the one of the repeat
    obtain ⟨v, hblock, hbehind⟩ := ihinner hu hdup hlines
    obtain ⟨-, _, -, hv⟩ := processes_collects hinner hu hdup hblock.processes
    rw [hline] at hv
    obtain ⟨w, hend, hlines', _, hw⟩ := exists_readsLines_one fuel hv hdup hbehind
      (.inr (.inr ⟨hlast, Nat.succ_ne_zero dup.level⟩))
    obtain ⟨t, hreads, hrest⟩ := ih hw hdup hlines'
    exact ⟨t, (hfirst.append hblock).append (hend.append hreads), hrest⟩

/-- **A repeat in a file or in a macro.**  From the line behind a `DUP` on, `ReadFile` takes a turn for each
line of the block, and gets to its last line in a state in which the repeat is undisturbed. -/
theorem exists_undisturbed_of_upcoming {indexVar : Text} (hrunning : s.isRunning = true)
    (hbody : NestedRepeats parser body) (hstatements : Statements parser fuel body)
    (hlength : body.length < fuel)
    (h : upcoming ((dirDUP n none indexVar).final s) = body ++ edup :: rest) :
    ∃ t, ReadsLines parser fuel body ((dirDUP n none indexVar).final s) t ∧
      upcoming t = edup :: rest ∧ Fetched edup t (skipped 1 t) ∧
        Undisturbed (dupPass parser fuel indexVar s (skipped 1 t)) s.repeatStack.length n
          (blockStart (skipped 1 t)) := by
  obtain ⟨t, hreads, hrest⟩ := exists_readsLines fuel hbody rfl rfl h
  have hfetched := fetched_skipped_one hrest
  exact ⟨t, hreads, hrest, hfetched,
    undisturbed_of_statements hrunning hbody hstatements hlength hreads.processes hfetched⟩

end

/-- A repeat in the lines. -/
example : Statements dupParser 6 [" DUP 3".toList, " nop".toList, " EDUP".toList] := by
  have hopens : OpensRepeat dupParser " DUP 3".toList 3 [] := by
    intro u hu
    simp only [dupParser, exampleParser, hu]
    exact ⟨rfl, rfl⟩
  have hnop : KeepsStack dupParser 5 " nop".toList [] := by
    refine keepsStack_other fun u hu => ⟨?_, (), [], ?_⟩
    · simp only [dupParser, exampleParser, hu]
      rfl
    · simp only [dupParser, hu]
      rfl
  exact .block hopens (.plain rfl .nil) (.statement hnop .nil) (by decide) (by decide) rfl .nil

end Sjasmplus
