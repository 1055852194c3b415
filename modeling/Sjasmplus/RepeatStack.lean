import Sjasmplus.MacroEmit

/-!
# The stack of repeats

While the lines of a repeat are processed, it stays on the stack of repeats as it is.  Lines may open
repeats of their own above it, and close them, or take no end; only a stray `ELSE`, `ELSEIF` or `ENDIF`
reaches down to it, and sets its count to zero.

* `StackRelation` — what a relation must be like, so that every line keeps it;
* `keepsWork_parseLine` — what a line leaves of the repeats in work;
* `keepsBelow_parseLine` — a line leaves what is below a repeat in work.
-/

namespace Sjasmplus

open Program

variable {ω : Type}

/-! ### Relations that lines keep -/

/-- What statements do to the stack of repeats is related.  A program that has a repeat of its own may
change the count of this one. -/
class StackRelation (R : Option Nat → ExpandState ω → ExpandState ω → Prop) : Prop where
  trans {own : Option Nat} {s t u : ExpandState ω} : R own s t → R own t u → R own s u
  of_eq {own : Option Nat} {s t : ExpandState ω} : t.repeatStack = s.repeatStack → R own s t
  of_none {own : Option Nat} {s t : ExpandState ω} : R none s t → R own s t
  push {own : Option Nat} {s t : ExpandState ω} {dup : Repeat} :
    t.repeatStack = s.repeatStack ++ [dup] → R own s t
  reset {own : Option Nat} {s t : ExpandState ω} :
    t.repeatStack = s.repeatStack.modify (s.repeatStack.length - 1) (fun dup =>
      { dup with repeatCount := 0 }) → R own s t
  count {i : Nat} {s t : ExpandState ω} :
    t.repeatStack = s.repeatStack.modify i (fun dup =>
      { dup with repeatCount := dup.repeatCount - 1 }) → R (some i) s t
  top {s s' t : ExpandState ω} {f : Repeat → Repeat} :
    s'.repeatStack = s.repeatStack.modify (s.repeatStack.length - 1) f →
    (∀ dup, s.repeatStack[s.repeatStack.length - 1]? = some dup → dup.isInWork = false) →
    R (some (s.repeatStack.length - 1)) s' t → R none s t
  pop {s s' t u : ExpandState ω} {f : Repeat → Repeat} (dup : Repeat) :
    s'.repeatStack = s.repeatStack.modify (s.repeatStack.length - 1) f →
    (∀ dup, s.repeatStack[s.repeatStack.length - 1]? = some dup → dup.isInWork = false) →
    s'.repeatStack[s.repeatStack.length - 1]? = some dup → dup.isInWork = true →
    R (some (s.repeatStack.length - 1)) s' t → u.repeatStack = t.repeatStack.dropLast → R none s u

/-- The top only collects lines. -/
theorem getElem?_top {stack : List Repeat} {dup top : Repeat} (htop : stack.getLast? = some top)
    (hdup : stack[stack.length - 1]? = some dup) : dup = top := by
  rw [List.getLast?_eq_getElem?, hdup] at htop
  exact Option.some.inj htop

/-- The part of a turn behind its test. -/
def repeatBody (parser : StatementParser ω) (parse : ExpandProgram ω Unit) (fuel : Nat) (dup : Repeat)
    (index : Nat) : ExpandProgram ω (Nat ⊕ Unit) := do
  setSourcePos dup.sourcePos
  let index ← setIndexVariable parser ((dup.lines.head?.bind (·.string)).getD []) index
  modify fun s => { s with lijstp := dup.lines.tail }
  loop (repeatLineTurn parse) fuel ()
  pure (.inl index)

namespace StackRelation

variable {R : Option Nat → ExpandState ω → ExpandState ω → Prop} [StackRelation R] {own : Option Nat}

instance : Std.Refl (R own) := ⟨fun _ => of_eq rfl⟩

instance : IsTrans (ExpandState ω) (R own) := ⟨fun _ _ _ => trans⟩

/-! ### Primitive statements -/

theorem keeps_modify {f : ExpandState ω → ExpandState ω}
    (h : ∀ s, (f s).repeatStack = s.repeatStack) : Keeps (R own) (modify f) :=
  Keeps.modify fun s => of_eq (h s)

theorem keeps_modify_bind {α : Type} {f : ExpandState ω → ExpandState ω}
    {g : PUnit → ExpandProgram ω α} (h : ∀ s, (f s).repeatStack = s.repeatStack)
    (hg : ∀ u, Keeps (R own) (g u)) : Keeps (R own) (modify f >>= g) :=
  (keeps_modify h).bind hg

theorem keeps_setSourcePos (pos : TextFilePos) :
    Keeps (R own) (setSourcePos pos : ExpandProgram ω Unit) :=
  keeps_modify fun _ => rfl

theorem keeps_reportError (message : String) (badValueMessage : Option Text) (type : EStatus) :
    Keeps (R own) (reportError message badValueMessage type : ExpandProgram ω Unit) :=
  keeps_modify fun _ => rfl

theorem keeps_modifyWorld (f : ExpandState ω → ω × List Event) :
    Keeps (R own) (modifyWorld f) :=
  keeps_modify fun _ => rfl

theorem keeps_copyLijstp (string : Option Text) (rest : List BodyLine) :
    Keeps (R own) (copyLijstp string rest : ExpandProgram ω Unit) := by
  cases string with
  | some string => exact keeps_modify fun _ => rfl
  | none => exact keeps_modify_bind (fun _ => rfl) fun _ => Keeps.exit

/-! ### Reading lines -/

theorem keeps_readLineNoMacro : Keeps (R own) (readLineNoMacro : ExpandProgram ω Bool) := by
  refine Keeps.get_bind fun s => ?_
  cases s.source with
  | nil => exact Keeps.pure false
  | cons line source =>
    refine Keeps.ite ?_ (Keeps.pure false)
    refine keeps_modify_bind (fun _ => rfl) fun _ => ?_
    exact (keeps_setSourcePos _).bind fun _ => Keeps.pure true

theorem keeps_readLine : Keeps (R own) (readLine : ExpandProgram ω Bool) := by
  refine Keeps.get_bind fun s => Keeps.ite ?_ keeps_readLineNoMacro
  match s.lijstp with
  | [] => exact Keeps.pure false
  | ⟨none, _⟩ :: _ => exact Keeps.pure false
  | ⟨some string, source⟩ :: rest =>
    refine (keeps_setSourcePos source).bind fun _ => ?_
    exact (keeps_copyLijstp (some string) rest).bind fun _ => Keeps.pure true

theorem keeps_skipUntil (last : Text → Bool) (fuel : Nat) :
    Keeps (R own) (skipUntil last fuel : ExpandProgram ω Unit) := by
  refine Keeps.loop (fun _ => ?_) fuel ()
  refine keeps_readLine.bind fun more => Keeps.ite ?_ (Keeps.pure _)
  exact Keeps.get_bind fun s => Keeps.pure _

theorem keeps_readUntil (last : Text → Bool) (parse : ω → Text → ω) (fuel : Nat) :
    Keeps (R own) (readUntil last parse fuel) := by
  refine Keeps.loop (fun _ => ?_) fuel ()
  refine keeps_readLine.bind fun more => Keeps.ite ?_ (Keeps.pure _)
  refine Keeps.get_bind fun s => Keeps.ite (Keeps.pure _) ?_
  exact (keeps_modifyWorld _).bind fun _ => Keeps.pure _

theorem keeps_skipFile (isPseudoOpBOF : Bool) (fuel : Nat) :
    Keeps (R own) (skipFile isPseudoOpBOF fuel : ExpandProgram ω EReturn) := by
  refine Keeps.loop (fun iflevel => ?_) fuel 0
  refine keeps_readLine.bind fun more => Keeps.ite ?_ (Keeps.pure _)
  refine Keeps.get_bind fun s => Keeps.ite (Keeps.pure _) ?_
  match branchEnd (skippedKeyword isPseudoOpBOF s.line) with
  | some .ENDIF => exact Keeps.pure _
  | some .END => exact Keeps.pure _
  | some .ELSE => exact Keeps.pure _
  | some .ELSEIF => exact Keeps.pure _
  | none => exact (Keeps.when (keeps_skipUntil _ fuel)).bind fun _ => Keeps.pure _

/-! ### Statements without lines of their own -/

/-- A stray end of a branch sets the count of the top to zero. -/
theorem keeps_dirElseCheckLiveDup :
    Keeps (R own) (dirElseCheckLiveDup : ExpandProgram ω Unit) := by
  refine Keeps.get_bind fun s => Keeps.ite ?_ (Keeps.pure ())
  refine (keeps_reportError _ _ _).bind fun _ => Keeps.modify fun s => ?_
  exact reset rfl

theorem keeps_dirMODULE (n : Option Text) (bp : Text) :
    Keeps (R own) (dirMODULE n bp : ExpandProgram ω Unit) := by
  cases n with
  | none => exact keeps_reportError _ _ _
  | some n => exact Keeps.ite (keeps_reportError _ _ _) (keeps_modify fun _ => rfl)

theorem keeps_dirENDMODULE : Keeps (R own) (dirENDMODULE : ExpandProgram ω Unit) :=
  Keeps.get_bind fun _ => Keeps.ite (keeps_reportError _ _ _) (keeps_modify fun _ => rfl)

/-- A new repeat comes above the others. -/
theorem keeps_dirDUP (val : Int) (condition : Option Text) (indexVar : Text) :
    Keeps (R own) (dirDUP val condition indexVar : ExpandProgram ω Unit) :=
  Keeps.modify fun _ => push rfl

/-- A test of the own repeat. -/
theorem keeps_shouldRepeat (parser : StatementParser ω) (i : Nat) (dup : Repeat) :
    Keeps (R (some i)) (shouldRepeat parser i dup) := by
  refine Keeps.bind (Keeps.modify fun s => ?_) fun _ => ?_
  · exact count rfl
  · cases dup.repeatCondition with
    | none => exact Keeps.pure _
    | some condition =>
      apply Keeps.ite
      · exact (keeps_reportError _ _ _).bind fun _ => Keeps.pure false
      · refine (Keeps.asks _).bind fun val => ?_
        exact keeps_modify_bind (fun _ => rfl) fun _ => Keeps.pure val

theorem keeps_setIndexVariable (parser : StatementParser ω) (indexVar : Text) (index : Nat) :
    Keeps (R own) (setIndexVariable parser indexVar index) :=
  Keeps.ite ((keeps_modifyWorld _).bind fun _ => Keeps.pure _) (Keeps.pure _)

theorem keeps_elseifValue (parser : StatementParser ω) (state : IfState) :
    Keeps (R own) (elseifValue parser state) := by
  refine (Keeps.asks _).bind fun val => keeps_modify_bind (fun _ => rfl) fun _ => ?_
  cases val with
  | none => exact Keeps.pure _
  | some val => exact Keeps.pure _

theorem keeps_startEmit : Keeps (R own) (startEmit : ExpandProgram ω Unit) := by
  refine Keeps.get_bind fun s => ?_
  cases emitLabel s.macronummer s.macrolabp with
  | none => exact keeps_modify_bind (fun _ => rfl) fun _ => Keeps.exit
  | some labnr =>
    exact keeps_modify_bind (fun _ => rfl) fun _ => Keeps.when (keeps_modify fun _ => rfl)

theorem keeps_failMacroEmit (omacrolabp : Option Text) (odefs : List (Text × Text))
    (e : CallError) : Keeps (R own) (failMacroEmit omacrolabp odefs e : ExpandProgram ω Nat) := by
  refine (keeps_reportError _ _ _).bind fun _ => ?_
  exact keeps_modify_bind (fun _ => rfl) fun _ => Keeps.pure 1

theorem keeps_parseArguments (args : List Text) (macName : Text) (isNamed : Bool)
    (list seen : List Text) (p : Text) :
    Keeps (R own) (parseArguments args macName isNamed list seen p : ExpandProgram ω _) := by
  -- by induction on the names of the arguments
  induction list generalizing seen p with
  | nil => exact Keeps.pure _
  | cons a next ih =>
    rw [parseArguments]
    rcases argumentName args macName isNamed seen a p with ⟨e | argName, p⟩
    · exact Keeps.pure _
    · have hvalue : Keeps (R own) (getMacroArgumentValue p : ExpandProgram ω _) := by
        refine Keeps.bind (Keeps.when ?_) fun _ => Keeps.pure _
        exact keeps_modify fun _ => rfl
      refine hvalue.bind ?_
      rintro ⟨value, p⟩
      cases value with
      | none => exact Keeps.pure _
      | some ml =>
        refine Keeps.ite ?_ (Keeps.pure _)
        exact keeps_modify_bind (fun _ => rfl) fun _ => ih _ _

/-! ### Statements with lines of their own -/

section

variable {parse : ExpandProgram ω Unit} (hparse : Keeps (R none) parse)
  (parser : StatementParser ω) (fuel : Nat)

include hparse

theorem keeps_parse : Keeps (R own) parse := hparse.mono fun _ _ => of_none

theorem keeps_readFile : Keeps (R own) (readFile parse fuel) := by
  refine Keeps.loop (fun _ => ?_) fuel ()
  refine keeps_readLine.bind fun more => Keeps.ite ?_ (Keeps.pure _)
  refine Keeps.get_bind fun s => ?_
  cases if collectsLines s then none else branchEnd (skipDot (skipBlanks s.line)) with
  | some retVal => exact Keeps.pure _
  | none => exact (keeps_parse hparse).bind fun _ => Keeps.pure _

theorem keeps_dirIfInternal (dirName : String) (val : Bool) :
    Keeps (R own) (dirIfInternal parser parse fuel dirName val) := by
  refine Keeps.loop (fun state => ?_) fuel _
  have hbranch : Keeps (R own) (readBranch parser parse fuel state.val) :=
    Keeps.ite (keeps_readFile hparse fuel) (keeps_skipFile _ fuel)
  refine hbranch.bind fun ret => ?_
  cases ret with
  | ELSE => exact (Keeps.when (keeps_reportError _ _ _)).bind fun _ => Keeps.pure _
  | ELSEIF =>
    refine Keeps.ite ?_ (Keeps.pure _)
    exact (keeps_elseifValue parser _).bind fun _ => Keeps.pure _
  | ENDIF => exact Keeps.pure _
  | END =>
    refine (Keeps.asks _).bind fun isRunning => ?_
    exact (Keeps.when (keeps_reportError _ _ _)).bind fun _ => Keeps.pure _

theorem keeps_repeatLineTurn (u : Unit) : Keeps (R own) (repeatLineTurn parse u) := by
  refine Keeps.get_bind fun s => ?_
  match s.isRunning, s.lijstp with
  | false, _ => exact Keeps.pure _
  | true, [] => exact Keeps.pure _
  | true, ⟨none, _⟩ :: _ => exact Keeps.pure _
  | true, ⟨some string, source⟩ :: rest =>
    refine (Keeps.when (keeps_setSourcePos source)).bind fun _ => ?_
    refine (keeps_copyLijstp (some string) rest).bind fun _ => ?_
    refine (keeps_parse hparse).bind fun _ => (Keeps.asks _).bind fun pos => ?_
    exact (keeps_setSourcePos _).bind fun _ => Keeps.pure _

theorem keeps_repeatBody (dup : Repeat) (index : Nat) :
    Keeps (R own) (repeatBody parser parse fuel dup index) := by
  refine (keeps_setSourcePos _).bind fun _ => ?_
  refine (keeps_setIndexVariable parser _ _).bind fun index => ?_
  refine keeps_modify_bind (fun _ => rfl) fun _ => ?_
  exact (Keeps.loop (keeps_repeatLineTurn hparse) fuel ()).bind fun _ => Keeps.pure _

/-- A turn of a repeat counts itself, and keeps those around it. -/
theorem keeps_repeatTurn (i index : Nat) :
    Keeps (R (some i)) (repeatTurn parser parse fuel i index) := by
  refine Keeps.get_bind fun s => ?_
  cases s.repeatStack[i]? with
  | none => exact Keeps.pure _
  | some dup =>
    refine Keeps.ite (Keeps.pure _) ?_
    refine (keeps_shouldRepeat parser i dup).bind fun _ => Keeps.ite ?_ (Keeps.pure _)
    exact keeps_repeatBody hparse parser fuel dup index

/-- Behind its turns the own repeat is still there, so that the top may be taken off. -/
theorem keeps_dirEDUP : Keeps (R none) (dirEDUP parser parse fuel) := by
  refine Keeps.get_bind_at fun s => ?_
  cases htop : s.repeatStack.getLast? with
  | none => exact keeps_reportError _ _ _ s
  | some top =>
    dsimp only
    by_cases hwork : top.isInWork = true
    · rw [if_pos hwork]
      exact keeps_reportError _ _ _ s
    · rw [if_neg hwork]
      have hcollects : ∀ dup, s.repeatStack[s.repeatStack.length - 1]? = some dup →
          dup.isInWork = false := fun dup hdup =>
        getElem?_top htop hdup ▸ Bool.not_eq_true _ ▸ hwork
      by_cases hlevel : top.level ≠ 0
      · rw [if_pos hlevel]
        exact StackRelation.top rfl hcollects (refl _)
      · rw [if_neg hlevel]
        show R none s ((modifyRepeat _ _ >>= fun _ => bracket _ _ _).final s)
        rw [modifyRepeat, final_bind_of_some (exec_modify _ s)]
        refine final_bracket_of (P := R none s)
          (Keeps.loop (keeps_repeatTurn hparse parser fuel (s.repeatStack.length - 1)) fuel 0)
          (fun t ht => StackRelation.top rfl hcollects ht) fun t ht => ?_
        -- the own repeat is in work by now
        rw [List.getLast?_eq_getElem?] at htop
        refine pop { top with
          isInWork := true
          lines := top.lines.modify (top.lines.length - 1) fun last => { last with string := none } }
          rfl hcollects ?_ rfl ht rfl
        dsimp only
        rw [List.getElem?_modify_eq, htop]
        rfl

theorem keeps_dirENDM : Keeps (R none) (dirENDM parser parse fuel) := by
  refine Keeps.get_bind fun s => Keeps.ite ?_ (keeps_reportError _ _ _)
  exact keeps_modify_bind (fun _ => rfl) fun _ => keeps_dirEDUP hparse parser fuel

omit hparse in
/-- A bracket around a program that leaves the repeats in work. -/
theorem keeps_bracket {enter : ExpandState ω → ExpandState ω}
    {leave : ExpandState ω → ExpandState ω → ExpandState ω} {body : ExpandProgram ω Unit}
    (hbody : Keeps (R own) body) (henter : ∀ s, (enter s).repeatStack = s.repeatStack)
    (hleave : ∀ s t, (leave s t).repeatStack = t.repeatStack) :
    Keeps (R own) (bracket enter leave body) := by
  intro s
  have hentered (t : ExpandState ω) (ht : R own (enter s) t) : R own s t :=
    StackRelation.trans (of_eq (henter s)) ht
  exact final_bracket_of hbody hentered fun t ht =>
    StackRelation.trans (hentered t ht) (of_eq (hleave s t))

theorem keeps_dotRepeat (val : Nat) (pp : Text) : Keeps (R own) (dotRepeat parse fuel val pp) := by
  refine keeps_bracket (Keeps.loop (fun val => ?_) fuel val) (fun _ => rfl) fun _ _ => rfl
  refine keeps_modify_bind (fun _ => rfl) fun _ => ?_
  exact (keeps_parse hparse).bind fun _ => Keeps.pure _

theorem keeps_includeFile (file : Option (List Text)) :
    Keeps (R own) (includeFile parse fuel file) := by
  refine Keeps.get_bind fun s => Keeps.ite (keeps_reportError _ _ _) ?_
  cases file with
  | none => exact keeps_reportError _ _ _
  | some lines =>
    refine keeps_bracket (Keeps.loop (fun _ => ?_) fuel ()) (fun _ => rfl) fun _ _ => rfl
    refine keeps_readLineNoMacro.bind fun more => Keeps.ite ?_ (Keeps.pure _)
    exact (keeps_parse hparse).bind fun _ => Keeps.pure _

/-- The lines of a macro keep the repeats, since the parser of a line does. -/
theorem keeps_emitFound (macName : Text) (entry : MacroTableEntry) (p : Text) :
    Keeps (R own) (emitFound parse fuel macName entry p) := by
  refine (Keeps.asks _).bind fun omacrolabp => keeps_startEmit.bind fun _ => ?_
  refine (Keeps.asks _).bind fun odefs => (keeps_parseArguments _ _ _ _ _ _).bind ?_
  rintro ⟨e, p⟩
  cases e with
  | some e => exact (keeps_failMacroEmit _ _ _).bind fun _ => Keeps.pure _
  | none =>
    refine Keeps.ite ((keeps_failMacroEmit _ _ _).bind fun _ => Keeps.pure _) ?_
    refine Keeps.bind ?_ fun _ => keeps_modify_bind (fun _ => rfl) fun _ => Keeps.pure _
    refine keeps_bracket (Keeps.loop (fun _ => ?_) fuel ()) (fun _ => rfl) fun _ _ => rfl
    refine Keeps.get_bind fun s => ?_
    match s.lijstp with
    | [] => exact Keeps.pure _
    | ⟨string, source⟩ :: rest =>
      refine (keeps_setSourcePos source).bind fun _ => ?_
      refine (keeps_copyLijstp string rest).bind fun _ => ?_
      exact (keeps_parse hparse).bind fun _ => Keeps.pure _

theorem keeps_macroEmit (naam p : Text) : Keeps (R own) (macroEmit parse fuel naam p) := by
  refine Keeps.get_bind fun s => ?_
  cases if s.macsUsed (nameSlot naam) then s.macs naam else none with
  | none => exact Keeps.pure _
  | some entry => exact keeps_emitFound hparse fuel naam entry p

/-- Every statement of a line, one case for each directive. -/
theorem keeps_parseInstruction (lp : Option Text) :
    Keeps (R none) (parseInstruction parser parse fuel lp) := by
  refine (Keeps.asks _).bind fun statement => ?_
  cases statement with
  | other world log => exact keeps_modifyWorld _
  | fatal log => exact keeps_modify_bind (fun _ => rfl) fun _ => Keeps.exit
  | dirEND world log => exact (keeps_modifyWorld _).bind fun _ => keeps_modify fun _ => rfl
  | dirDUP val condition indexVar => exact keeps_dirDUP val condition indexVar
  | dirEDUP => exact keeps_dirEDUP hparse parser fuel
  | dirENDM => exact keeps_dirENDM hparse parser fuel
  | dirIF dirName val => exact keeps_dirIfInternal hparse parser fuel dirName val
  | dirELSE => exact keeps_dirElseCheckLiveDup.bind fun _ => keeps_reportError _ _ _
  | dirELSEIF => exact keeps_dirElseCheckLiveDup.bind fun _ => keeps_reportError _ _ _
  | dirENDIF => exact keeps_dirElseCheckLiveDup.bind fun _ => keeps_reportError _ _ _
  | dirMODULE n bp => exact keeps_dirMODULE n bp
  | dirENDMODULE => exact keeps_dirENDMODULE
  | dirINCLUDE file => exact keeps_includeFile hparse fuel file
  | dotRepeat val pp => exact keeps_dotRepeat hparse fuel val pp
  | readUntil last parse => exact keeps_readUntil last parse fuel

/-- A repeat that collects the line is not in work. -/
theorem keeps_collectLine {s : ExpandState ω} (hs : collectsLines s = true) :
    R none s ((collectLine parser parse fuel).final s) := by
  have hcollects : ∀ dup, s.repeatStack[s.repeatStack.length - 1]? = some dup →
      dup.isInWork = false := by
    intro dup hdup
    rw [collectsLines, List.getLast?_eq_getElem?, hdup] at hs
    simpa using hs
  have happended (f : Repeat → Repeat) :
      R none s { s with repeatStack := s.repeatStack.modify (s.repeatStack.length - 1) f } :=
    top rfl hcollects (refl _)
  rw [collectLine, final_bind_of_some (exec_get s)]
  show R none s ((modifyRepeat _ _ >>= fun _ => _).final s)
  rw [modifyRepeat, final_bind_of_some (exec_modify _ s)]
  match parser.repeatDirective s.line with
  | none => exact happended _
  | some .dirDUP =>
    -- the level changes with the line that is added
    exact top (List.modify_modify_eq _ _ _ _) hcollects (refl _)
  | some .dirEDUP => exact IsTrans.trans _ _ _ (happended _) (keeps_dirEDUP hparse parser fuel _)
  | some .dirENDM => exact IsTrans.trans _ _ _ (happended _) (keeps_dirENDM hparse parser fuel _)

theorem keeps_parseLineWith : Keeps (R none) (parseLineWith parser parse fuel) := by
  intro s
  rw [parseLineWith, final_bind_of_some (exec_asks _ s)]
  -- a line is collected, or it is a macro call or a statement
  by_cases hs : collectsLines s = true
  · rw [if_pos hs]
    exact keeps_collectLine hparse parser fuel hs
  · rw [if_neg hs]
    refine Keeps.bind (keeps_modifyWorld _) (fun _ => ?_) s
    refine (Keeps.asks _).bind fun call => ?_
    cases call with
    | none => exact keeps_parseInstruction hparse parser fuel none
    | some call =>
      refine (keeps_macroEmit hparse fuel _ _).bind fun r => ?_
      exact Keeps.ite (Keeps.pure ()) (keeps_parseInstruction hparse parser fuel _)

end

/-- What a line does to the stack, however deep repeats and calls are nested in it. -/
theorem keeps_parseLine (parser : StatementParser ω) (fuel : Nat) :
    Keeps (R none) (parseLine parser fuel) := by
  induction fuel with
  | zero => exact Keeps.exit
  | succ fuel ih => exact keeps_parseLineWith ih parser fuel

end StackRelation

/-! ### Repeats in work -/

/-- The repeats in work are still there, and only their counts may differ: those of repeats other than
`own` only by being zero. -/
def WorkKept (own : Option Nat) (s t : ExpandState ω) : Prop :=
  ∀ j dup, s.repeatStack[j]? = some dup → dup.isInWork = true →
    ∃ count, t.repeatStack[j]? = some { dup with repeatCount := count } ∧
      (own = some j ∨ count = dup.repeatCount ∨ count = 0)

instance (own : Option Nat) : Std.Refl (WorkKept (ω := ω) own) :=
  ⟨fun _ _ dup hdup _ => ⟨dup.repeatCount, hdup, .inr (.inl rfl)⟩⟩

instance (own : Option Nat) : IsTrans (ExpandState ω) (WorkKept own) where
  trans s t u hst htu := by
    intro j dup hdup hwork
    obtain ⟨count, ht, hcount⟩ := hst j dup hdup hwork
    obtain ⟨count', hu, hcount'⟩ := htu j _ ht hwork
    refine ⟨count', hu, ?_⟩
    rcases hcount' with hown | heq | hzero
    · exact .inl hown
    · rcases hcount with hown | hsame | hzero
      · exact .inl hown
      · exact .inr (.inl (heq.trans hsame))
      · exact .inr (.inr (heq.trans hzero))
    · exact .inr (.inr hzero)

theorem WorkKept.of_eq {own : Option Nat} {s t : ExpandState ω} (h : t.repeatStack = s.repeatStack) :
    WorkKept own s t := by
  intro j dup hdup _
  exact ⟨dup.repeatCount, by rw [h, hdup], .inr (.inl rfl)⟩

/-- Nobody's own repeat is touched. -/
theorem WorkKept.of_none {own : Option Nat} {s t : ExpandState ω} (h : WorkKept none s t) :
    WorkKept own s t := by
  intro j dup hdup hwork
  obtain ⟨count, ht, hcount⟩ := h j dup hdup hwork
  exact ⟨count, ht, hcount.imp_left nofun⟩

/-- An update of a repeat that is not in work, or of the own one. -/
theorem WorkKept.modify {own : Option Nat} {s t : ExpandState ω} {i : Nat} {f : Repeat → Repeat}
    (ht : t.repeatStack = s.repeatStack.modify i f)
    (hi : ∀ dup, s.repeatStack[i]? = some dup → dup.isInWork = true →
      ∃ count, f dup = { dup with repeatCount := count } ∧
        (own = some i ∨ count = dup.repeatCount ∨ count = 0)) :
    WorkKept own s t := by
  intro j dup hdup hwork
  rw [ht, List.getElem?_modify, hdup]
  by_cases hij : i = j
  · subst hij
    obtain ⟨count, hf, hcount⟩ := hi dup hdup hwork
    exact ⟨count, by rw [Option.map_eq_map, Option.map_some, if_pos rfl, hf], hcount⟩
  · exact ⟨dup.repeatCount, by rw [Option.map_eq_map, Option.map_some, if_neg hij], .inr (.inl rfl)⟩

/-- What leaves all repeats but the own one leaves all that are in work in front of it. -/
theorem WorkKept.of_own {i : Nat} {s s' t : ExpandState ω} {f : Repeat → Repeat}
    (hs' : s'.repeatStack = s.repeatStack.modify i f)
    (hi : ∀ dup, s.repeatStack[i]? = some dup → dup.isInWork = false)
    (ht : WorkKept (some i) s' t) : WorkKept none s t := by
  intro j dup hdup hwork
  -- the own repeat is not in work, and so it is another one
  have hij : i ≠ j := by
    rintro rfl
    exact Bool.false_ne_true ((hi dup hdup).symm.trans hwork)
  have hdup' : s'.repeatStack[j]? = some dup := by
    rw [hs', List.getElem?_modify_ne _ _ hij]
    exact hdup
  obtain ⟨count, htj, hown | hcount⟩ := ht j dup hdup' hwork
  · exact absurd (Option.some.inj hown) hij
  · exact ⟨count, htj, .inr hcount⟩

/-- The repeat at the end is taken off, as long as there is one that was not in work before. -/
theorem WorkKept.dropLast {s t u : ExpandState ω} (ht : WorkKept none s t)
    (hlength : s.repeatStack.length ≤ t.repeatStack.length)
    (htop : ∀ dup, s.repeatStack[s.repeatStack.length - 1]? = some dup → dup.isInWork = false)
    (hu : u.repeatStack = t.repeatStack.dropLast) : WorkKept none s u := by
  intro j dup hdup hwork
  obtain ⟨count, htj, hcount⟩ := ht j dup hdup hwork
  refine ⟨count, ?_, hcount⟩
  have hj : j < s.repeatStack.length := (List.getElem?_eq_some_iff.mp hdup).1
  have hne : j ≠ s.repeatStack.length - 1 := by
    rintro rfl
    exact Bool.false_ne_true ((htop dup hdup).symm.trans hwork)
  rw [hu, List.getElem?_dropLast, if_pos (by omega), htj]

/-- The relation of what is left of the repeats in work. -/
instance : StackRelation (WorkKept (ω := ω)) where
  trans h h' := IsTrans.trans _ _ _ h h'
  of_eq := WorkKept.of_eq
  of_none := WorkKept.of_none
  push := by
    intro own s t dup ht j top htop _
    have hlength : j < s.repeatStack.length := (List.getElem?_eq_some_iff.mp htop).1
    exact ⟨top.repeatCount, by rw [ht, List.getElem?_append_left hlength, htop], .inr (.inl rfl)⟩
  reset ht := WorkKept.modify ht fun _ _ _ => ⟨0, rfl, .inr (.inr rfl)⟩
  count ht := WorkKept.modify ht fun _ _ _ => ⟨_, rfl, .inl rfl⟩
  top := WorkKept.of_own
  pop := by
    intro s s' t u f dup hs' hcollects hdup hwork ht hu
    -- the own repeat is still there, so that the top may be taken off
    obtain ⟨count, hlast, -⟩ := ht _ dup hdup hwork
    have hlength := (List.getElem?_eq_some_iff.mp hlast).1
    exact WorkKept.dropLast (WorkKept.of_own hs' hcollects ht) (by omega) hcollects hu

/-- A program that leaves the repeats in work. -/
abbrev KeepsWork (own : Option Nat) {α : Type} (p : ExpandProgram ω α) : Prop := Keeps (WorkKept own) p

/-- **The repeats in work.**  What a line leaves of them, however deep repeats and calls are nested
in it. -/
theorem keepsWork_parseLine (parser : StatementParser ω) (fuel : Nat) :
    KeepsWork none (parseLine parser fuel) :=
  StackRelation.keeps_parseLine parser fuel

/-! ### Below a repeat in work -/

/-- The stack below the repeats in work is as it was, as far as these are not above the own one. -/
def BelowKept (own : Option Nat) (s t : ExpandState ω) : Prop :=
  WorkKept own s t ∧ ∀ j dup, s.repeatStack[j]? = some dup → dup.isInWork = true →
    (∀ i, own = some i → j ≤ i) → t.repeatStack.take j = s.repeatStack.take j

theorem take_modify_of_le {stack : List Repeat} {i j : Nat} (f : Repeat → Repeat) (h : j ≤ i) :
    (stack.modify i f).take j = stack.take j := by
  apply List.ext_getElem?
  intro k
  rw [List.getElem?_take, List.getElem?_take]
  split_ifs with hk
  · rw [List.getElem?_modify_ne _ _ (by omega)]
  · rfl

/-- A repeat in work is not the top, when this one only collects lines. -/
theorem ne_top {s : ExpandState ω} {j : Nat} {dup : Repeat}
    (hcollects : ∀ dup, s.repeatStack[s.repeatStack.length - 1]? = some dup → dup.isInWork = false)
    (hdup : s.repeatStack[j]? = some dup) (hwork : dup.isInWork = true) :
    s.repeatStack.length - 1 ≠ j := by
  rintro rfl
  exact Bool.false_ne_true ((hcollects dup hdup).symm.trans hwork)

/-- What is left below the top is left below all repeats that are in work in front of it. -/
theorem BelowKept.of_own {s s' t : ExpandState ω} {f : Repeat → Repeat}
    (hs' : s'.repeatStack = s.repeatStack.modify (s.repeatStack.length - 1) f)
    (hcollects : ∀ dup, s.repeatStack[s.repeatStack.length - 1]? = some dup → dup.isInWork = false)
    (h : BelowKept (some (s.repeatStack.length - 1)) s' t) : BelowKept none s t := by
  refine ⟨WorkKept.of_own hs' hcollects h.1, fun j dup hdup hwork _ => ?_⟩
  have hlength : j < s.repeatStack.length := (List.getElem?_eq_some_iff.mp hdup).1
  have hdup' : s'.repeatStack[j]? = some dup := by
    rw [hs', List.getElem?_modify_ne _ _ (ne_top hcollects hdup hwork), hdup]
  have hle : ∀ i, some (s.repeatStack.length - 1) = some i → j ≤ i := by
    rintro i hi
    obtain rfl := Option.some.inj hi
    omega
  rw [h.2 j dup hdup' hwork hle, hs', take_modify_of_le _ (by omega)]

/-- The relation of what is left below the repeats in work. -/
instance : StackRelation (BelowKept (ω := ω)) where
  trans := by
    rintro own s t u ⟨hst, hbelow⟩ ⟨htu, hbelow'⟩
    refine ⟨IsTrans.trans _ _ _ hst htu, fun j dup hdup hwork hown => ?_⟩
    obtain ⟨count, htj, -⟩ := hst j dup hdup hwork
    exact (hbelow' j _ htj hwork hown).trans (hbelow j dup hdup hwork hown)
  of_eq h := ⟨WorkKept.of_eq h, fun j _ _ _ _ => congrArg (List.take j) h⟩
  of_none := by
    rintro own s t ⟨hst, hbelow⟩
    exact ⟨hst.of_none, fun j dup hdup hwork _ => hbelow j dup hdup hwork nofun⟩
  push := by
    intro own s t dup ht
    refine ⟨StackRelation.push ht, fun j top htop _ _ => ?_⟩
    have hlength : j < s.repeatStack.length := (List.getElem?_eq_some_iff.mp htop).1
    rw [ht, List.take_append_of_le_length (by omega)]
  reset := by
    intro own s t ht
    refine ⟨StackRelation.reset ht, fun j dup hdup _ _ => ?_⟩
    have hlength : j < s.repeatStack.length := (List.getElem?_eq_some_iff.mp hdup).1
    rw [ht, take_modify_of_le _ (by omega)]
  count := by
    intro i s t ht
    refine ⟨StackRelation.count ht, fun j _ _ _ hown => ?_⟩
    rw [ht, take_modify_of_le _ (hown i rfl)]
  top := BelowKept.of_own
  pop := by
    intro s s' t u f dup hs' hcollects hdup hwork ht hu
    refine ⟨StackRelation.pop dup hs' hcollects hdup hwork ht.1 hu, fun j top htop hworkj hown => ?_⟩
    have hlength : j < s.repeatStack.length := (List.getElem?_eq_some_iff.mp htop).1
    have hne := ne_top hcollects htop hworkj
    -- the own repeat is still there, above what the take looks at
    obtain ⟨count, hlast, -⟩ := ht.1 _ dup hdup hwork
    have hlast := (List.getElem?_eq_some_iff.mp hlast).1
    rw [hu, List.dropLast_eq_take, List.take_take, min_eq_left (by omega)]
    exact (BelowKept.of_own hs' hcollects ht).2 j top htop hworkj hown

/-- **Below a repeat.**  A line leaves the stack below a repeat in work as it is. -/
theorem keepsBelow_parseLine (parser : StatementParser ω) (fuel : Nat) :
    Keeps (BelowKept none) (parseLine parser fuel) :=
  StackRelation.keeps_parseLine parser fuel

end Sjasmplus
