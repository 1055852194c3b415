import Sjasmplus.MacroEmit

/-!
# A macro call puts everything back

Around a body, a macro call changes the macro defines, the prefix of local labels, the source of lines
and some counters.  All of them are what they were before when the call returns, however the body is
nested and whatever errors it has; only modules may stay open or be closed.

* `keepsFrame_parseLine` — what a line keeps;
* `getverv_inBody` — inside of a call, its arguments come before those of the calls around it;
* `emit_restores` — what a macro call keeps.
-/

namespace Sjasmplus

open Program

variable {ω : Type}

/-! ### What a line keeps -/

/-- Outside of macros there are no macro defines, and no slot of a define is marked as empty. -/
structure ExpandState.Sound (s : ExpandState ω) : Prop where
  outside : s.macrolabp = none → s.defs = []
  used : ∀ entry ∈ s.defs, s.used (nameSlot entry.1) = true

instance (s : ExpandState ω) : Decidable s.Sound :=
  decidable_of_iff
    ((s.macrolabp = none → s.defs = []) ∧ ∀ entry ∈ s.defs, s.used (nameSlot entry.1) = true)
    ⟨fun h => ⟨h.1, h.2⟩, fun h => ⟨h.outside, h.used⟩⟩

/-- What is the same behind a line.  The block level goes up and down with the modules. -/
structure Frame (s t : ExpandState ω) : Prop where
  defs : t.defs = s.defs
  macrolabp : t.macrolabp = s.macrolabp
  lijst : t.lijst = s.lijst
  listmacro : t.listmacro = s.listmacro
  depth : t.sourcePosStack.length = s.sourcePosStack.length
  level : t.sourceBlockLevel - 2 * t.opened + 2 * t.closed
    = s.sourceBlockLevel - 2 * s.opened + 2 * s.closed
  used : s.macrolabp ≠ none → ∀ slot, s.used slot = true → t.used slot = true

instance : Std.Refl (Frame (ω := ω)) :=
  ⟨fun _ => ⟨rfl, rfl, rfl, rfl, rfl, rfl, fun _ _ h => h⟩⟩

instance : IsTrans (ExpandState ω) Frame where
  trans s t u hst htu := by
    refine ⟨htu.defs.trans hst.defs, htu.macrolabp.trans hst.macrolabp, htu.lijst.trans hst.lijst,
      htu.listmacro.trans hst.listmacro, htu.depth.trans hst.depth, htu.level.trans hst.level, ?_⟩
    intro hinside slot hslot
    have hinside' : t.macrolabp ≠ none := by
      rw [hst.macrolabp]
      exact hinside
    exact htu.used hinside' slot (hst.used hinside slot hslot)

/-- The state inside of which lines of one call are parsed: it has these macro defines and this
prefix. -/
def InCall (defs : List (Text × Text)) (labp : Option Text) (s : ExpandState ω) : Prop :=
  s.Sound ∧ s.defs = defs ∧ s.macrolabp = labp

instance (defs : List (Text × Text)) (labp : Option Text) :
    DecidablePred (InCall (ω := ω) defs labp) :=
  fun s => inferInstanceAs (Decidable (s.Sound ∧ s.defs = defs ∧ s.macrolabp = labp))

/-- A state of the same frame is sound as well. -/
theorem Frame.sound {s t : ExpandState ω} (h : Frame s t) (hs : s.Sound) : t.Sound := by
  constructor
  · intro houtside
    rw [h.macrolabp] at houtside
    rw [h.defs]
    exact hs.outside houtside
  · intro entry hentry
    rw [h.defs] at hentry
    by_cases houtside : s.macrolabp = none
    · rw [hs.outside houtside] at hentry
      cases hentry
    · exact h.used houtside _ (hs.used entry hentry)

theorem InCall.congr {defs : List (Text × Text)} {labp : Option Text} {s t : ExpandState ω}
    (h : InCall defs labp s) (hdefs : t.defs = s.defs) (hlabp : t.macrolabp = s.macrolabp)
    (hused : t.used = s.used) : InCall defs labp t := by
  obtain ⟨hsound, rfl, rfl⟩ := h
  refine ⟨⟨?_, ?_⟩, hdefs, hlabp⟩
  · rw [hdefs, hlabp]
    exact hsound.outside
  · rw [hdefs, hused]
    exact hsound.used

instance (defs : List (Text × Text)) (labp : Option Text) :
    RunsAlike.Preserves (InCall (ω := ω) defs labp) Frame where
  inv _ _ hs hst :=
    ⟨hst.sound hs.1, hst.defs.trans hs.2.1, hst.macrolabp.trans hs.2.2⟩

/-- From the states of one call, the two programs run alike and keep the frame. -/
abbrev KeepsFrame {α : Type} (defs : List (Text × Text)) (labp : Option Text)
    (p q : ExpandProgram ω α) : Prop :=
  RunsAlike (InCall defs labp) Frame p q

/-- What the frame looks at. -/
def ExpandState.view (s : ExpandState ω) :=
  (s.defs, s.macrolabp, s.lijst, s.listmacro, s.sourcePosStack.length,
    s.sourceBlockLevel - 2 * s.opened + 2 * s.closed, s.used)

theorem Frame.of_view {s t : ExpandState ω} (h : t.view = s.view) : Frame s t := by
  simp only [ExpandState.view, Prod.mk.injEq] at h
  obtain ⟨hdefs, hmacrolabp, hlijst, hlistmacro, hdepth, hlevel, hused⟩ := h
  refine ⟨hdefs, hmacrolabp, hlijst, hlistmacro, hdepth, hlevel, ?_⟩
  intro _ slot hslot
  rw [hused]
  exact hslot

section

variable {defs : List (Text × Text)} {labp : Option Text}

/-! ### Primitive statements -/

/-- An update that the frame does not look at. -/
theorem keepsFrame_modify {f : ExpandState ω → ExpandState ω} (h : ∀ s, (f s).view = s.view) :
    KeepsFrame defs labp (modify f) (modify f) :=
  RunsAlike.modify fun s => Frame.of_view (h s)

theorem keepsFrame_modify_bind {α : Type} {f : ExpandState ω → ExpandState ω}
    {g g' : PUnit → ExpandProgram ω α} (h : ∀ s, (f s).view = s.view)
    (hg : ∀ u, KeepsFrame defs labp (g u) (g' u)) :
    KeepsFrame defs labp (modify f >>= g) (modify f >>= g') :=
  (keepsFrame_modify h).bind hg

theorem length_setBack {α : Type} (stack : List α) (top : α) :
    (stack.dropLast ++ stack.getLast?.toList.map fun _ => top).length = stack.length := by
  rcases List.eq_nil_or_concat stack with rfl | ⟨rest, last, rfl⟩
  · rfl
  · simp

theorem keepsFrame_setSourcePos (pos : TextFilePos) :
    KeepsFrame defs labp (setSourcePos pos : ExpandProgram ω Unit) (setSourcePos pos) := by
  apply keepsFrame_modify
  intro s
  simp only [ExpandState.view, length_setBack]

theorem keepsFrame_reportError (message : String) (badValueMessage : Option Text)
    (type : EStatus) :
    KeepsFrame defs labp (reportError message badValueMessage type : ExpandProgram ω Unit)
      (reportError message badValueMessage type) :=
  keepsFrame_modify fun _ => rfl

theorem keepsFrame_modifyWorld (f : ExpandState ω → ω × List Event) :
    KeepsFrame defs labp (modifyWorld f) (modifyWorld f) :=
  keepsFrame_modify fun _ => rfl

theorem keepsFrame_modifyRepeat (i : Nat) (f : Repeat → Repeat) :
    KeepsFrame defs labp (modifyRepeat i f : ExpandProgram ω Unit) (modifyRepeat i f) :=
  keepsFrame_modify fun _ => rfl

/-! ### Reading lines -/

theorem keepsFrame_copyLijstp (string : Option Text) (rest : List BodyLine) :
    KeepsFrame defs labp (copyLijstp string rest : ExpandProgram ω Unit)
      (copyLijstp string rest) := by
  cases string with
  | some string => exact keepsFrame_modify fun _ => rfl
  | none => exact keepsFrame_modify_bind (fun _ => rfl) fun _ => RunsAlike.exit

theorem keepsFrame_readLineNoMacro :
    KeepsFrame defs labp (readLineNoMacro : ExpandProgram ω Bool) readLineNoMacro := by
  refine RunsAlike.get.bind fun s => ?_
  cases s.source with
  | nil => exact RunsAlike.pure false
  | cons line source =>
    refine RunsAlike.ite ?_ (RunsAlike.pure false)
    refine keepsFrame_modify_bind (fun _ => rfl) fun _ => ?_
    exact (keepsFrame_setSourcePos _).bind fun _ => RunsAlike.pure true

theorem keepsFrame_readLine :
    KeepsFrame defs labp (readLine : ExpandProgram ω Bool) readLine := by
  refine RunsAlike.get.bind fun s => ?_
  refine RunsAlike.ite ?_ keepsFrame_readLineNoMacro
  match s.lijstp with
  | [] => exact RunsAlike.pure false
  | ⟨none, _⟩ :: _ => exact RunsAlike.pure false
  | ⟨some string, source⟩ :: rest =>
    refine (keepsFrame_setSourcePos source).bind fun _ => ?_
    exact (keepsFrame_copyLijstp (some string) rest).bind fun _ => RunsAlike.pure true

theorem keepsFrame_skipUntil (last : Text → Bool) (fuel : Nat) :
    KeepsFrame defs labp (skipUntil last fuel : ExpandProgram ω Unit) (skipUntil last fuel) := by
  refine RunsAlike.loop (fun _ => ?_) fuel ()
  refine keepsFrame_readLine.bind fun more => RunsAlike.ite ?_ (RunsAlike.pure _)
  exact RunsAlike.get.bind fun s => RunsAlike.pure _

theorem keepsFrame_readUntil (last : Text → Bool) (parse : ω → Text → ω) (fuel : Nat) :
    KeepsFrame defs labp (readUntil last parse fuel) (readUntil last parse fuel) := by
  refine RunsAlike.loop (fun _ => ?_) fuel ()
  refine keepsFrame_readLine.bind fun more => RunsAlike.ite ?_ (RunsAlike.pure _)
  refine RunsAlike.get.bind fun s => RunsAlike.ite (RunsAlike.pure _) ?_
  exact (keepsFrame_modifyWorld _).bind fun _ => RunsAlike.pure _

theorem keepsFrame_skipFile (isPseudoOpBOF : Bool) (fuel : Nat) :
    KeepsFrame defs labp (skipFile isPseudoOpBOF fuel : ExpandProgram ω EReturn)
      (skipFile isPseudoOpBOF fuel) := by
  refine RunsAlike.loop (fun iflevel => ?_) fuel 0
  refine keepsFrame_readLine.bind fun more => RunsAlike.ite ?_ (RunsAlike.pure _)
  refine RunsAlike.get.bind fun s => RunsAlike.ite (RunsAlike.pure _) ?_
  match branchEnd (skippedKeyword isPseudoOpBOF s.line) with
  | some .ENDIF => exact RunsAlike.pure _
  | some .END => exact RunsAlike.pure _
  | some .ELSE => exact RunsAlike.pure _
  | some .ELSEIF => exact RunsAlike.pure _
  | none =>
    exact (RunsAlike.when (keepsFrame_skipUntil _ fuel)).bind fun _ => RunsAlike.pure _

/-! ### Statements without lines of their own -/

theorem keepsFrame_dirElseCheckLiveDup :
    KeepsFrame defs labp (dirElseCheckLiveDup : ExpandProgram ω Unit) dirElseCheckLiveDup := by
  refine RunsAlike.get.bind fun s => RunsAlike.ite ?_ (RunsAlike.pure ())
  exact (keepsFrame_reportError _ _ _).bind fun _ => keepsFrame_modify fun _ => rfl

/-- A module that is opened goes with the block level. -/
theorem keepsFrame_dirMODULE (n : Option Text) (bp : Text) :
    KeepsFrame defs labp (dirMODULE n bp : ExpandProgram ω Unit) (dirMODULE n bp) := by
  cases n with
  | none => exact keepsFrame_reportError _ _ _
  | some n =>
    refine RunsAlike.ite (keepsFrame_reportError _ _ _) (keepsFrame_modify fun s => ?_)
    simp only [ExpandState.view, Prod.mk.injEq, true_and, and_true]
    push_cast
    omega

theorem keepsFrame_dirENDMODULE :
    KeepsFrame defs labp (dirENDMODULE : ExpandProgram ω Unit) dirENDMODULE := by
  refine RunsAlike.get.bind fun s => ?_
  refine RunsAlike.ite (keepsFrame_reportError _ _ _) (keepsFrame_modify fun s => ?_)
  simp only [ExpandState.view, Prod.mk.injEq, true_and, and_true]
  push_cast
  omega

theorem keepsFrame_shouldRepeat (parser : StatementParser ω) (i : Nat) (dup : Repeat) :
    KeepsFrame defs labp (shouldRepeat parser i dup) (shouldRepeat parser i dup) := by
  refine (keepsFrame_modifyRepeat i _).bind fun _ => ?_
  cases dup.repeatCondition with
  | none => exact RunsAlike.pure _
  | some condition =>
    apply RunsAlike.ite
    · exact (keepsFrame_reportError _ _ _).bind fun _ => RunsAlike.pure false
    · refine (RunsAlike.asks _).bind fun val => ?_
      exact keepsFrame_modify_bind (fun _ => rfl) fun _ => RunsAlike.pure val

theorem keepsFrame_setIndexVariable (parser : StatementParser ω) (indexVar : Text) (index : Nat) :
    KeepsFrame defs labp (setIndexVariable parser indexVar index)
      (setIndexVariable parser indexVar index) :=
  RunsAlike.ite ((keepsFrame_modifyWorld _).bind fun _ => RunsAlike.pure _) (RunsAlike.pure _)

theorem keepsFrame_elseifValue (parser : StatementParser ω) (state : IfState) :
    KeepsFrame defs labp (elseifValue parser state) (elseifValue parser state) := by
  refine (RunsAlike.asks _).bind fun val => keepsFrame_modify_bind (fun _ => rfl) fun _ => ?_
  cases val with
  | none => exact RunsAlike.pure _
  | some val => exact RunsAlike.pure _

/-! ### Statements with lines of their own -/

section

variable {parse parse' : ExpandProgram ω Unit} (hparse : KeepsFrame defs labp parse parse')
  (parser : StatementParser ω) (fuel : Nat)

include hparse

theorem keepsFrame_readFile :
    KeepsFrame defs labp (readFile parse fuel) (readFile parse' fuel) := by
  refine RunsAlike.loop (fun _ => ?_) fuel ()
  refine keepsFrame_readLine.bind fun more => RunsAlike.ite ?_ (RunsAlike.pure _)
  refine RunsAlike.get.bind fun s => ?_
  cases if collectsLines s then none else branchEnd (skipDot (skipBlanks s.line)) with
  | some retVal => exact RunsAlike.pure _
  | none => exact hparse.bind fun _ => RunsAlike.pure _

theorem keepsFrame_ifTurn (dirName : String) (state : IfState) :
    KeepsFrame defs labp (ifTurn parser parse fuel dirName state)
      (ifTurn parser parse' fuel dirName state) := by
  have hbranch : KeepsFrame defs labp (readBranch parser parse fuel state.val)
      (readBranch parser parse' fuel state.val) :=
    RunsAlike.ite (keepsFrame_readFile hparse fuel) (keepsFrame_skipFile _ fuel)
  refine hbranch.bind fun ret => ?_
  cases ret with
  | ELSE => exact (RunsAlike.when (keepsFrame_reportError _ _ _)).bind fun _ => RunsAlike.pure _
  | ELSEIF =>
    refine RunsAlike.ite ?_ (RunsAlike.pure _)
    exact (keepsFrame_elseifValue parser _).bind fun _ => RunsAlike.pure _
  | ENDIF => exact RunsAlike.pure _
  | END =>
    refine (RunsAlike.asks _).bind fun isRunning => ?_
    exact (RunsAlike.when (keepsFrame_reportError _ _ _)).bind fun _ => RunsAlike.pure _

theorem keepsFrame_dirIfInternal (dirName : String) (val : Bool) :
    KeepsFrame defs labp (dirIfInternal parser parse fuel dirName val)
      (dirIfInternal parser parse' fuel dirName val) :=
  RunsAlike.loop (keepsFrame_ifTurn hparse parser fuel dirName) fuel _

theorem keepsFrame_repeatLineTurn (u : Unit) :
    KeepsFrame defs labp (repeatLineTurn parse u) (repeatLineTurn parse' u) := by
  refine RunsAlike.get.bind fun s => ?_
  match s.isRunning, s.lijstp with
  | false, _ => exact RunsAlike.pure _
  | true, [] => exact RunsAlike.pure _
  | true, ⟨none, _⟩ :: _ => exact RunsAlike.pure _
  | true, ⟨some string, source⟩ :: rest =>
    refine (RunsAlike.when (keepsFrame_setSourcePos source)).bind fun _ => ?_
    refine (keepsFrame_copyLijstp (some string) rest).bind fun _ => hparse.bind fun _ => ?_
    refine (RunsAlike.asks _).bind fun pos => ?_
    exact (keepsFrame_setSourcePos _).bind fun _ => RunsAlike.pure _

theorem keepsFrame_repeatTurn (i index : Nat) :
    KeepsFrame defs labp (repeatTurn parser parse fuel i index)
      (repeatTurn parser parse' fuel i index) := by
  refine RunsAlike.get.bind fun s => ?_
  cases s.repeatStack[i]? with
  | none => exact RunsAlike.pure _
  | some dup =>
    refine RunsAlike.ite (RunsAlike.pure _) ?_
    refine (keepsFrame_shouldRepeat parser i dup).bind fun _ => RunsAlike.ite ?_ (RunsAlike.pure _)
    refine (keepsFrame_setSourcePos _).bind fun _ => ?_
    refine (keepsFrame_setIndexVariable parser _ _).bind fun index => ?_
    refine keepsFrame_modify_bind (fun _ => rfl) fun _ => ?_
    refine (RunsAlike.loop (keepsFrame_repeatLineTurn hparse) fuel ()).bind fun _ => ?_
    exact RunsAlike.pure _

theorem keepsFrame_dirEDUP :
    KeepsFrame defs labp (dirEDUP parser parse fuel) (dirEDUP parser parse' fuel) := by
  refine RunsAlike.get.bind fun s => ?_
  cases s.repeatStack.getLast? with
  | none => exact keepsFrame_reportError _ _ _
  | some dup =>
    refine RunsAlike.ite (keepsFrame_reportError _ _ _) ?_
    refine RunsAlike.ite (keepsFrame_modifyRepeat _ _) ?_
    refine (keepsFrame_modifyRepeat _ _).bind fun _ => ?_
    refine RunsAlike.bracket
      (RunsAlike.loop (keepsFrame_repeatTurn hparse parser fuel _) fuel 0) ?_ ?_
    · exact fun s hs => hs.congr rfl rfl rfl
    -- a level was pushed around the turns, and is popped behind them
    · intro s t hst
      refine ⟨hst.defs, hst.macrolabp, ?_, ?_, ?_, hst.level, hst.used⟩
      · exact congrArg (· - 1) hst.lijst
      · exact congrArg (· - 1) hst.listmacro
      · have hdepth : t.sourcePosStack.length = s.sourcePosStack.length := hst.depth
        rcases List.eq_nil_or_concat s.sourcePosStack with hnil | ⟨rest, last, hlast⟩
        · rw [hnil] at hdepth ⊢
          obtain hnil' := List.length_eq_zero_iff.mp hdepth
          rw [hnil']
          rfl
        · rw [hlast] at hdepth ⊢
          simp only [List.length_append, List.length_dropLast, List.concat_eq_append,
            List.getLast?_concat, Option.toList_some, List.length_singleton] at hdepth ⊢
          omega

theorem keepsFrame_dirENDM :
    KeepsFrame defs labp (dirENDM parser parse fuel) (dirENDM parser parse' fuel) := by
  refine RunsAlike.get.bind fun s => RunsAlike.ite ?_ (keepsFrame_reportError _ _ _)
  exact keepsFrame_modify_bind (fun _ => rfl) fun _ => keepsFrame_dirEDUP hparse parser fuel

theorem keepsFrame_dotRepeat (val : Nat) (pp : Text) :
    KeepsFrame defs labp (dotRepeat parse fuel val pp) (dotRepeat parse' fuel val pp) := by
  have hturn : ∀ val, KeepsFrame defs labp (dotRepeatTurn parse pp val)
      (dotRepeatTurn parse' pp val) := fun val =>
    keepsFrame_modify_bind (fun _ => rfl) fun _ => hparse.bind fun _ => RunsAlike.pure _
  refine RunsAlike.bracket (RunsAlike.loop hturn fuel val) ?_ ?_
  · exact fun s hs => hs.congr rfl rfl rfl
  · intro s t hst
    exact ⟨hst.defs, hst.macrolabp, hst.lijst, congrArg (· - 1) hst.listmacro, hst.depth, hst.level,
      hst.used⟩

theorem keepsFrame_includeFile (file : Option (List Text)) :
    KeepsFrame defs labp (includeFile parse fuel file) (includeFile parse' fuel file) := by
  refine RunsAlike.get.bind fun s => RunsAlike.ite (keepsFrame_reportError _ _ _) ?_
  cases file with
  | none => exact keepsFrame_reportError _ _ _
  | some lines =>
    have hlines : KeepsFrame defs labp (readBufLines parse fuel) (readBufLines parse' fuel) := by
      refine RunsAlike.loop (fun _ => ?_) fuel ()
      refine keepsFrame_readLineNoMacro.bind fun more => RunsAlike.ite ?_ (RunsAlike.pure _)
      exact hparse.bind fun _ => RunsAlike.pure _
    refine RunsAlike.bracket hlines ?_ ?_
    · exact fun s hs => hs.congr rfl rfl rfl
    -- the file is left as it was entered
    · intro s t hst
      refine ⟨hst.defs, hst.macrolabp, hst.lijst, hst.listmacro, ?_, ?_, hst.used⟩
      · have hdepth := hst.depth
        simp only [List.length_append, List.length_dropLast, List.length_singleton] at hdepth ⊢
        omega
      · have hlevel := hst.level
        dsimp only at hlevel ⊢
        omega

theorem keepsFrame_collectLine :
    KeepsFrame defs labp (collectLine parser parse fuel) (collectLine parser parse' fuel) := by
  refine RunsAlike.get.bind fun s => (keepsFrame_modifyRepeat _ _).bind fun _ => ?_
  match parser.repeatDirective s.line with
  | none => exact RunsAlike.pure ()
  | some .dirDUP => exact keepsFrame_modifyRepeat _ _
  | some .dirEDUP => exact keepsFrame_dirEDUP hparse parser fuel
  | some .dirENDM => exact keepsFrame_dirENDM hparse parser fuel

theorem keepsFrame_parseInstruction (lp : Option Text) :
    KeepsFrame defs labp (parseInstruction parser parse fuel lp)
      (parseInstruction parser parse' fuel lp) := by
  refine (RunsAlike.asks _).bind fun statement => ?_
  cases statement with
  | other world log => exact keepsFrame_modifyWorld _
  | fatal log => exact keepsFrame_modify_bind (fun _ => rfl) fun _ => RunsAlike.exit
  | dirEND world log =>
    exact (keepsFrame_modifyWorld _).bind fun _ => keepsFrame_modify fun _ => rfl
  | dirDUP val condition indexVar => exact keepsFrame_modify fun _ => rfl
  | dirEDUP => exact keepsFrame_dirEDUP hparse parser fuel
  | dirENDM => exact keepsFrame_dirENDM hparse parser fuel
  | dirIF dirName val => exact keepsFrame_dirIfInternal hparse parser fuel dirName val
  | dirELSE => exact keepsFrame_dirElseCheckLiveDup.bind fun _ => keepsFrame_reportError _ _ _
  | dirELSEIF => exact keepsFrame_dirElseCheckLiveDup.bind fun _ => keepsFrame_reportError _ _ _
  | dirENDIF => exact keepsFrame_dirElseCheckLiveDup.bind fun _ => keepsFrame_reportError _ _ _
  | dirMODULE n bp => exact keepsFrame_dirMODULE n bp
  | dirENDMODULE => exact keepsFrame_dirENDMODULE
  | dirINCLUDE file => exact keepsFrame_includeFile hparse fuel file
  | dotRepeat val pp => exact keepsFrame_dotRepeat hparse fuel val pp
  | readUntil last parse => exact keepsFrame_readUntil last parse fuel

end

end

/-! ### Arguments -/

/-- The arguments that a call adds, in the order in which they are read: all of them, unless one of
them is wrong. -/
def callArguments (args : List Text) (macName : Text) (isNamed : Bool) :
    List Text → List Text → Text → List (Text × Text)
  | [], _, _ => []
  | a :: next, seen, p =>
    match argumentName args macName isNamed seen a p with
    | (.error _, _) => []
    | (.ok argName, p) =>
      match argumentLoop none none [] 0 (skipBlanks p) with
      | (none, _) => []
      | (some ml, p) =>
        let (separated, p) := if next = [] then (true, p) else takeComma p
        if separated then (argName, ml) :: callArguments args macName isNamed next (argName :: seen) p
        else []

/-- The arguments are in front of the macro defines, and nothing else has changed. -/
structure ArgumentsRead (own : List (Text × Text)) (s t : ExpandState ω) : Prop where
  defs : t.defs = own.reverse ++ s.defs
  usedOwn : ∀ entry ∈ own, t.used (nameSlot entry.1) = true
  used : ∀ slot, s.used slot = true → t.used slot = true
  rest : t = { s with defs := t.defs, used := t.used, log := t.log }

theorem ArgumentsRead.nil {s t : ExpandState ω} (log : List Event) (h : t = { s with log := log }) :
    ArgumentsRead [] s t := by
  subst h
  exact ⟨rfl, nofun, fun _ h => h, rfl⟩

theorem ArgumentsRead.cons {naam ml : Text} {own : List (Text × Text)} {s t u : ExpandState ω}
    {log : List Event}
    (ht : t = { s with
      defs := (naam, ml) :: s.defs
      used := fun slot => slot = nameSlot naam || s.used slot
      log := log })
    (h : ArgumentsRead own t u) : ArgumentsRead ((naam, ml) :: own) s u := by
  subst ht
  constructor
  · rw [h.defs, List.reverse_cons, List.append_assoc, List.singleton_append]
  · rintro entry hentry
    rcases List.mem_cons.mp hentry with rfl | hmem
    · exact h.used _ (by simp)
    · exact h.usedOwn entry hmem
  · exact fun slot hslot => h.used slot (by simp [hslot])
  · rw [h.rest]

/-- Reading the arguments adds their defines, and nothing else. -/
theorem ensures_parseArguments (args : List Text) (macName : Text) (isNamed : Bool)
    (list seen : List Text) (p : Text) (s : ExpandState ω) :
    Ensures (parseArguments args macName isNamed list seen p) s fun _ t =>
      ArgumentsRead (callArguments args macName isNamed list seen p) s t := by
  -- by induction on the names of the arguments
  induction list generalizing seen p s with
  | nil => exact Ensures.pure (ArgumentsRead.nil s.log rfl)
  | cons a next ih =>
    rw [parseArguments, callArguments]
    rcases argumentName args macName isNamed seen a p with ⟨e | argName, p⟩
    · exact Ensures.pure (ArgumentsRead.nil s.log rfl)
    · dsimp only
      -- reading a value changes nothing but the messages
      have hvalue : Ensures (getMacroArgumentValue p) s fun value t =>
          value = argumentLoop none none [] 0 (skipBlanks p) ∧ ∃ log, t = { s with log := log } := by
        refine Ensures.bind (R := fun _ t => ∃ log, t = { s with log := log }) ?_ ?_
        · refine Ensures.when (fun _ => ?_) fun _ => ⟨s.log, rfl⟩
          exact Ensures.of_exec (exec_modify _ s) ⟨_, rfl⟩
        · exact fun _ t ht => Ensures.pure ⟨rfl, ht⟩
      refine hvalue.bind ?_
      rintro ⟨value, p⟩ t ⟨hloop, log, rfl⟩
      rw [← hloop]
      cases value with
      | none => exact Ensures.pure (ArgumentsRead.nil log rfl)
      | some ml =>
        dsimp only
        by_cases hseparated : (if next = [] then (true, p) else takeComma p).1 = true
        · rw [if_pos hseparated, if_pos hseparated]
          refine Ensures.modify_bind ((ih _ _ _).mono fun _ u hu => ?_)
          exact ArgumentsRead.cons rfl hu
        · rw [if_neg hseparated, if_neg hseparated]
          exact Ensures.pure (ArgumentsRead.nil log rfl)

/-! ### A macro call -/

/-- The arguments of the call of a macro. -/
def ownArguments (s : ExpandState ω) (naam p : Text) : List (Text × Text) :=
  match s.macs naam with
  | none => []
  | some entry => callArguments entry.args naam (isNamedMacroArg p) entry.args [] p

/-- The states inside of which the lines of a macro are parsed: the arguments of the call are in front of
the macro defines around it. -/
abbrev InBody (s : ExpandState ω) (naam p : Text) : ExpandState ω → Prop :=
  InCall ((ownArguments s naam p).reverse ++ s.defs) (emitLabel s.macronummer s.macrolabp)

/-- What is the same behind a macro call. -/
structure Emitted (s t : ExpandState ω) : Prop extends Frame s t where
  lijstp : t.lijstp = s.lijstp
  line : t.line = s.line

/-- The start of a call only changes its number and its prefix: there are no macro defines to lose. -/
structure Started (s t : ExpandState ω) : Prop where
  labnr : t.macrolabp = emitLabel s.macronummer s.macrolabp
  inside : t.macrolabp ≠ none
  used : s.macrolabp ≠ none → t.used = s.used
  rest : t = { s with macronummer := t.macronummer, macrolabp := t.macrolabp, used := t.used }

theorem ensures_startEmit {s : ExpandState ω} (hs : s.Sound) :
    Ensures startEmit s fun _ t => Started s t := by
  refine Ensures.get_bind ?_
  cases hlabel : emitLabel s.macronummer s.macrolabp with
  | none => exact Ensures.modify_bind Ensures.exit
  | some labnr =>
    refine Ensures.modify_bind (Ensures.when ?_ ?_)
    · intro houtside
      refine Ensures.of_exec (exec_modify _ _) ?_
      refine ⟨hlabel.symm, Option.some_ne_none labnr, fun hinside => absurd houtside hinside, ?_⟩
      dsimp only
      rw [hs.outside houtside]
    · exact fun _ => ⟨hlabel.symm, Option.some_ne_none labnr, fun _ => rfl, rfl⟩

/-- Behind the arguments, the state is one in which lines of the macro may be parsed. -/
theorem inCall_arguments {own : List (Text × Text)} {s t u : ExpandState ω} (hs : s.Sound)
    (ht : Started s t) (hu : ArgumentsRead own t u) :
    InCall (own.reverse ++ s.defs) (emitLabel s.macronummer s.macrolabp) u := by
  have hdefs : u.defs = own.reverse ++ s.defs := by
    rw [hu.defs, ht.rest]
  have hlabp : u.macrolabp = t.macrolabp := by
    rw [hu.rest]
  refine ⟨⟨?_, ?_⟩, hdefs, hlabp.trans ht.labnr⟩
  · intro houtside
    rw [hlabp] at houtside
    exact absurd houtside ht.inside
  · intro entry hentry
    rw [hdefs] at hentry
    rcases List.mem_append.mp hentry with hown | houter
    · exact hu.usedOwn entry (List.mem_reverse.mp hown)
    · apply hu.used
      -- outside of macros there are no older arguments
      by_cases houtside : s.macrolabp = none
      · rw [hs.outside houtside] at houter
        cases houter
      · rw [ht.used houtside]
        exact hs.used entry houter

/-- Behind the lines, or without them, the old defines and the old prefix come back. -/
theorem emitted_restored {own : List (Text × Text)} {s t u v : ExpandState ω}
    (ht : Started s t) (hu : ArgumentsRead own t u) (hv : Emitted u v) :
    Emitted s { v with defs := t.defs, macrolabp := s.macrolabp } := by
  have huinside : u.macrolabp ≠ none := by
    rw [hu.rest]
    exact ht.inside
  -- the arguments were read into the defines alone
  have hsame : u.lijst = s.lijst ∧ u.listmacro = s.listmacro ∧ u.sourcePosStack = s.sourcePosStack ∧
      u.sourceBlockLevel = s.sourceBlockLevel ∧ u.opened = s.opened ∧ u.closed = s.closed ∧
      u.lijstp = s.lijstp ∧ u.line = s.line := by
    rw [hu.rest, ht.rest]
    exact ⟨rfl, rfl, rfl, rfl, rfl, rfl, rfl, rfl⟩
  obtain ⟨hlijst, hlistmacro, hstack, hlevel, hopened, hclosed, hlijstp, hline⟩ := hsame
  have hframe := hv.toFrame
  refine ⟨⟨?_, rfl, hframe.lijst.trans hlijst, hframe.listmacro.trans hlistmacro, ?_, ?_, ?_⟩,
    hv.lijstp.trans hlijstp, hv.line.trans hline⟩
  · show t.defs = s.defs
    rw [ht.rest]
  · exact hframe.depth.trans (congrArg List.length hstack)
  · have hground := hframe.level
    rw [hlevel, hopened, hclosed] at hground
    exact hground
  · intro hinside slot hslot
    apply hframe.used huinside
    apply hu.used
    rw [ht.used hinside]
    exact hslot

section

variable {parse : ExpandProgram ω Unit} (hparse : ∀ defs labp, KeepsFrame defs labp parse parse)
  (fuel : Nat)

include hparse

/-- The lines of a macro are parsed inside of the call, whatever the parser does elsewhere. -/
theorem runsAlike_emitBody {defs : List (Text × Text)} {labp : Option Text} (body : List BodyLine) :
    RunsAlike (InCall defs labp) Emitted (emitBody parse fuel body)
      (emitBody (guarded (InCall defs labp) parse) fuel body) := by
  have hguard : KeepsFrame defs labp parse (guarded (InCall defs labp) parse) :=
    RunsAlike.guard fun s hs => (hparse defs labp s hs).2
  have hturn : ∀ u, KeepsFrame defs labp (emitTurn parse u)
      (emitTurn (guarded (InCall defs labp) parse) u) := by
    intro u
    refine RunsAlike.get.bind fun s => ?_
    match s.lijstp with
    | [] => exact RunsAlike.pure _
    | ⟨string, source⟩ :: rest =>
      refine (keepsFrame_setSourcePos source).bind fun _ => ?_
      refine (keepsFrame_copyLijstp string rest).bind fun _ => ?_
      exact hguard.bind fun _ => RunsAlike.pure _
  refine RunsAlike.bracket (RunsAlike.loop hturn fuel ()) ?_ ?_
  · exact fun s hs => hs.congr rfl rfl rfl
  -- the body is left as it was entered
  · intro s t hst
    refine ⟨⟨hst.defs, hst.macrolabp, congrArg (· - 1) hst.lijst, congrArg (· - 1) hst.listmacro, ?_,
      ?_, hst.used⟩, rfl, rfl⟩
    · have hdepth := hst.depth
      simp only [List.length_append, List.length_dropLast, List.length_singleton] at hdepth ⊢
      omega
    · have hlevel := hst.level
      dsimp only at hlevel ⊢
      omega

/-- A call of a macro that was found. -/
theorem alikeFrom_emitFound {s : ExpandState ω} (hs : s.Sound) (macName p : Text)
    (entry : MacroTableEntry) {own : List (Text × Text)}
    (hown : own = callArguments entry.args macName (isNamedMacroArg p) entry.args [] p) :
    AlikeFrom s (emitFound parse fuel macName entry p)
      (emitFound (guarded (InCall (own.reverse ++ s.defs) (emitLabel s.macronummer s.macrolabp)) parse)
        fuel macName entry p)
      fun _ t => Emitted s t := by
  refine AlikeFrom.asks_bind (AlikeFrom.bind (ensures_startEmit hs) ?_)
  intro _ t ht
  refine AlikeFrom.asks_bind (AlikeFrom.bind (ensures_parseArguments _ _ _ _ _ _ t) ?_)
  rintro ⟨e, rest⟩ u hu
  rw [← hown] at hu
  -- a failed call changes nothing behind its arguments
  have hfail : ∀ e : CallError, ∀ rest : Text,
      Ensures (failMacroEmit s.macrolabp t.defs e >>= fun r => pure (r, rest)) u
        fun _ v => Emitted s v := by
    intro e rest
    refine Ensures.bind (Q := fun _ v => Emitted s v) (R := fun _ v => Emitted s v) ?_ ?_
    · refine Ensures.modify_bind (Ensures.modify_bind (Ensures.pure ?_))
      have hlog : Emitted u { u with log := u.log ++ [.error e.1 (some e.2) .suppress] } :=
        ⟨Frame.of_view rfl, rfl, rfl⟩
      exact emitted_restored ht hu hlog
    · exact fun _ v hv => Ensures.pure hv
  cases e with
  | some e => exact AlikeFrom.refl (hfail e rest)
  | none =>
    dsimp only
    by_cases hrest : skipBlanks rest ≠ []
    · rw [if_pos hrest, if_pos hrest]
      exact AlikeFrom.refl (hfail _ _)
    · rw [if_neg hrest, if_neg hrest]
      have hbody := runsAlike_emitBody hparse fuel entry.body u (inCall_arguments hs ht hu)
      refine AlikeFrom.bind_right hbody fun _ v hv => ?_
      exact Ensures.modify_bind (Ensures.pure (emitted_restored ht hu hv))

/-- A macro call runs as it does when its lines are only parsed behind its arguments, and puts back what
it changes. -/
theorem alikeFrom_emit {s : ExpandState ω} (hs : s.Sound) (naam p : Text) :
    AlikeFrom s (macroEmit parse fuel naam p) (macroEmit (guarded (InBody s naam p) parse) fuel naam p)
      fun _ t => Emitted s t := by
  refine AlikeFrom.get_bind ?_
  by_cases hused : s.macsUsed (nameSlot naam) = true
  · rw [if_pos hused]
    cases hentry : s.macs naam with
    | none => exact AlikeFrom.refl (Ensures.pure ⟨refl s, rfl, rfl⟩)
    | some entry =>
      apply alikeFrom_emitFound hparse fuel hs
      rw [ownArguments, hentry]
  · rw [if_neg hused]
    exact AlikeFrom.refl (Ensures.pure ⟨refl s, rfl, rfl⟩)

theorem keepsFrame_emit (defs : List (Text × Text)) (labp : Option Text) (naam p : Text) :
    KeepsFrame defs labp (macroEmit parse fuel naam p) (macroEmit parse fuel naam p) :=
  fun _ hs => ⟨rfl, (alikeFrom_emit hparse fuel hs.1 naam p).2.mono fun _ _ ht => ht.toFrame⟩

theorem keepsFrame_parseLineWith (parser : StatementParser ω) (defs : List (Text × Text))
    (labp : Option Text) :
    KeepsFrame defs labp (parseLineWith parser parse fuel) (parseLineWith parser parse fuel) := by
  have hinstruction := keepsFrame_parseInstruction (hparse defs labp) parser fuel
  refine (RunsAlike.asks _).bind fun _ => ?_
  refine RunsAlike.ite (keepsFrame_collectLine (hparse defs labp) parser fuel) ?_
  refine (keepsFrame_modifyWorld _).bind fun _ => (RunsAlike.asks _).bind fun call => ?_
  cases call with
  | none => exact hinstruction none
  | some call =>
    refine (keepsFrame_emit hparse fuel defs labp _ _).bind fun r => ?_
    exact RunsAlike.ite (RunsAlike.pure ()) (hinstruction _)

end

/-- What a line keeps, however deep the calls are nested in it. -/
theorem keepsFrame_parseLine (parser : StatementParser ω) (fuel : Nat) (defs : List (Text × Text))
    (labp : Option Text) :
    KeepsFrame defs labp (parseLine parser fuel) (parseLine parser fuel) := by
  induction fuel generalizing defs labp with
  | zero => exact RunsAlike.exit
  | succ fuel ih => exact keepsFrame_parseLineWith ih fuel parser defs labp

/-! ### Macro defines inside of calls -/

/-- In a sound state a look-up finds the first define of the name. -/
theorem getverv_eq_lookup {s : ExpandState ω} (hs : s.Sound) (name : Text) :
    getverv s name = s.defs.lookup name := by
  rw [getverv]
  split_ifs with hused
  · rfl
  · cases hlookup : s.defs.lookup name with
    | none => rfl
    | some ml =>
      obtain ⟨l₁, l₂, hdefs, -⟩ := List.lookup_eq_some_iff.mp hlookup
      have hmem : (name, ml) ∈ s.defs := by
        rw [hdefs]
        exact List.mem_append_right _ (List.mem_cons_self ..)
      exact absurd (hs.used _ hmem) hused

/-- Inside of a call, its arguments come before those of the calls around it. -/
theorem getverv_inBody {s u : ExpandState ω} {naam p : Text} (hs : s.Sound) (hu : InBody s naam p u)
    (name : Text) :
    getverv u name = ((ownArguments s naam p).reverse.lookup name).or (getverv s name) := by
  rw [getverv_eq_lookup hs, getverv_eq_lookup hu.1, hu.2.1, List.lookup_append]

/-- The lines that a statement processes itself are parsed inside of the same call. -/
def StaysInCall (parser : StatementParser ω) (P : ExpandState ω → Prop) [DecidablePred P] : Prop :=
  ∀ fuel u, P u →
    (∀ lp, (parseInstruction parser (parseLine parser fuel) fuel lp).exec u
      = (parseInstruction parser (guarded P (parseLine parser fuel)) fuel lp).exec u) ∧
    (collectLine parser (parseLine parser fuel) fuel).exec u
      = (collectLine parser (guarded P (parseLine parser fuel)) fuel).exec u

theorem staysInCall (parser : StatementParser ω) (defs : List (Text × Text)) (labp : Option Text) :
    StaysInCall parser (InCall defs labp) := by
  intro fuel u hu
  have hparse : KeepsFrame defs labp (parseLine parser fuel)
      (guarded (InCall defs labp) (parseLine parser fuel)) :=
    RunsAlike.guard fun s hs => (keepsFrame_parseLine parser fuel defs labp s hs).2
  constructor
  · exact fun lp => (keepsFrame_parseInstruction hparse parser fuel lp u hu).1
  · exact (keepsFrame_collectLine hparse parser fuel u hu).1

/-! ### The main result -/

/-- At the start of a pass there are no macro defines. -/
theorem sound_of_defs_nil {s : ExpandState ω} (hdefs : s.defs = []) : s.Sound := by
  constructor
  · exact fun _ => hdefs
  · rw [hdefs]
    exact nofun

/-- Lines are parsed in sound states from the start of a pass on. -/
theorem sound_parseLine (parser : StatementParser ω) (fuel : Nat) {s t : ExpandState ω}
    (hs : s.Sound) (h : (parseLine parser fuel).exec s = (some (), t)) : t.Sound :=
  ((keepsFrame_parseLine parser fuel s.defs s.macrolabp s ⟨hs, rfl, rfl⟩).2 () t h).sound hs

/-- A macro call that returns puts everything back, except that the block level goes with the modules
that were opened and closed.  Its lines are parsed, whatever statements they stand in, where a name is
looked up in its own arguments first, and then as around the call. -/
theorem emit_restores (parser : StatementParser ω) (fuel : Nat) (naam p : Text)
    {s t : ExpandState ω} {r : Nat × Text} (hs : s.Sound)
    (h : (macroEmit (parseLine parser fuel) fuel naam p).exec s = (some r, t)) :
    (t.defs = s.defs ∧ t.macrolabp = s.macrolabp ∧ t.lijstp = s.lijstp ∧ t.lijst = s.lijst ∧
      t.listmacro = s.listmacro ∧ t.sourcePosStack.length = s.sourcePosStack.length ∧
      t.line = s.line) ∧
    (t.sourceBlockLevel = s.sourceBlockLevel ↔
      (t.opened : Int) - s.opened = t.closed - s.closed) ∧
    (macroEmit (guarded (InBody s naam p) (parseLine parser fuel)) fuel naam p).exec s = (some r, t) ∧
    StaysInCall parser (InBody s naam p) ∧
    ∀ u, InBody s naam p u → ∀ name,
      getverv u name = ((ownArguments s naam p).reverse.lookup name).or (getverv s name) := by
  obtain ⟨halike, hensures⟩ := alikeFrom_emit (keepsFrame_parseLine parser fuel) fuel hs naam p
  have hemitted : Emitted s t := hensures r t h
  have hlevel := hemitted.level
  refine ⟨⟨hemitted.defs, hemitted.macrolabp, hemitted.lijstp, hemitted.lijst, hemitted.listmacro,
    hemitted.depth, hemitted.line⟩, ?_, halike ▸ h, staysInCall parser _ _, ?_⟩
  -- the level goes with the modules that the body opens and closes
  · constructor
    · intro hsame
      omega
    · intro hmodules
      omega
  · exact fun u hu => getverv_inBody hs hu

/-- Lines that are two statements for modules, a call of `N`, or anything else. -/
def exampleParser : StatementParser Unit where
  parseLabel _ := ((), [])
  macroCall s := if s.line = " N 2".toList then some (['N'], " 2".toList) else none
  instruction _ s :=
    if s.line = " MODULE a.b".toList then .dirMODULE (some "a.b".toList) "a.b".toList
    else if s.line = " ENDMODULE".toList then .dirENDMODULE
    else .other () []
  repeatDirective _ := none
  ifExpression _ := (none, [])
  repeatExpression _ _ := (false, [])
  indexVariable _ _ _ := ((), [])
  isPseudoOpBOF := false

/-- A macro `M` that opens and closes a module and calls `N`, which has a parameter, from inside of a
module and of another call. -/
def exampleExpandState : ExpandState Unit where
  macs naam :=
    if naam = ['M'] then
      some ⟨[], [⟨some " MODULE a.b".toList, ⟨1, 0, 0⟩⟩, ⟨some " ENDMODULE".toList, ⟨2, 0, 0⟩⟩]⟩
    else if naam = ['N'] then some ⟨[['x']], [⟨some " nop".toList, ⟨5, 0, 0⟩⟩]⟩
    else none
  macsUsed _ := true
  macronummer := 1
  macrolabp := some ['0']
  defs := [(['y'], ['1'])]
  used slot := slot = nameSlot ['y']
  lijstp := [⟨some " nop".toList, ⟨9, 0, 0⟩⟩]
  lijst := 1
  listmacro := 1
  sourceBlockLevel := 4
  sourcePosStack := [⟨20, 0, 0⟩, ⟨8, 0, 0⟩]
  line := " M".toList
  repeatStack := []
  moduleName := "outer".toList
  includeLevel := 0
  source := []
  isRunning := true
  world := ()
  log := []
  opened := 1
  closed := 0

/-- The call of `N` with an argument. -/
theorem emit_restores_exampleParser :
    let s := exampleExpandState
    let t := (macroEmit (parseLine exampleParser 3) 3 ['N'] " 2".toList).final s
    t.defs = s.defs ∧ t.macrolabp = s.macrolabp ∧ t.lijstp = s.lijstp ∧ t.lijst = s.lijst ∧
      t.listmacro = s.listmacro ∧ t.sourcePosStack.length = s.sourcePosStack.length ∧
      t.line = s.line :=
  (emit_restores exampleParser 3 ['N'] " 2".toList (s := exampleExpandState) (by decide)
    (exec_of_fst (a := (2, [])) (by decide))).1

/-- The name `a.b` is refused, so that `ENDMODULE` closes the module around the call. -/
theorem not_sameLevel_exampleParser :
    ¬∀ t, (macroEmit (parseLine exampleParser 3) 3 ['M'] []).exec exampleExpandState = (some (2, []), t) →
      t.sourceBlockLevel = exampleExpandState.sourceBlockLevel := by
  intro h
  have hlevel := h _ (exec_of_fst (by decide))
  revert hlevel
  decide

end Sjasmplus
