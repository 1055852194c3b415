import Sjasmplus.Lib.Simulation
import Sjasmplus.MacroEmit

/-!
# Macro defines in another order

Lines see the macro defines only by name, so that their order does not matter where names differ.  From
states whose macro defines have the same values a line is processed alike, with all lines that calls,
repeats, files and conditions process in turn.

* `StatementParser.ByName` — a line is read through the values of the macro defines.
* `runsSame_parseLine` — what a line does is the same.
-/

namespace Sjasmplus

open Program

variable {ω : Type}

/-! ### The same defines -/

/-- The two lists of macro defines have the same value for every name. -/
def SameValues (defs defs' : List (Text × Text)) : Prop := ∀ name, defs.lookup name = defs'.lookup name

/-- A define in front of both tables hides the same names. -/
theorem SameValues.cons {defs defs' : List (Text × Text)} (h : SameValues defs defs')
    (entry : Text × Text) : SameValues (entry :: defs) (entry :: defs') := by
  intro name
  rw [List.lookup_cons, List.lookup_cons, h name]

/-- The states differ in the order of their macro defines, and in the messages from before. -/
def SameDefines (front front' : List Event) (s t : ExpandState ω) : Prop :=
  ∃ defs log, t = { s with defs := defs, log := front' ++ log } ∧ s.log = front ++ log ∧
    SameValues s.defs defs

/-- A line is read through the values of the macro defines, and does not depend on messages. -/
structure StatementParser.ByName (parser : StatementParser ω) : Prop where
  parseLabel : ∀ s defs log, SameValues s.defs defs →
    parser.parseLabel { s with defs := defs, log := log } = parser.parseLabel s
  macroCall : ∀ s defs log, SameValues s.defs defs →
    parser.macroCall { s with defs := defs, log := log } = parser.macroCall s
  instruction : ∀ lp s defs log, SameValues s.defs defs →
    parser.instruction lp { s with defs := defs, log := log } = parser.instruction lp s
  ifExpression : ∀ s defs log, SameValues s.defs defs →
    parser.ifExpression { s with defs := defs, log := log } = parser.ifExpression s
  repeatExpression : ∀ condition s defs log, SameValues s.defs defs →
    parser.repeatExpression { s with defs := defs, log := log } condition =
      parser.repeatExpression s condition
  indexVariable : ∀ indexVar index s defs log, SameValues s.defs defs →
    parser.indexVariable { s with defs := defs, log := log } indexVar index =
      parser.indexVariable s indexVar index

section

variable {front front' : List Event}

/-- Programs that do the same, whatever the order of the macro defines. -/
abbrev RunsSame (front front' : List Event) {α : Type} (p q : ExpandProgram ω α) : Prop :=
  RunsLike (SameDefines front front') Eq p q

/-! ### Primitive statements -/

/-- Where a program reads the state, it may only see values of names, and messages. -/
theorem runsSame_get_bind {α : Type} {f g : ExpandState ω → ExpandProgram ω α}
    (h : ∀ s defs log, SameValues s.defs defs →
      RunsSame front front' (f s) (g { s with defs := defs, log := log })) :
    RunsSame front front' (get >>= f) (get >>= g) := by
  refine RunsLike.get.bind fun s t hst => ?_
  obtain ⟨defs, log, rfl, -, hvalues⟩ := hst
  exact h s defs _ hvalues

theorem runsSame_asks {α : Type} {f : ExpandState ω → α}
    (h : ∀ s defs log, SameValues s.defs defs → f { s with defs := defs, log := log } = f s) :
    RunsSame front front' (asks f) (asks f) := by
  refine RunsLike.asks fun s t hst => ?_
  obtain ⟨defs, log, rfl, -, hvalues⟩ := hst
  exact (h s defs _ hvalues).symm

/-- An update with its messages. -/
theorem runsSame_modify {f : ExpandState ω → ExpandState ω} (messages : ExpandState ω → List Event)
    (h : ∀ s defs log, SameValues s.defs defs → f { s with defs := defs, log := log } =
      { f s with defs := defs, log := log ++ messages s })
    (hdefs : ∀ s, (f s).defs = s.defs) :
    RunsSame front front' (modify f) (modify f) := by
  refine RunsLike.modify fun s t hst => ?_
  obtain ⟨defs, log, rfl, hlog, hvalues⟩ := hst
  have hsame : f s = { f s with defs := s.defs, log := s.log ++ messages s } :=
    h s s.defs s.log fun _ => rfl
  refine ⟨defs, log ++ messages s, ?_, ?_, ?_⟩
  · rw [h s defs _ hvalues, List.append_assoc]
  · rw [hsame, hlog, List.append_assoc]
  · rw [hdefs]
    exact hvalues

/-- An update without messages. -/
theorem runsSame_modify_quiet {f : ExpandState ω → ExpandState ω}
    (h : ∀ s defs log, f { s with defs := defs, log := log } = { f s with defs := defs, log := log })
    (hdefs : ∀ s, (f s).defs = s.defs) : RunsSame front front' (modify f) (modify f) := by
  refine runsSame_modify (fun _ => []) (fun s defs log _ => ?_) hdefs
  rw [h, List.append_nil]

theorem runsSame_setSourcePos (pos : TextFilePos) :
    RunsSame front front' (setSourcePos pos : ExpandProgram ω Unit) (setSourcePos pos) :=
  runsSame_modify_quiet (fun _ _ _ => rfl) fun _ => rfl

theorem runsSame_reportError (message : String) (badValueMessage : Option Text) (type : EStatus) :
    RunsSame front front' (reportError message badValueMessage type : ExpandProgram ω Unit)
      (reportError message badValueMessage type) :=
  runsSame_modify (fun _ => [.error message badValueMessage type]) (fun _ _ _ _ => rfl) fun _ => rfl

theorem runsSame_modifyWorld {f : ExpandState ω → ω × List Event}
    (h : ∀ s defs log, SameValues s.defs defs → f { s with defs := defs, log := log } = f s) :
    RunsSame front front' (modifyWorld f) (modifyWorld f) := by
  refine runsSame_modify (fun s => (f s).2) (fun s defs log hvalues => ?_) fun _ => rfl
  rw [h s defs log hvalues]

theorem runsSame_copyLijstp (string : Option Text) (rest : List BodyLine) :
    RunsSame front front' (copyLijstp string rest : ExpandProgram ω Unit) (copyLijstp string rest) := by
  cases string with
  | some string => exact runsSame_modify_quiet (fun _ _ _ => rfl) fun _ => rfl
  | none =>
    refine RunsLike.bind_eq ?_ fun _ => RunsLike.exit
    exact runsSame_modify (fun _ => [.undefined "strcpy"]) (fun _ _ _ _ => rfl) fun _ => rfl

/-! ### Reading lines -/

theorem runsSame_readLineNoMacro :
    RunsSame front front' (readLineNoMacro : ExpandProgram ω Bool) readLineNoMacro := by
  refine runsSame_get_bind fun s defs log _ => ?_
  dsimp only
  cases s.source with
  | nil => exact RunsLike.pure rfl
  | cons line source =>
    refine RunsLike.ite ?_ (RunsLike.pure rfl)
    refine RunsLike.bind_eq (runsSame_modify_quiet (fun _ _ _ => rfl) fun _ => rfl) fun _ => ?_
    exact (runsSame_setSourcePos _).bind_eq fun _ => RunsLike.pure rfl

/-- The next line does not depend on the order of the defines. -/
theorem runsSame_readLine :
    RunsSame front front' (readLine : ExpandProgram ω Bool) readLine := by
  refine runsSame_get_bind fun s defs log _ => RunsLike.ite ?_ runsSame_readLineNoMacro
  dsimp only
  match s.lijstp with
  | [] => exact RunsLike.pure rfl
  | ⟨none, _⟩ :: _ => exact RunsLike.pure rfl
  | ⟨some string, source⟩ :: rest =>
    refine (runsSame_setSourcePos source).bind_eq fun _ => ?_
    exact (runsSame_copyLijstp (some string) rest).bind_eq fun _ => RunsLike.pure rfl

theorem runsSame_skipUntil (last : Text → Bool) (fuel : Nat) :
    RunsSame front front' (skipUntil last fuel : ExpandProgram ω Unit) (skipUntil last fuel) := by
  refine RunsLike.loop (fun _ => ?_) fuel ()
  refine runsSame_readLine.bind_eq fun more => RunsLike.ite ?_ (RunsLike.pure rfl)
  exact runsSame_get_bind fun s defs log _ => RunsLike.pure rfl

theorem runsSame_readUntil (last : Text → Bool) (parse : ω → Text → ω) (fuel : Nat) :
    RunsSame front front' (readUntil last parse fuel) (readUntil last parse fuel) := by
  refine RunsLike.loop (fun _ => ?_) fuel ()
  refine runsSame_readLine.bind_eq fun more => RunsLike.ite ?_ (RunsLike.pure rfl)
  refine runsSame_get_bind fun s defs log _ => RunsLike.ite (RunsLike.pure rfl) ?_
  exact (runsSame_modifyWorld fun _ _ _ _ => rfl).bind_eq fun _ => RunsLike.pure rfl

/-- Neither do the lines that a chain of `IF` skips. -/
theorem runsSame_skipFile (isPseudoOpBOF : Bool) (fuel : Nat) :
    RunsSame front front' (skipFile isPseudoOpBOF fuel : ExpandProgram ω EReturn)
      (skipFile isPseudoOpBOF fuel) := by
  refine RunsLike.loop (fun iflevel => ?_) fuel 0
  refine runsSame_readLine.bind_eq fun more => RunsLike.ite ?_ (RunsLike.pure rfl)
  refine runsSame_get_bind fun s defs log _ => RunsLike.ite (RunsLike.pure rfl) ?_
  dsimp only
  -- the line ends the branch, or the lines up to the end of an inner block are skipped
  match branchEnd (skippedKeyword isPseudoOpBOF s.line) with
  | some .ENDIF => exact RunsLike.pure rfl
  | some .END => exact RunsLike.pure rfl
  | some .ELSE => exact RunsLike.pure rfl
  | some .ELSEIF => exact RunsLike.pure rfl
  | none =>
    exact (RunsLike.when (runsSame_skipUntil _ fuel)).bind_eq fun _ => RunsLike.pure rfl

/-! ### Statements without lines of their own -/

theorem runsSame_modifyRepeat (i : Nat) (f : Repeat → Repeat) :
    RunsSame front front' (modifyRepeat i f : ExpandProgram ω Unit) (modifyRepeat i f) :=
  runsSame_modify_quiet (fun _ _ _ => rfl) fun _ => rfl

theorem runsSame_dirElseCheckLiveDup :
    RunsSame front front' (dirElseCheckLiveDup : ExpandProgram ω Unit) dirElseCheckLiveDup := by
  refine runsSame_get_bind fun s defs log _ => RunsLike.ite ?_ (RunsLike.pure rfl)
  refine (runsSame_reportError _ _ _).bind_eq fun _ => ?_
  exact runsSame_modify_quiet (fun _ _ _ => rfl) fun _ => rfl

/-- The name of a module is not looked up in the defines of macros. -/
theorem runsSame_dirMODULE (n : Option Text) (bp : Text) :
    RunsSame front front' (dirMODULE n bp : ExpandProgram ω Unit) (dirMODULE n bp) := by
  cases n with
  | none => exact runsSame_reportError _ _ _
  | some n =>
    refine RunsLike.ite (runsSame_reportError _ _ _) ?_
    exact runsSame_modify_quiet (fun _ _ _ => rfl) fun _ => rfl

theorem runsSame_dirENDMODULE :
    RunsSame front front' (dirENDMODULE : ExpandProgram ω Unit) dirENDMODULE := by
  refine runsSame_get_bind fun s defs log _ => RunsLike.ite (runsSame_reportError _ _ _) ?_
  exact runsSame_modify_quiet (fun _ _ _ => rfl) fun _ => rfl

/-- A repeat starts with the count that was read. -/
theorem runsSame_dirDUP (val : Int) (condition : Option Text) (indexVar : Text) :
    RunsSame front front' (dirDUP val condition indexVar : ExpandProgram ω Unit)
      (dirDUP val condition indexVar) :=
  runsSame_modify_quiet (fun _ _ _ => rfl) fun _ => rfl

/-- The number of a call does not depend on defines. -/
theorem runsSame_startEmit :
    RunsSame front front' (startEmit : ExpandProgram ω Unit) startEmit := by
  refine runsSame_get_bind fun s defs log _ => ?_
  dsimp only
  cases emitLabel s.macronummer s.macrolabp with
  | none =>
    refine RunsLike.bind_eq ?_ fun _ => RunsLike.exit
    exact runsSame_modify (fun _ => [.undefined "strcat"]) (fun _ _ _ _ => rfl) fun _ => rfl
  | some labnr =>
    refine RunsLike.bind_eq (runsSame_modify_quiet (fun _ _ _ => rfl) fun _ => rfl) fun _ => ?_
    refine RunsLike.when (RunsLike.modify fun s t hst => ?_)
    -- there are no macro defines at the outermost call
    obtain ⟨defs, log, rfl, hlog, -⟩ := hst
    exact ⟨[], log, rfl, hlog, fun _ => rfl⟩

/-- An argument gets in front of all defines, in both runs. -/
theorem runsSame_addMacro (naam vervanger : Text) :
    RunsSame front front' (addMacro naam vervanger : ExpandProgram ω Unit) (addMacro naam vervanger) := by
  refine RunsLike.modify fun s t hst => ?_
  obtain ⟨defs, log, rfl, hlog, hvalues⟩ := hst
  exact ⟨(naam, vervanger) :: defs, log, rfl, hlog, hvalues.cons _⟩

theorem runsSame_getMacroArgumentValue (p : Text) :
    RunsSame front front' (getMacroArgumentValue p : ExpandProgram ω _) (getMacroArgumentValue p) := by
  refine RunsLike.bind_eq (RunsLike.when ?_) fun _ => RunsLike.pure rfl
  exact runsSame_modify (fun _ => [_]) (fun _ _ _ _ => rfl) fun _ => rfl

/-- The arguments of a call, each behind those that were read before it; the induction is on their
names. -/
theorem runsSame_parseArguments (args : List Text) (macName : Text) (isNamed : Bool)
    (list seen : List Text) (p : Text) :
    RunsSame front front' (parseArguments args macName isNamed list seen p : ExpandProgram ω _)
      (parseArguments args macName isNamed list seen p) := by
  induction list generalizing seen p with
  | nil => exact RunsLike.pure rfl
  | cons a next ih =>
    rw [parseArguments]
    rcases argumentName args macName isNamed seen a p with ⟨e | argName, p⟩
    · exact RunsLike.pure rfl
    · refine (runsSame_getMacroArgumentValue p).bind_eq ?_
      rintro ⟨value, p⟩
      cases value with
      | none => exact RunsLike.pure rfl
      | some ml =>
        refine RunsLike.ite ?_ (RunsLike.pure rfl)
        exact (runsSame_addMacro _ _).bind_eq fun _ => ih _ _

/-! ### Statements that read lines -/

section

variable {parser : StatementParser ω} (hparser : parser.ByName)

include hparser

/-- The condition of a `WHILE` is evaluated with the same values. -/
theorem runsSame_shouldRepeat (i : Nat) (dup : Repeat) :
    RunsSame front front' (shouldRepeat parser i dup) (shouldRepeat parser i dup) := by
  refine (runsSame_modifyRepeat _ _).bind_eq fun _ => ?_
  cases dup.repeatCondition with
  | none => exact RunsLike.pure rfl
  | some condition =>
    -- a text condition that was not read is an error
    apply RunsLike.ite
    · exact (runsSame_reportError _ _ _).bind_eq fun _ => RunsLike.pure rfl
    · have hread := hparser.repeatExpression condition
      refine (runsSame_asks fun s defs log h => by rw [hread s defs log h]).bind_eq fun val => ?_
      refine RunsLike.bind_eq ?_ fun _ => RunsLike.pure rfl
      refine runsSame_modify (fun s => (parser.repeatExpression s condition).2)
        (fun s defs log h => ?_) fun _ => rfl
      rw [hread s defs log h]

theorem runsSame_setIndexVariable (indexVar : Text) (index : Nat) :
    RunsSame front front' (setIndexVariable parser indexVar index)
      (setIndexVariable parser indexVar index) := by
  refine RunsLike.ite ?_ (RunsLike.pure rfl)
  exact (runsSame_modifyWorld (hparser.indexVariable indexVar index)).bind_eq fun _ => RunsLike.pure rfl

theorem runsSame_elseifValue (state : IfState) :
    RunsSame front front' (elseifValue parser state) (elseifValue parser state) := by
  have hread := hparser.ifExpression
  refine (runsSame_asks fun s defs log h => by rw [hread s defs log h]).bind_eq fun val => ?_
  refine RunsLike.bind_eq ?_ fun _ => ?_
  · refine runsSame_modify (fun s => (parser.ifExpression s).2) (fun s defs log h => ?_) fun _ => rfl
    rw [hread s defs log h]
  · cases val with
    | none => exact RunsLike.pure rfl
    | some val => exact RunsLike.pure rfl

end

/-! ### Statements with lines of their own -/

section

variable {parse : ExpandProgram ω Unit} (hparse : RunsSame front front' parse parse)
  {parser : StatementParser ω} (hparser : parser.ByName) (fuel : Nat)

include hparse

/-- `ReadFile`, when the lines that it processes run the same. -/
theorem runsSame_readFile : RunsSame front front' (readFile parse fuel) (readFile parse fuel) := by
  refine RunsLike.loop (fun _ => ?_) fuel ()
  refine runsSame_readLine.bind_eq fun more => RunsLike.ite ?_ (RunsLike.pure rfl)
  refine runsSame_get_bind fun s defs log _ => ?_
  have hcollects : collectsLines { s with defs := defs, log := log } = collectsLines s := rfl
  rw [hcollects]
  dsimp only
  cases if collectsLines s then none else branchEnd (skipDot (skipBlanks s.line)) with
  | some retVal => exact RunsLike.pure rfl
  | none => exact hparse.bind_eq fun _ => RunsLike.pure rfl

/-- A line of a repeat is copied before it is processed. -/
theorem runsSame_repeatLineTurn (u : Unit) :
    RunsSame front front' (repeatLineTurn parse u) (repeatLineTurn parse u) := by
  refine runsSame_get_bind fun s defs log _ => ?_
  dsimp only
  match s.isRunning, s.lijstp with
  | false, _ => exact RunsLike.pure rfl
  | true, [] => exact RunsLike.pure rfl
  | true, ⟨none, _⟩ :: _ => exact RunsLike.pure rfl
  | true, ⟨some string, source⟩ :: rest =>
    refine (RunsLike.when (runsSame_setSourcePos source)).bind_eq fun _ => ?_
    refine (runsSame_copyLijstp (some string) rest).bind_eq fun _ => hparse.bind_eq fun _ => ?_
    refine (runsSame_asks fun _ _ _ _ => rfl).bind_eq fun pos => ?_
    exact (runsSame_setSourcePos _).bind_eq fun _ => RunsLike.pure rfl

theorem runsSame_dotRepeat (val : Nat) (pp : Text) :
    RunsSame front front' (dotRepeat parse fuel val pp) (dotRepeat parse fuel val pp) := by
  refine RunsLike.bracket (RunsLike.loop (fun val => ?_) fuel val) ?_ ?_
  · refine RunsLike.bind_eq (runsSame_modify_quiet (fun _ _ _ => rfl) fun _ => rfl) fun _ => ?_
    exact hparse.bind_eq fun _ => RunsLike.pure rfl
  · rintro s _ ⟨defs, log, rfl, hlog, hvalues⟩
    exact ⟨defs, log, rfl, hlog, hvalues⟩
  · rintro olds _ s _ ⟨_, _, rfl, -, -⟩ ⟨defs, log, rfl, hlog, hvalues⟩
    exact ⟨defs, log, rfl, hlog, hvalues⟩

/-- An included file has the defines of the line that includes it. -/
theorem runsSame_includeFile (file : Option (List Text)) :
    RunsSame front front' (includeFile parse fuel file) (includeFile parse fuel file) := by
  refine runsSame_get_bind fun s defs log _ => RunsLike.ite (runsSame_reportError _ _ _) ?_
  cases file with
  | none => exact runsSame_reportError _ _ _
  | some lines =>
    refine RunsLike.bracket (RunsLike.loop (fun _ => ?_) fuel ()) ?_ ?_
    · refine runsSame_readLineNoMacro.bind_eq fun more => RunsLike.ite ?_ (RunsLike.pure rfl)
      exact hparse.bind_eq fun _ => RunsLike.pure rfl
    -- entering the file, and leaving it, touches no define
    · rintro s _ ⟨defs, log, rfl, hlog, hvalues⟩
      exact ⟨defs, log, rfl, hlog, hvalues⟩
    · rintro olds _ s _ ⟨_, _, rfl, -, -⟩ ⟨defs, log, rfl, hlog, hvalues⟩
      exact ⟨defs, log, rfl, hlog, hvalues⟩

theorem runsSame_emitTurn (u : Unit) : RunsSame front front' (emitTurn parse u) (emitTurn parse u) := by
  refine runsSame_get_bind fun s defs log _ => ?_
  dsimp only
  match s.lijstp with
  | [] => exact RunsLike.pure rfl
  | ⟨string, source⟩ :: rest =>
    refine (runsSame_setSourcePos source).bind_eq fun _ => ?_
    refine (runsSame_copyLijstp string rest).bind_eq fun _ => ?_
    exact hparse.bind_eq fun _ => RunsLike.pure rfl

/-- The body of a macro, with the defines of its call. -/
theorem runsSame_emitBody (body : List BodyLine) :
    RunsSame front front' (emitBody parse fuel body) (emitBody parse fuel body) := by
  refine RunsLike.bracket (RunsLike.loop (runsSame_emitTurn hparse) fuel ()) ?_ ?_
  · rintro s _ ⟨defs, log, rfl, hlog, hvalues⟩
    exact ⟨defs, log, rfl, hlog, hvalues⟩
  · rintro olds _ s _ ⟨_, _, rfl, -, -⟩ ⟨defs, log, rfl, hlog, hvalues⟩
    exact ⟨defs, log, rfl, hlog, hvalues⟩

omit hparse in
/-- Behind a call, each run has its own list of the macro defines from before. -/
theorem runsSame_restore {odefs odefs' : List (Text × Text)} (h : SameValues odefs odefs')
    (omacrolabp : Option Text) :
    RunsSame front front'
      (modify fun s => { s with defs := odefs, macrolabp := omacrolabp } : ExpandProgram ω PUnit)
      (modify fun s => { s with defs := odefs', macrolabp := omacrolabp }) := by
  refine RunsLike.modify fun s t hst => ?_
  obtain ⟨defs, log, rfl, hlog, -⟩ := hst
  exact ⟨odefs', log, rfl, hlog, h⟩

omit hparse in
/-- A call that fails puts the defines of its caller back, which are the same up to their order. -/
theorem runsSame_failMacroEmit {odefs odefs' : List (Text × Text)} (h : SameValues odefs odefs')
    (omacrolabp : Option Text) (e : CallError) :
    RunsSame front front' (failMacroEmit omacrolabp odefs e : ExpandProgram ω Nat)
      (failMacroEmit omacrolabp odefs' e) :=
  (runsSame_reportError _ _ _).bind_eq fun _ =>
    (runsSame_restore h omacrolabp).bind_eq fun _ => RunsLike.pure rfl

/-- A macro that is found: its arguments are read, and its body is processed behind them. -/
theorem runsSame_emitFound (macName : Text) (entry : MacroTableEntry) (p : Text) :
    RunsSame front front' (emitFound parse fuel macName entry p)
      (emitFound parse fuel macName entry p) := by
  refine (runsSame_asks fun _ _ _ _ => rfl).bind_eq fun omacrolabp => ?_
  refine runsSame_startEmit.bind_eq fun _ => ?_
  -- the table that is kept has the same values, though in another order
  have hodefs : RunsLike (SameDefines front front') SameValues
      (asks fun s : ExpandState ω => s.defs) (asks fun s => s.defs) := by
    refine RunsLike.asks fun s t hst => ?_
    obtain ⟨defs, log, rfl, -, hvalues⟩ := hst
    exact hvalues
  refine hodefs.bind fun odefs odefs' h => ?_
  refine (runsSame_parseArguments _ _ _ _ _ _).bind_eq ?_
  rintro ⟨e, p⟩
  cases e with
  | some e => exact (runsSame_failMacroEmit h _ _).bind_eq fun _ => RunsLike.pure rfl
  | none =>
    refine RunsLike.ite ?_ ?_
    · exact (runsSame_failMacroEmit h _ _).bind_eq fun _ => RunsLike.pure rfl
    · refine (runsSame_emitBody hparse fuel entry.body).bind_eq fun _ => ?_
      exact (runsSame_restore h _).bind_eq fun _ => RunsLike.pure rfl

/-- A macro call puts the defines back, so it is the same for both orders of them. -/
theorem runsSame_macroEmit (naam p : Text) :
    RunsSame front front' (macroEmit parse fuel naam p) (macroEmit parse fuel naam p) := by
  refine runsSame_get_bind fun s defs log _ => ?_
  dsimp only
  cases if s.macsUsed (nameSlot naam) then s.macs naam else none with
  | none => exact RunsLike.pure rfl
  | some entry => exact runsSame_emitFound hparse fuel naam entry p

include hparser

/-- A chain of `IF`, whatever branch is taken. -/
theorem runsSame_dirIfInternal (dirName : String) (val : Bool) :
    RunsSame front front' (dirIfInternal parser parse fuel dirName val)
      (dirIfInternal parser parse fuel dirName val) := by
  refine RunsLike.loop (fun state => ?_) fuel _
  have hbranch (val : Bool) : RunsSame front front' (readBranch parser parse fuel val)
      (readBranch parser parse fuel val) :=
    RunsLike.ite (runsSame_readFile hparse fuel) (runsSame_skipFile _ fuel)
  refine (hbranch state.val).bind_eq fun ret => ?_
  cases ret with
  | ELSE => exact (RunsLike.when (runsSame_reportError _ _ _)).bind_eq fun _ => RunsLike.pure rfl
  | ELSEIF =>
    refine RunsLike.ite ?_ (RunsLike.pure rfl)
    exact (runsSame_elseifValue hparser _).bind_eq fun _ => RunsLike.pure rfl
  | ENDIF => exact RunsLike.pure rfl
  | END =>
    refine (runsSame_asks fun _ _ _ _ => rfl).bind_eq fun isRunning => ?_
    exact (RunsLike.when (runsSame_reportError _ _ _)).bind_eq fun _ => RunsLike.pure rfl

/-- A turn of a repeat with its condition and its variable. -/
theorem runsSame_repeatTurn (i index : Nat) :
    RunsSame front front' (repeatTurn parser parse fuel i index)
      (repeatTurn parser parse fuel i index) := by
  refine runsSame_get_bind fun s defs log _ => ?_
  dsimp only
  cases s.repeatStack[i]? with
  | none => exact RunsLike.pure rfl
  | some dup =>
    refine RunsLike.ite (RunsLike.pure rfl) ?_
    refine (runsSame_shouldRepeat hparser i dup).bind_eq fun _ => RunsLike.ite ?_ (RunsLike.pure rfl)
    refine (runsSame_setSourcePos _).bind_eq fun _ => ?_
    refine (runsSame_setIndexVariable hparser _ _).bind_eq fun index => ?_
    refine RunsLike.bind_eq (runsSame_modify_quiet (fun _ _ _ => rfl) fun _ => rfl) fun _ => ?_
    refine (RunsLike.loop (runsSame_repeatLineTurn hparse) fuel ()).bind_eq fun _ => RunsLike.pure rfl

theorem runsSame_dirEDUP :
    RunsSame front front' (dirEDUP parser parse fuel) (dirEDUP parser parse fuel) := by
  refine runsSame_get_bind fun s defs log _ => ?_
  dsimp only
  cases s.repeatStack.getLast? with
  | none => exact runsSame_reportError _ _ _
  | some top =>
    refine RunsLike.ite (runsSame_reportError _ _ _) ?_
    refine RunsLike.ite (runsSame_modifyRepeat _ _) ((runsSame_modifyRepeat _ _).bind_eq fun _ => ?_)
    refine RunsLike.bracket (RunsLike.loop (runsSame_repeatTurn hparse hparser fuel _) fuel 0) ?_ ?_
    · rintro s _ ⟨defs, log, rfl, hlog, hvalues⟩
      exact ⟨defs, log, rfl, hlog, hvalues⟩
    · rintro olds _ s _ ⟨_, _, rfl, -, -⟩ ⟨defs, log, rfl, hlog, hvalues⟩
      exact ⟨defs, log, rfl, hlog, hvalues⟩

theorem runsSame_dirENDM :
    RunsSame front front' (dirENDM parser parse fuel) (dirENDM parser parse fuel) := by
  refine runsSame_get_bind fun s defs log _ => RunsLike.ite ?_ (runsSame_reportError _ _ _)
  refine RunsLike.bind_eq ?_ fun _ => runsSame_dirEDUP hparse hparser fuel
  exact runsSame_modify (fun _ => [.warning endmMessage none .pass3]) (fun _ _ _ _ => rfl) fun _ => rfl

/-- Every statement of a line, one case for each directive. -/
theorem runsSame_parseInstruction (lp : Option Text) :
    RunsSame front front' (parseInstruction parser parse fuel lp)
      (parseInstruction parser parse fuel lp) := by
  refine (runsSame_asks (hparser.instruction lp)).bind_eq fun statement => ?_
  cases statement with
  | other world log => exact runsSame_modifyWorld fun _ _ _ _ => rfl
  | fatal log =>
    refine RunsLike.bind_eq ?_ fun _ => RunsLike.exit
    exact runsSame_modify (fun _ => log) (fun _ _ _ _ => rfl) fun _ => rfl
  | dirEND world log =>
    refine (runsSame_modifyWorld fun _ _ _ _ => rfl).bind_eq fun _ => ?_
    exact runsSame_modify_quiet (fun _ _ _ => rfl) fun _ => rfl
  | dirDUP val condition indexVar => exact runsSame_dirDUP val condition indexVar
  | dirEDUP => exact runsSame_dirEDUP hparse hparser fuel
  | dirENDM => exact runsSame_dirENDM hparse hparser fuel
  | dirIF dirName val => exact runsSame_dirIfInternal hparse hparser fuel dirName val
  | dirELSE => exact runsSame_dirElseCheckLiveDup.bind_eq fun _ => runsSame_reportError _ _ _
  | dirELSEIF => exact runsSame_dirElseCheckLiveDup.bind_eq fun _ => runsSame_reportError _ _ _
  | dirENDIF => exact runsSame_dirElseCheckLiveDup.bind_eq fun _ => runsSame_reportError _ _ _
  | dirMODULE n bp => exact runsSame_dirMODULE n bp
  | dirENDMODULE => exact runsSame_dirENDMODULE
  | dirINCLUDE file => exact runsSame_includeFile hparse fuel file
  | dotRepeat val pp => exact runsSame_dotRepeat hparse fuel val pp
  | readUntil last parse => exact runsSame_readUntil last parse fuel

theorem runsSame_collectLine :
    RunsSame front front' (collectLine parser parse fuel) (collectLine parser parse fuel) := by
  refine runsSame_get_bind fun s defs log _ => (runsSame_modifyRepeat _ _).bind_eq fun _ => ?_
  dsimp only
  match parser.repeatDirective s.line with
  | none => exact RunsLike.pure rfl
  | some .dirDUP => exact runsSame_modifyRepeat _ _
  | some .dirEDUP => exact runsSame_dirEDUP hparse hparser fuel
  | some .dirENDM => exact runsSame_dirENDM hparse hparser fuel

/-- A whole line: it is collected, or it is a macro call or a statement. -/
theorem runsSame_parseLineWith :
    RunsSame front front' (parseLineWith parser parse fuel) (parseLineWith parser parse fuel) := by
  refine (runsSame_asks fun _ _ _ _ => rfl).bind_eq fun collects => ?_
  refine RunsLike.ite (runsSame_collectLine hparse hparser fuel) ?_
  refine (runsSame_modifyWorld hparser.parseLabel).bind_eq fun _ => ?_
  refine (runsSame_asks hparser.macroCall).bind_eq fun call => ?_
  cases call with
  | none => exact runsSame_parseInstruction hparse hparser fuel none
  | some call =>
    refine (runsSame_macroEmit hparse fuel _ _).bind_eq fun r => RunsLike.ite (RunsLike.pure rfl) ?_
    exact runsSame_parseInstruction hparse hparser fuel _

end

end

/-- **Macro defines in another order.**  A line does the same, with all that it processes in turn. -/
theorem runsSame_parseLine {parser : StatementParser ω} (hparser : parser.ByName) (fuel : Nat)
    (front front' : List Event) :
    RunsSame front front' (parseLine parser fuel) (parseLine parser fuel) := by
  induction fuel with
  | zero => exact RunsLike.exit
  | succ fuel ih => exact runsSame_parseLineWith ih hparser fuel

end Sjasmplus
