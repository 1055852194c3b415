import Mathlib.Logic.Relation
import Sjasmplus.Assembler
import Sjasmplus.InstructionCode
import Sjasmplus.Lib.Loops
import Sjasmplus.Listing

/-!
# The syntax options (`sjasm.cpp`, `dirOPT` of `directives.cpp`)

The options select the processor on the command line.  The syntax and the extensions of the Z80 may change
in every line: `OPT` sets them, saves them on a stack and takes them back, and a device may enable
extensions.  Every pass starts from the syntax of the command line.

The options that do not change the syntax or the processor are read over.
-/

namespace Sjasmplus

open Program

/-- `SSyntax`. -/
structure SSyntax where
  isPseudoOpBOF : Bool := false
  isReversePOP : Bool := false
  fakeEnabled : Bool := true
  fakeWarning : Bool := false
  isListingSuspended : Bool := false
  listingType : ELstType := .all
  caseInsensitiveInstructions : Bool := false
  warningsAsErrors : Bool := false
  is_M_Memory : Bool := false
  isSubwordSubstitution : Bool := true
  memoryBrackets : Nat := 0
  isNextEnabled : Nat := 0
  isMultiArgPlainComma : Bool := true
deriving DecidableEq, Repr

/-- `Options`, with the flag of `InitNextExtensions` and the messages. -/
structure Options where
  isI8080 : Bool := false
  isLR35902 : Bool := false
  syx : SSyntax := {}
  systemSyntax : SSyntax := {}
  syxStack : List SSyntax := []
  nextWasInitialized : Bool := false
  log : List Event := []
deriving DecidableEq, Repr

/-- A piece of the option parser. -/
abbrev OptionsProgram := Program Options

namespace Options

/-- What instructions see of the options. -/
def instructionOptions (o : Options) : InstructionOptions where
  isI8080 := o.isI8080
  isLR35902 := o.isLR35902
  fakeEnabled := o.syx.fakeEnabled
  fakeWarning := o.syx.fakeWarning
  caseInsensitiveInstructions := o.syx.caseInsensitiveInstructions
  is_M_Memory := o.syx.is_M_Memory
  memoryBrackets := o.syx.memoryBrackets
  isNextEnabled := o.syx.isNextEnabled
  isReversePOP := o.syx.isReversePOP
  isMultiArgPlainComma := o.syx.isMultiArgPlainComma

/-! ### Messages and changes -/

def report (e : Event) : OptionsProgram Unit := modify fun o => { o with log := o.log ++ [e] }

/-- `Error` of type `FATAL`, which ends the program. -/
def fatal (message : String) (badValueMessage : Option Text) : OptionsProgram Unit := do
  report (.error message badValueMessage .fatal)
  exit

/-- Change the current syntax. -/
def setSyntax (f : SSyntax → SSyntax) : OptionsProgram Unit := modify fun o => { o with syx := f o.syx }

/-- `resetCurrentSyntax`. -/
def resetCurrentSyntax : OptionsProgram Unit := setSyntax fun _ => {}

/-- `pushCurrentSyntax`. -/
def pushCurrentSyntax : OptionsProgram Unit := modify fun o => { o with syxStack := o.syx :: o.syxStack }

/-- `popSyntax`. -/
def popSyntax : OptionsProgram Bool := do
  match (← get).syxStack with
  | [] => pure false
  | syx :: syxStack =>
    modify fun o => { o with syx := syx, syxStack := syxStack }
    pure true

/-- `restoreSystemSyntax`. -/
def restoreSystemSyntax : OptionsProgram Unit :=
  modify fun o => { o with syx := o.systemSyntax, syxStack := [] }

/-- `InitNextExtensions`. -/
def initNextExtensions : OptionsProgram Unit :=
  modify fun o => { o with nextWasInitialized := o.nextWasInitialized || o.syx.isNextEnabled ≠ 0 }

/-- Only the Z80 has the extensions of the Z80N. -/
def requireZ80 (i8080Message lr35902Message : String) (badValueMessage : Option Text) :
    OptionsProgram Unit := do
  let o ← get
  if o.isI8080 then fatal i8080Message badValueMessage
  else if o.isLR35902 then fatal lr35902Message badValueMessage
  else pure ()

/-! ### Options on the command line -/

/-- `splitByChar`. -/
def splitByChar (s : Text) (splitter : Char) : Text × Text :=
  (s.takeWhile (· ≠ splitter), (s.dropWhile (· ≠ splitter)).tail)

/-- The letters of `parseSyntaxValue`. -/
def syntaxOption (c : Char) : OptionsProgram Unit :=
  match c with
  | 'f' => setSyntax fun syx => { syx with fakeEnabled := true, fakeWarning := true }
  | 'F' => setSyntax fun syx => { syx with fakeEnabled := false }
  | 'a' => setSyntax fun syx => { syx with isMultiArgPlainComma := false }
  | 'b' => setSyntax fun syx => { syx with memoryBrackets := 1 }
  | 'B' => setSyntax fun syx => { syx with memoryBrackets := 2 }
  | 'l' | 'L' => report (.error "Syntax option not implemented yet" (some [c]) .pass03)
  | 'i' => setSyntax fun syx => { syx with caseInsensitiveInstructions := true }
  | 'w' => setSyntax fun syx => { syx with warningsAsErrors := true }
  | 'M' => setSyntax fun syx => { syx with is_M_Memory := true }
  | 's' => setSyntax fun syx => { syx with isSubwordSubstitution := false }
  | _ => report (.error "Unrecognized syntax option" (some [c]) .pass03)

/-- `parseSyntaxValue`. -/
def parseSyntaxValue : Text → OptionsProgram Unit
  | [] => pure ()
  | c :: val => do
    syntaxOption c
    parseSyntaxValue val

/-- `--zxnext`. -/
def zxnext (val : Text) : OptionsProgram Unit := do
  requireZ80 "Can't enable Next extensions while in i8080 mode"
    "Can't enable Next extensions while in Sharp LR35902 mode" none
  setSyntax fun syx => { syx with isNextEnabled := if val = "cspect".toList then 2 else 1 }

/-- An option and its value: behind two dashes up to the sign, and otherwise a letter with what follows. -/
def optAndVal (arg : Text) : Text × Text :=
  if cur arg.tail = '-' then splitByChar (arg.drop 2) '=' else (arg.tail.take 1, arg.drop 2)

/-- Options that may have their value in the argument behind them. -/
def takesNext (arg : Text) (next : Option Text) : Bool :=
  let doubleDash := cur arg.tail = '-'
  let (opt, val) := optAndVal arg
  if (doubleDash ∧ opt = "inc".toList) ∨ (¬doubleDash ∧ (opt = ['i'] ∨ opt = ['I'])) then
    val = [] && (!doubleDash || arg.getD 5 '\x00' = '=') && next.any (cur · ≠ '-')
  else opt = "define".toList && next.isSome

/-- One argument of `GetOptions`: none where it stops, and otherwise whether the next one belongs to it. -/
def getOption (onlySyntaxOptions : Bool) (arg : Text) (next : Option Text) :
    OptionsProgram (Option Bool) := do
  let (opt, val) := optAndVal arg
  if opt = "zxnext".toList then
    zxnext val
    pure (some false)
  else if opt = "reversepop".toList then
    setSyntax fun syx => { syx with isReversePOP := true }
    pure (some false)
  else if opt = "dirbol".toList then
    setSyntax fun syx => { syx with isPseudoOpBOF := true }
    pure (some false)
  else if opt = "nofakes".toList then
    setSyntax fun syx => { syx with fakeEnabled := false }
    pure (some false)
  else if opt = "syntax".toList then
    parseSyntaxValue val
    pure (some false)
  else if cur arg.tail ≠ '-' ∧ opt = ['W'] then pure (some false)
  else if opt = "cleanonerror".toList then pure (some false)
  else if onlySyntaxOptions then pure none
  else if opt = "lr35902".toList then
    modify fun o => { o with isLR35902 := true, isI8080 := false, syx := { o.syx with isNextEnabled := 0 } }
    pure (some false)
  else if opt = "i8080".toList then
    modify fun o => { o with isI8080 := true, isLR35902 := false, syx := { o.syx with isNextEnabled := 0 } }
    pure (some false)
  else pure (some (takesNext arg next))

/-- `GetOptions` for `OPT`: the arguments that are left. -/
def parseSyntaxOptions : List Text → OptionsProgram (List Text)
  | [] => pure []
  | arg :: args => do
    if cur arg = '-' then
      match ← getOption true arg args.head? with
      | some _ => parseSyntaxOptions args
      | none => pure (arg :: args)
    else pure (arg :: args)

/-- `GetOptions` on the command line, with the loop over the sources in between. -/
def commandLine : List Text → OptionsProgram Unit
  | [] => pure ()
  | [arg] => do
    if cur arg = '-' then
      let _ ← getOption false arg none
    else pure ()
  | arg :: next :: args => do
    if cur arg = '-' then
      match ← getOption false arg (some next) with
      | some true => commandLine args
      | _ => commandLine (next :: args)
    else commandLine (next :: args)

/-- `main` up to the first pass: the options of the environment are in front of those of the command line. -/
def start (envArgs args : List Text) : OptionsProgram Unit := do
  commandLine envArgs
  commandLine args
  modify fun o => { o with systemSyntax := o.syx }
  let o ← get
  -- `Z80::Init`
  if o.isI8080 || o.isLR35902 then pure () else initNextExtensions

/-! ### `OPT` -/

/-- The commands of `OPT`. -/
inductive OptCommand
  | pop | push | reset | listoff | liston | listall | listact | listmc
deriving DecidableEq, Repr

/-- A command, and what follows it. -/
def optCommand (p : Text) : Option (OptCommand × Text) :=
  [("pop", OptCommand.pop), ("push", .push), ("reset", .reset), ("listoff", .listoff), ("liston", .liston),
    ("listall", .listall), ("listact", .listact), ("listmc", .listmc)].findSome? fun command =>
      (cmphstr p command.1.toList).map fun q => (command.2, q)

/-- The commands in front of the options: none behind `pop` and behind an error.  The lines of the listing
are left out. -/
def optCommands : Nat → Bool → Text → OptionsProgram (Option Text)
  | 0, _, p => pure (some p)
  | fuel + 1, didReset, p => do
    let p := Sjasmplus.skipBlanks p
    if cur p = '\x00' ∨ cur p = '-' then pure (some p)
    else
      match optCommand p with
      | some (.pop, _) =>
        if ← popSyntax then pure none
        else
          report (.warning "[OPT] no previous syntax found" none .pass3)
          pure none
      | some (.push, q) =>
        when didReset (report (.warning "[OPT] pushing syntax status after reset" none .pass3))
        pushCurrentSyntax
        optCommands fuel didReset q
      | some (.reset, q) =>
        resetCurrentSyntax
        optCommands fuel true q
      | some (.listoff, q) =>
        setSyntax fun syx => { syx with isListingSuspended := true }
        optCommands fuel didReset q
      | some (.liston, q) =>
        setSyntax fun syx => { syx with isListingSuspended := false }
        optCommands fuel didReset q
      | some (.listall, q) =>
        setSyntax fun syx => { syx with listingType := .all }
        optCommands fuel didReset q
      | some (.listact, q) =>
        setSyntax fun syx => { syx with listingType := .active }
        optCommands fuel didReset q
      | some (.listmc, q) =>
        setSyntax fun syx => { syx with listingType := .mcOnly }
        optCommands fuel didReset q
      | none =>
        report (.error
          "[OPT] invalid command (valid commands: push, pop, reset, liston, listoff, listall, listact, listmc)"
          (some p) .pass3)
        pure none

/-- The arguments, which end at blanks. -/
def splitArguments (p : Text) : List Text :=
  ((p.takeWhile (· ≠ '\x00')).splitOnP white).filter (· ≠ [])

/-- `dirOPT`. -/
def dirOPT (lp : Text) : OptionsProgram Unit := do
  match ← optCommands (lp.length + 1) false lp with
  | none => pure ()
  | some p =>
    match ← parseSyntaxOptions (splitArguments p) with
    | [] => pure ()
    | arg :: _ => report (.error "[OPT] invalid/failed option" (some arg) .pass3)
    initNextExtensions

/-! ### Devices -/

/-- What `DeviceZxSpectrumNext` does to the options. -/
def deviceZxSpectrumNext (line : Text) : OptionsProgram Unit := do
  requireZ80 "Can't use ZXN device while in i8080 assembling mode"
    "Can't use ZXN device while in Sharp LR35902 assembling mode" (some line)
  let o ← get
  if o.syx.isNextEnabled = 0 then do
    setSyntax fun syx => { syx with isNextEnabled := 1 }
    initNextExtensions
  else pure ()

/-! ### What the options can do -/

/-- A change by a command of `OPT`. -/
inductive CommandStep : Options → Options → Prop
  | report (o : Options) (log : List Event) : CommandStep o { o with log := log }
  | adjust (o : Options) {syx : SSyntax} (h : syx.isNextEnabled = o.syx.isNextEnabled) :
      CommandStep o { o with syx := syx }
  | reset (o : Options) : CommandStep o { o with syx := {} }
  | push (o : Options) : CommandStep o { o with syxStack := o.syx :: o.syxStack }
  | pop (o : Options) {syx : SSyntax} {syxStack : List SSyntax} (h : o.syxStack = syx :: syxStack) :
      CommandStep o { o with syx := syx, syxStack := syxStack }

/-- A change by an option of the syntax. -/
inductive OptionStep : Options → Options → Prop
  | report (o : Options) (log : List Event) : OptionStep o { o with log := log }
  | adjust (o : Options) {syx : SSyntax} (h : syx.isNextEnabled = o.syx.isNextEnabled) :
      OptionStep o { o with syx := syx }
  | enable (o : Options) (hI : o.isI8080 = false) (hLR : o.isLR35902 = false) {level : Nat}
      (hlevel : level ≤ 2) : OptionStep o { o with syx := { o.syx with isNextEnabled := level } }

open Relation (ReflTransGen)

section

/-- Changes that leave the level of the extensions alone. -/
theorem keeps_setSyntax {f : SSyntax → SSyntax} (hf : ∀ syx, (f syx).isNextEnabled = syx.isNextEnabled) :
    Keeps (ReflTransGen OptionStep) (setSyntax f) :=
  Keeps.modify fun o => .single (.adjust o (hf o.syx))

theorem keeps_report {e : Event} : Keeps (ReflTransGen OptionStep) (report e) :=
  Keeps.modify fun o => .single (.report o _)

theorem keeps_fatal {message : String} {badValueMessage : Option Text} :
    Keeps (ReflTransGen OptionStep) (fatal message badValueMessage) :=
  .bind keeps_report fun _ => .exit

theorem keeps_syntaxOption (c : Char) : Keeps (ReflTransGen OptionStep) (syntaxOption c) := by
  unfold syntaxOption
  split
  any_goals exact keeps_report
  all_goals exact keeps_setSyntax fun _ => rfl

theorem keeps_parseSyntaxValue (val : Text) : Keeps (ReflTransGen OptionStep) (parseSyntaxValue val) := by
  induction val with
  | nil => exact .pure _
  | cons c val ih => exact .bind (keeps_syntaxOption c) fun _ => ih

/-- Behind the check the processor is the Z80. -/
theorem ensures_requireZ80 {i8080Message lr35902Message : String} {badValueMessage : Option Text}
    (o : Options) : Ensures (requireZ80 i8080Message lr35902Message badValueMessage) o fun _ t =>
      t = o ∧ o.isI8080 = false ∧ o.isLR35902 = false := by
  apply Ensures.get_bind
  refine Ensures.ite (fun _ => Ensures.after fun _ _ => Ensures.exit) fun hI => ?_
  refine Ensures.ite (fun _ => Ensures.after fun _ _ => Ensures.exit) fun hLR => Ensures.pure ?_
  exact ⟨rfl, by simpa using hI, by simpa using hLR⟩

theorem keeps_requireZ80_bind {i8080Message lr35902Message : String} {badValueMessage : Option Text}
    {p : OptionsProgram Unit} (hp : ∀ o : Options, o.isI8080 = false → o.isLR35902 = false →
      ReflTransGen OptionStep o (p.final o)) :
    Keeps (ReflTransGen OptionStep) (do
      requireZ80 i8080Message lr35902Message badValueMessage
      p) := by
  intro o
  have hcheck : Keeps (ReflTransGen OptionStep) (requireZ80 i8080Message lr35902Message badValueMessage) :=
    .get_bind fun _ => .ite keeps_fatal (.ite keeps_fatal (.pure _))
  refine final_bind_of_ensures (ensures_requireZ80 o) (hcheck o) ?_
  rintro _ _ ⟨rfl, hI, hLR⟩
  exact hp _ hI hLR

theorem keeps_zxnext (val : Text) : Keeps (ReflTransGen OptionStep) (zxnext val) :=
  keeps_requireZ80_bind fun o hI hLR => .single (.enable o hI hLR (by split <;> decide))

/-- An option of the syntax, or one of the others. -/
theorem keeps_getOption {R : Options → Options → Prop} [Std.Refl R] [IsTrans Options R]
    (hR : ∀ o t, ReflTransGen OptionStep o t → R o t) (onlySyntaxOptions : Bool)
    (hcpu : onlySyntaxOptions = false → ∀ isI8080 isLR35902, !(isI8080 && isLR35902) → Keeps R
      (modify fun o => { o with
        isI8080 := isI8080, isLR35902 := isLR35902, syx := { o.syx with isNextEnabled := 0 } }))
    (arg : Text) (next : Option Text) : Keeps R (getOption onlySyntaxOptions arg next) := by
  have hdone : ∀ p : OptionsProgram Unit, Keeps (ReflTransGen OptionStep) p →
      Keeps R (do p; pure (some false)) := fun _ hp => .bind (hp.mono hR) fun _ => .pure _
  unfold getOption
  rcases optAndVal arg with ⟨opt, val⟩
  refine .ite (hdone _ (keeps_zxnext _)) (.ite (hdone _ ?_) (.ite (hdone _ ?_) (.ite (hdone _ ?_)
    (.ite (hdone _ (keeps_parseSyntaxValue _)) (.ite (.pure _) (.ite (.pure _) ?_))))))
  any_goals exact keeps_setSyntax fun _ => rfl
  -- the options of the processor are for the command line only
  cases onlySyntaxOptions with
  | true => exact .pure _
  | false =>
    refine .ite (.pure _) (.ite ?_ (.ite ?_ (.pure _)))
    · exact .bind (hcpu rfl false true rfl) fun _ => .pure _
    · exact .bind (hcpu rfl true false rfl) fun _ => .pure _

/-- The options of `OPT` only change the current syntax. -/
theorem keeps_parseSyntaxOptions (args : List Text) :
    Keeps (ReflTransGen OptionStep) (parseSyntaxOptions args) := by
  induction args with
  | nil => exact .pure _
  | cons arg args ih =>
    have harg := keeps_getOption (fun _ _ h => h) true (fun h => absurd h (by simp)) arg args.head?
    refine .ite (.bind harg fun result => ?_) (.pure _)
    cases result with
    | some => exact ih
    | none => exact .pure _

theorem keeps_optCommands (fuel : Nat) (didReset : Bool) (p : Text) :
    Keeps (ReflTransGen CommandStep) (optCommands fuel didReset p) := by
  have hreport : ∀ e, Keeps (ReflTransGen CommandStep) (report e) := fun e =>
    Keeps.modify fun o => .single (.report o _)
  -- a command changes a value of the syntax, but never the extensions
  have hset : ∀ f : SSyntax → SSyntax, (∀ syx, (f syx).isNextEnabled = syx.isNextEnabled) →
      Keeps (ReflTransGen CommandStep) (setSyntax f) := fun f hf =>
    Keeps.modify fun o => .single (.adjust o (hf o.syx))
  have hpop : Keeps (ReflTransGen CommandStep) popSyntax := by
    apply Keeps.get_bind_at
    intro o
    cases hstack : o.syxStack with
    | nil => exact .refl
    | cons syx syxStack => exact .single (.pop o hstack)
  -- by induction on the fuel: one command, and those behind it
  induction fuel generalizing didReset p with
  | zero => exact .pure _
  | succ fuel ih =>
    refine .ite (.pure _) ?_
    split
    · exact .bind hpop fun _ => .ite (.pure _) (.bind (hreport _) fun _ => .pure _)
    · refine .bind (.when (hreport _)) fun _ => .bind (Keeps.modify fun o => ?_) fun _ => ih _ _
      exact .single (.push o)
    · exact .bind (Keeps.modify fun o => .single (.reset o)) fun _ => ih _ _
    any_goals exact .bind (hreport _) fun _ => .pure _
    all_goals exact .bind (hset _ fun _ => rfl) fun _ => ih _ _

end

/-! ### The invariant -/

/-- The processor is not the Z80. -/
def nonZ80CPU (o : Options) : Bool := o.isI8080 || o.isLR35902

/-- Only the Z80 has extensions, and they have two levels. -/
structure Allowed (nonZ80CPU : Bool) (syx : SSyntax) : Prop where
  level : syx.isNextEnabled ≤ 2
  z80 : nonZ80CPU = true → syx.isNextEnabled = 0

theorem Allowed.congr {nonZ80CPU : Bool} {syx syx' : SSyntax} (h : Allowed nonZ80CPU syx)
    (hlevel : syx'.isNextEnabled = syx.isNextEnabled) : Allowed nonZ80CPU syx' where
  level := hlevel.trans_le h.level
  z80 hcpu := hlevel.trans (h.z80 hcpu)

theorem allowed_default (nonZ80CPU : Bool) : Allowed nonZ80CPU {} := ⟨Nat.zero_le 2, fun _ => rfl⟩

/-- The current syntax is allowed, and so are the saved ones, whose instructions are in the table. -/
structure Settled (o : Options) : Prop where
  exclusive : o.isI8080 = true → o.isLR35902 = false
  current : Allowed o.nonZ80CPU o.syx
  saved : ∀ syx ∈ o.systemSyntax :: o.syxStack, Allowed o.nonZ80CPU syx ∧
    (syx.isNextEnabled ≠ 0 → o.nextWasInitialized = true)

/-- The instructions of the current syntax are in the table, too. -/
structure Ready (o : Options) : Prop extends Settled o where
  initialized : o.syx.isNextEnabled ≠ 0 → o.nextWasInitialized = true

theorem Ready.consistent {o : Options} (ho : o.Ready) : o.instructionOptions.Consistent where
  exclusive := ho.exclusive
  extensions hcpu := ho.current.z80 (by rw [nonZ80CPU, Bool.or_eq_true]; exact hcpu)

theorem OptionStep.settled {o t : Options} (h : OptionStep o t) (ho : o.Settled) : t.Settled := by
  cases h with
  | report => exact ⟨ho.exclusive, ho.current, ho.saved⟩
  | adjust hlevel => exact ⟨ho.exclusive, ho.current.congr hlevel, ho.saved⟩
  | enable hI hLR hlevel =>
    refine ⟨ho.exclusive, ⟨hlevel, fun hcpu => ?_⟩, ho.saved⟩
    simp [nonZ80CPU, hI, hLR] at hcpu

theorem CommandStep.ready {o t : Options} (h : CommandStep o t) (ho : o.Ready) : t.Ready := by
  cases h with
  | report => exact ⟨⟨ho.exclusive, ho.current, ho.saved⟩, ho.initialized⟩
  | adjust hlevel =>
    refine ⟨⟨ho.exclusive, ho.current.congr hlevel, ho.saved⟩, fun hnext => ho.initialized ?_⟩
    exact hlevel ▸ hnext
  | reset => exact ⟨⟨ho.exclusive, allowed_default _, ho.saved⟩, fun hnext => absurd rfl hnext⟩
  | push =>
    -- the syntax that is saved has its instructions in the table
    refine ⟨⟨ho.exclusive, ho.current, ?_⟩, ho.initialized⟩
    intro syx hsyx
    rcases List.mem_cons.mp hsyx with rfl | hsyx
    · exact ho.saved _ (List.mem_cons_self ..)
    · rcases List.mem_cons.mp hsyx with rfl | hsyx
      · exact ⟨ho.current, ho.initialized⟩
      · exact ho.saved syx (List.mem_cons_of_mem _ hsyx)
  | pop hstack =>
    obtain ⟨hcurrent, hinitialized⟩ := ho.saved _ (List.mem_cons_of_mem _ (hstack ▸ List.mem_cons_self ..))
    refine ⟨⟨ho.exclusive, hcurrent, fun syx hsyx => ho.saved syx ?_⟩, hinitialized⟩
    rcases List.mem_cons.mp hsyx with rfl | hsyx
    · exact List.mem_cons_self ..
    · exact List.mem_cons_of_mem _ (hstack ▸ List.mem_cons_of_mem _ hsyx)

/-- The processor stays, and so does the syntax that the passes start with. -/
structure SameProcessor (o t : Options) : Prop where
  isI8080 : t.isI8080 = o.isI8080
  isLR35902 : t.isLR35902 = o.isLR35902
  systemSyntax : t.systemSyntax = o.systemSyntax

theorem SameProcessor.refl (o : Options) : SameProcessor o o := ⟨rfl, rfl, rfl⟩

theorem SameProcessor.trans {o t u : Options} (h : SameProcessor o t) (h' : SameProcessor t u) :
    SameProcessor o u :=
  ⟨h'.isI8080.trans h.isI8080, h'.isLR35902.trans h.isLR35902, h'.systemSyntax.trans h.systemSyntax⟩

theorem OptionStep.sameProcessor {o t : Options} (h : OptionStep o t) : SameProcessor o t := by
  cases h <;> exact ⟨rfl, rfl, rfl⟩

theorem CommandStep.sameProcessor {o t : Options} (h : CommandStep o t) : SameProcessor o t := by
  cases h <;> exact ⟨rfl, rfl, rfl⟩

/-- Putting the instructions of the current syntax into the table. -/
theorem Settled.initNextExtensions {o : Options} (ho : o.Settled) :
    Ready { o with nextWasInitialized := o.nextWasInitialized || o.syx.isNextEnabled ≠ 0 } := by
  refine ⟨⟨ho.exclusive, ho.current, fun syx hsyx => ?_⟩, fun hnext => by simp [hnext]⟩
  obtain ⟨hallowed, hinitialized⟩ := ho.saved syx hsyx
  exact ⟨hallowed, fun hnext => by simp [hinitialized hnext]⟩

/-! ### Runs -/

/-- On the command line nothing has been saved. -/
structure Early (o : Options) : Prop where
  exclusive : o.isI8080 = true → o.isLR35902 = false
  current : Allowed o.nonZ80CPU o.syx
  systemSyntax : o.systemSyntax = {}
  syxStack : o.syxStack = []

theorem OptionStep.early {o t : Options} (h : OptionStep o t) (ho : o.Early) : t.Early := by
  cases h with
  | report => exact ⟨ho.exclusive, ho.current, ho.systemSyntax, ho.syxStack⟩
  | adjust hlevel => exact ⟨ho.exclusive, ho.current.congr hlevel, ho.systemSyntax, ho.syxStack⟩
  | enable hI hLR hlevel =>
    refine ⟨ho.exclusive, ⟨hlevel, fun hcpu => ?_⟩, ho.systemSyntax, ho.syxStack⟩
    simp [nonZ80CPU, hI, hLR] at hcpu

/-- What survives every step survives them all. -/
theorem survives_of_steps {r : Options → Options → Prop} {P : Options → Prop}
    (hstep : ∀ o t, r o t → P o → P t) (o t : Options) (h : ReflTransGen r o t) : Survives P o t := by
  intro ho
  induction h with
  | refl => exact ho
  | tail _ hlast ih => exact hstep _ _ hlast ih

theorem early_getOption (arg : Text) (next : Option Text) :
    Keeps (Survives Early) (getOption false arg next) := by
  refine keeps_getOption (survives_of_steps fun _ _ => OptionStep.early) false ?_ arg next
  intro _ isI8080 isLR35902 hne o ho
  refine ⟨fun hI => ?_, ⟨Nat.zero_le 2, fun _ => rfl⟩, ho.systemSyntax, ho.syxStack⟩
  -- not both of them
  show isLR35902 = false
  obtain rfl : isI8080 = true := hI
  simpa using hne

theorem early_commandLine : ∀ args : List Text, Keeps (Survives Early) (commandLine args)
  | [] => .pure _
  | [arg] => .ite (.bind (early_getOption arg none) fun _ => .pure _) (.pure _)
  | arg :: next :: args => by
    have htaken := early_commandLine args
    have hrest := early_commandLine (next :: args)
    refine .ite (.bind (early_getOption arg _) fun result => ?_) hrest
    match result with
    | some true => exact htaken
    | some false => exact hrest
    | none => exact hrest

theorem ensures_initNextExtensions {o : Options} (ho : o.Settled) :
    Ensures initNextExtensions o fun _ t => t.Ready ∧ SameProcessor o t :=
  Ensures.of_exec (exec_modify _ o) ⟨ho.initNextExtensions, rfl, rfl, rfl⟩

/-- The command line selects one processor. -/
theorem ensures_start
    (envArgs args : List Text) : Ensures (start envArgs args) {} fun _ t => t.Ready := by
  -- before the first option nothing was selected
  have hearly : Early {} := ⟨fun h => absurd h (by decide), allowed_default _, rfl, rfl⟩
  refine (Ensures.of_keeps (early_commandLine envArgs)).bind fun _ s hs => ?_
  refine (Ensures.of_keeps (early_commandLine args)).bind fun _ t ht => ?_
  obtain ⟨hexclusive, hcurrent, -, hstack⟩ := ht (hs hearly)
  apply Ensures.modify_bind
  apply Ensures.get_bind
  refine Ensures.ite (fun hcpu => Ensures.pure ?_) fun _ => Ensures.of_exec (exec_modify _ _) ?_
  · -- without extensions there is nothing to put into the table
    have hnone : t.syx.isNextEnabled = 0 := hcurrent.z80 hcpu
    refine ⟨⟨hexclusive, hcurrent, fun syx hsyx => ?_⟩, fun hnext => absurd hnone hnext⟩
    rw [hstack, List.mem_singleton] at hsyx
    obtain rfl : syx = t.syx := hsyx
    exact ⟨hcurrent, fun hnext => absurd hnone hnext⟩
  · refine ⟨⟨hexclusive, hcurrent, fun syx hsyx => ?_⟩, fun hnext => by simp [hnext]⟩
    rw [hstack, List.mem_singleton] at hsyx
    obtain rfl : syx = t.syx := hsyx
    exact ⟨hcurrent, fun hnext => by simp [hnext]⟩

/-- `OPT` keeps the invariant. -/
theorem ensures_dirOPT (lp : Text) {o : Options} (ho : o.Ready) :
    Ensures (dirOPT lp) o fun _ t => t.Ready ∧ SameProcessor o t := by
  have hcommands : ∀ s t, Relation.ReflTransGen CommandStep s t →
      Survives (fun u => u.Ready ∧ SameProcessor o u) s t :=
    survives_of_steps fun _ _ h hs => ⟨h.ready hs.1, hs.2.trans h.sameProcessor⟩
  have hoptions : ∀ s t, Relation.ReflTransGen OptionStep s t →
      Survives (fun u => u.Settled ∧ SameProcessor o u) s t :=
    survives_of_steps fun _ _ h hs => ⟨h.settled hs.1, hs.2.trans h.sameProcessor⟩
  refine (Ensures.of_keeps ((keeps_optCommands _ false lp).mono hcommands)).bind fun result s hs => ?_
  obtain ⟨hready, hsame⟩ := hs ⟨ho, SameProcessor.refl o⟩
  cases result with
  | none => exact Ensures.pure ⟨hready, hsame⟩
  | some p =>
    refine (Ensures.of_keeps ((keeps_parseSyntaxOptions _).mono hoptions)).bind fun rest t ht => ?_
    obtain ⟨hsettled, hsame⟩ := ht ⟨hready.toSettled, hsame⟩
    -- behind the options, the table of instructions is made for the syntax
    have hinit : ∀ u, OptionStep t u ∨ t = u → Ensures initNextExtensions u fun _ v =>
        v.Ready ∧ SameProcessor o v := by
      rintro u (h | rfl)
      · exact (ensures_initNextExtensions (h.settled hsettled)).mono fun _ _ hv =>
          ⟨hv.1, (hsame.trans h.sameProcessor).trans hv.2⟩
      · exact (ensures_initNextExtensions hsettled).mono fun _ _ hv => ⟨hv.1, hsame.trans hv.2⟩
    cases rest with
    | nil => exact hinit t (Or.inr rfl)
    | cons arg args => exact Ensures.modify_bind (hinit _ (Or.inl (.report t _)))

/-- A device of the ZX Spectrum Next enables the extensions. -/
theorem ensures_deviceZxSpectrumNext (line : Text) {o : Options} (ho : o.Ready) :
    Ensures (deviceZxSpectrumNext line) o fun _ t => t.Ready ∧ SameProcessor o t := by
  refine (ensures_requireZ80 o).bind ?_
  rintro _ _ ⟨rfl, hI, hLR⟩
  refine Ensures.get_bind (Ensures.ite (fun _ => ?_) fun _ => Ensures.pure ⟨ho, SameProcessor.refl _⟩)
  apply Ensures.modify_bind
  have hstep := OptionStep.enable _ hI hLR (show 1 ≤ 2 by decide)
  exact (ensures_initNextExtensions (hstep.settled ho.toSettled)).mono fun _ _ hv =>
    ⟨hv.1, hstep.sameProcessor.trans hv.2⟩

/-- A pass starts from the syntax of the command line. -/
theorem ready_initPass {o : Options} (ho : o.Ready) :
    Ready { o with syx := o.systemSyntax, syxStack := [] } := by
  obtain ⟨hallowed, hinitialized⟩ := ho.saved _ (List.mem_cons_self ..)
  refine ⟨⟨ho.exclusive, hallowed, fun syx hsyx => ho.saved syx ?_⟩, hinitialized⟩
  rw [List.mem_singleton] at hsyx
  exact hsyx ▸ List.mem_cons_self ..

/-- What happens to the options in the passes. -/
inductive OptionsEvent
  | initPass
  | opt (lp : Text)
  | zxnDevice (line : Text)
deriving DecidableEq, Repr

/-- The program of an event. -/
def OptionsEvent.run : OptionsEvent → OptionsProgram Unit
  | initPass => restoreSystemSyntax
  | opt lp => dirOPT lp
  | zxnDevice line => deviceZxSpectrumNext line

/-- Every event keeps the invariant, and the processor. -/
theorem ensures_event (event : OptionsEvent) {o : Options} (ho : o.Ready) :
    Ensures event.run o fun _ t => t.Ready ∧ SameProcessor o t := by
  cases event with
  | initPass => exact Ensures.of_exec (exec_modify _ o) ⟨ready_initPass ho, rfl, rfl, rfl⟩
  | opt lp => exact ensures_dirOPT lp ho
  | zxnDevice line => exact ensures_deviceZxSpectrumNext line ho

/-- Events one after the other. -/
def runEvents : List OptionsEvent → OptionsProgram Unit
  | [] => pure ()
  | event :: events => do
    event.run
    runEvents events

theorem ensures_runEvents (events : List OptionsEvent) {o : Options} (ho : o.Ready) :
    Ensures (runEvents events) o fun _ t => t.Ready ∧ SameProcessor o t := by
  induction events generalizing o with
  | nil => exact Ensures.pure ⟨ho, SameProcessor.refl o⟩
  | cons event events ih =>
    refine (ensures_event event ho).bind fun _ s hs => ?_
    exact (ih hs.1).mono fun _ _ ht => ⟨ht.1, hs.2.trans ht.2⟩

/-- **In every state that is reached**, the options select one processor, only the Z80 has extensions, and
their instructions are in the table. -/
theorem consistent_of_run (envArgs args : List Text) (events : List OptionsEvent) :
    Ensures (do start envArgs args; runEvents events) {} fun _ o => o.instructionOptions.Consistent ∧
      (o.syx.isNextEnabled ≠ 0 → o.nextWasInitialized = true) := by
  refine (ensures_start envArgs args).bind fun _ s hs => (ensures_runEvents events hs).mono ?_
  rintro _ o ⟨ho, -⟩
  exact ⟨ho.consistent, ho.initialized⟩

end Options

end Sjasmplus
