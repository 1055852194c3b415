import Mathlib.Logic.Relation
import Sjasmplus.LineCode
import Sjasmplus.SyntaxOptions

/-!
# The program of a pass

In a pass the options change between the lines: `OPT` and devices change the syntax and the extensions, but
never the processor.  So the instructions of the last pass are code of the processor that the command line
selects, with one exception: `exd` on the LR35902, which emits an opcode that this processor does not have.

Other lines put data between the instructions.  The output of the pass is what its lines emit, one behind
the other, and a stretch of it without data disassembles if and only if no such `exd` is in it
(`pass_disassembles`).
-/

namespace Sjasmplus

open Program
open Z80Cpu (Processor IsCode)

variable {n m : Nat}

namespace Options

/-- The processor with all the extensions that it may have. -/
def processor (o : Options) : Processor :=
  if o.isLR35902 then .lr35902 else if o.isI8080 then .i8080 else .z80 2

theorem SameProcessor.processor {o t : Options} (h : SameProcessor o t) : t.processor = o.processor := by
  rw [Options.processor, Options.processor, h.isI8080, h.isLR35902]

/-- Code for the extensions of a line. -/
theorem Ready.isCode {o : Options} (ho : o.Ready) {bytes : List Byte}
    (h : IsCode o.instructionOptions.processor bytes) : IsCode o.processor bytes := by
  have hI : o.instructionOptions.isI8080 = o.isI8080 := rfl
  have hLR : o.instructionOptions.isLR35902 = o.isLR35902 := rfl
  rw [InstructionOptions.processor, hI, hLR] at h
  rw [processor]
  split_ifs at h ⊢
  · exact h
  · exact h
  · exact h.of_le ho.current.level

end Options

/-! ### The output of a step -/

/-- The last pass adds the bytes to the output, the others add nothing. -/
structure AddsOutput (bytes : List Byte) (s t : EmitState n m) : Prop where
  pass : t.pass = s.pass
  output : t.output = s.output ++ if s.pass = lastPass then bytes else []

namespace AddsOutput

variable {bytes bytes' : List Byte} {s t u : EmitState n m}

theorem of_emits {len : Int}
    (h : EmitState.Emits bytes len s t) : AddsOutput bytes s t := ⟨h.pass, h.output⟩

theorem nothing (hpass : t.pass = s.pass) (houtput : t.output = s.output) : AddsOutput [] s t := by
  refine ⟨hpass, ?_⟩
  rw [houtput, ite_self, List.append_nil]

theorem trans (h : AddsOutput bytes s t)
    (h' : AddsOutput bytes' t u) : AddsOutput (bytes ++ bytes') s u := by
  refine ⟨h'.pass.trans h.pass, ?_⟩
  rw [h'.output, h.output, h.pass, List.append_assoc]
  split_ifs <;> rfl

theorem foldl {α : Type} {f : EmitState n m → α → EmitState n m} {g : α → List Byte}
    (h : ∀ s a, AddsOutput (g a) s (f s a)) (as : List α) (s : EmitState n m) :
    AddsOutput (as.flatMap g) s (as.foldl f s) := by
  induction as generalizing s with
  | nil => exact nothing rfl rfl
  | cons a as ih =>
    rw [List.flatMap_cons]
    exact (h s a).trans (ih _)

end AddsOutput

/-- The bytes of a data line, as `DB`, `DW` and `BLOCK` emit them. -/
def Emission.emitted : Emission → List Byte
  | byte b => [b.setWidth 8]
  | word w => EmitState.wordBytes w
  | bytes bs => bs.flatMap fun b => [b.setWidth 8]
  | words ws => ws.flatMap EmitState.wordBytes
  | block b len _ => List.replicate len.toNat (b.setWidth 8)

theorem Emission.addsOutput_run (e : Emission)
    (s : EmitState n m) : AddsOutput e.emitted s (e.run s) := by
  cases e with
  | byte b => exact .of_emits (EmitState.emits_emitByte b s)
  | word w => exact .of_emits (EmitState.emits_emitWord w s)
  | bytes bs =>
    have hreport : AddsOutput [] s
        (if bs = [] then s.report [.error "Illegal instruction" none .ifFirst] else s) := by
      split_ifs <;> exact .nothing rfl rfl
    exact hreport.trans (.foldl (fun s b => .of_emits (EmitState.emits_emitByte b s)) bs _)
  | words ws => exact .foldl (fun s w => .of_emits (EmitState.emits_emitWord w s)) ws s
  | block b len preserveDeviceMemory =>
    obtain ⟨hpass, -, houtput, -⟩ := EmitState.emits_emitBlock b len preserveDeviceMemory s
    exact ⟨hpass, houtput⟩

/-! ### Stretches of a program -/

/-- What a step of a pass emits. -/
inductive StepOutput
  | nothing
  /-- An instruction. -/
  | code (bytes : List Byte)
  /-- The instruction `exd` on the LR35902. -/
  | sharpExd
  | data (bytes : List Byte)
deriving DecidableEq, Repr

namespace StepOutput

def bytes : StepOutput → List Byte
  | nothing => []
  | code bytes => bytes
  | sharpExd => [0xEB]
  | data bytes => bytes

def isData : StepOutput → Bool
  | data _ => true
  | _ => false

/-- The bytes are what the note says, for a processor. -/
def Fits (processor : Processor) : StepOutput → Prop
  | nothing => True
  | code bytes => IsCode processor bytes
  | sharpExd => processor = .lr35902
  | data _ => True

variable {processor : Processor}

/-- A stretch of instructions without the exception is code. -/
theorem isCode_of_not_mem {stretch : List StepOutput} (hfits : ∀ e ∈ stretch, e.Fits processor)
    (hdata : ∀ e ∈ stretch, e.isData = false) (hexd : sharpExd ∉ stretch) :
    IsCode processor (stretch.flatMap bytes) := by
  induction stretch with
  | nil => exact Z80Cpu.isCode_nil processor
  | cons e stretch ih =>
    obtain ⟨hhead, hfits⟩ := List.forall_mem_cons.mp hfits
    obtain ⟨hnoData, hdata⟩ := List.forall_mem_cons.mp hdata
    obtain ⟨hne, hexd⟩ := not_or.mp fun h => hexd (List.mem_cons.mpr h)
    have hrest := ih hfits hdata hexd
    rw [List.flatMap_cons]
    cases e with
    | nothing => exact hrest
    | code bytes => exact hhead.append hrest
    | sharpExd => exact absurd rfl hne
    | data bytes => cases hnoData

/-- **A stretch without data disassembles** unless the exception is in it: everything before its first
`exd` is read back, and that one is not. -/
theorem disassembles_iff {stretch : List StepOutput} (hfits : ∀ e ∈ stretch, e.Fits processor)
    (hdata : ∀ e ∈ stretch, e.isData = false) :
    Z80Cpu.disassembles processor (stretch.flatMap bytes) = true ↔ sharpExd ∉ stretch := by
  refine ⟨fun h hexd => ?_, fun hexd => (isCode_of_not_mem hfits hdata hexd).disassembles⟩
  obtain rfl : processor = .lr35902 := hfits sharpExd hexd
  obtain ⟨before, behind, rfl, hfirst⟩ := List.eq_append_cons_of_mem hexd
  have hbefore : IsCode .lr35902 (before.flatMap bytes) :=
    isCode_of_not_mem (fun e he => hfits e (List.mem_append_left _ he))
      (fun e he => hdata e (List.mem_append_left _ he)) hfirst
  have hmissing : (0xEB : Byte) ∈ Z80Cpu.sharpMissing := by decide
  rw [List.flatMap_append, List.flatMap_cons] at h
  have hfails := hbefore.disassembles_missing hmissing (behind.flatMap bytes)
  rw [show sharpExd.bytes ++ behind.flatMap bytes = 0xEB :: behind.flatMap bytes from rfl, hfails] at h
  cases h

end StepOutput

/-! ### Passes -/

/-- The output that a step adds. -/
def AsmState.added (s t : AsmState n m) : List Byte := t.output.drop s.output.length

/-- A step of a pass: a line that changes the options, an instruction, one of the emissions of a data
line, or anything that emits nothing. -/
inductive ProgramStep : Options × AsmState n m → StepOutput → Options × AsmState n m → Prop
  | options (event : Options.OptionsEvent) {o t : Options} (h : event.run.exec o = (some (), t))
      (s : AsmState n m) : ProgramStep (o, s) .nothing (t, s)
  | instruction (line : Text) {o : Options} {s t : AsmState n m}
      (h : t = (AsmProgram.getOpCode o.instructionOptions o.nextWasInitialized line).final s)
      (hexd : ¬IsSharpExd o.instructionOptions s.lp) : ProgramStep (o, s) (.code (s.added t)) (o, t)
  | sharpExd (line : Text) {o : Options} {s t : AsmState n m}
      (h : t = (AsmProgram.getOpCode o.instructionOptions o.nextWasInitialized line).final s)
      (hexd : IsSharpExd o.instructionOptions s.lp) : ProgramStep (o, s) .sharpExd (o, t)
  | data (emission : Emission) (o : Options) (s : AsmState n m) :
      ProgramStep (o, s) (.data emission.emitted) (o, { s with toEmitState := emission.run s.toEmitState })
  | other {o : Options} {s t : AsmState n m} (hpass : t.pass = s.pass) (houtput : t.output = s.output) :
      ProgramStep (o, s) .nothing (o, t)

/-- A run of steps, with what each of them emits. -/
inductive ProgramRun (x : Options × AsmState n m) : List StepOutput → Options × AsmState n m → Prop
  | refl : ProgramRun x [] x
  | tail {emitted : List StepOutput} {e : StepOutput} {y z : Options × AsmState n m}
      (h : ProgramRun x emitted y)
      (hstep : ProgramStep y e z) : ProgramRun x (emitted ++ [e]) z

/-- What a step keeps in the last pass, and what it emits. -/
structure StepEmits (x : Options × AsmState n m) (e : StepOutput)
    (y : Options × AsmState n m) : Prop where
  ready : y.1.Ready
  sameProcessor : Options.SameProcessor x.1 y.1
  pass : y.2.pass = lastPass
  output : y.2.output = x.2.output ++ e.bytes
  fits : e.Fits x.1.processor

/-- One step of the last pass. -/
theorem ProgramStep.emits {x y : Options × AsmState n m} {e : StepOutput} (h : ProgramStep x e y)
    (hx : x.1.Ready)
    (hpass : x.2.pass = lastPass) : StepEmits x e y := by
  -- one case for each kind of step: an option keeps the processor and emits nothing
  cases h with
  | options event hexec s =>
    obtain ⟨hready, hsame⟩ := Options.ensures_event event hx () _ hexec
    exact ⟨hready, hsame, hpass, (List.append_nil _).symm, trivial⟩
  | @instruction line o s t h hexd =>
    obtain ⟨bytes, hcode, hemits⟩ :=
      AsmProgram.getOpCode_emitsCode hx.consistent o.nextWasInitialized line hexd
    rw [← h] at hemits
    -- the bytes that the line added are those of its instructions
    have houtput : t.output = s.output ++ bytes := by rw [hemits.output, if_pos hpass]
    have hadded : s.added t = bytes := by rw [AsmState.added, houtput, List.drop_left]
    refine ⟨hx, Options.SameProcessor.refl _, hemits.pass.trans hpass, ?_, ?_⟩
    · show t.output = s.output ++ s.added t
      rw [hadded, houtput]
    · show IsCode o.processor (s.added t)
      rw [hadded]
      exact hx.isCode hcode
  | @sharpExd line o s t h hexd =>
    have hemits := AsmProgram.emits_getOpCode_exd o.nextWasInitialized line hexd
    rw [← h] at hemits
    refine ⟨hx, Options.SameProcessor.refl _, hemits.pass.trans hpass, ?_, ?_⟩
    · show t.output = s.output ++ [0xEB]
      rw [hemits.output, if_pos hpass]
    · show o.processor = .lr35902
      have hLR : o.isLR35902 = true := hexd.1
      rw [Options.processor, if_pos hLR]
  | data emission o s =>
    obtain ⟨hsame, houtput⟩ := emission.addsOutput_run s.toEmitState
    refine ⟨hx, Options.SameProcessor.refl _, hsame.trans hpass, ?_, trivial⟩
    rw [if_pos hpass] at houtput
    exact houtput
  | other hsame houtput =>
    exact ⟨hx, Options.SameProcessor.refl _, hsame.trans hpass, houtput.trans (List.append_nil _).symm,
      trivial⟩

/-- What a run of the last pass keeps, and what it emits. -/
structure RunEmits (x : Options × AsmState n m) (emitted : List StepOutput) (y : Options × AsmState n m) :
    Prop where
  ready : y.1.Ready
  sameProcessor : Options.SameProcessor x.1 y.1
  pass : y.2.pass = lastPass
  output : y.2.output = x.2.output ++ emitted.flatMap StepOutput.bytes
  fits : ∀ e ∈ emitted, e.Fits x.1.processor

/-- A run of the last pass. -/
theorem ProgramRun.emits {x y : Options × AsmState n m} {emitted : List StepOutput}
    (h : ProgramRun x emitted y)
    (hx : x.1.Ready) (hpass : x.2.pass = lastPass) : RunEmits x emitted y := by
  induction h with
  | refl => exact ⟨hx, Options.SameProcessor.refl _, hpass, (List.append_nil _).symm, by simp⟩
  | @tail emitted e y z _ hstep ih =>
    obtain ⟨hready, hsame, hlast, houtput, hfits⟩ := hstep.emits ih.ready ih.pass
    refine ⟨hready, ih.sameProcessor.trans hsame, hlast, ?_, ?_⟩
    · rw [houtput, ih.output, List.flatMap_append, List.flatMap_singleton, List.append_assoc]
    · -- the processor is still the one from before the run
      rw [ih.sameProcessor.processor] at hfits
      intro e' he'
      rcases List.mem_append.mp he' with hmem | hmem
      · exact ih.fits e' hmem
      · obtain rfl := List.mem_singleton.mp hmem
        exact hfits

/-- **The output of the last pass is what its lines emit, and every stretch of it without data is a
program of the processor that the command line selects, if and only if no `exd` for the LR35902 is in
it.** -/
theorem pass_disassembles {envArgs args : List Text} {events : List Options.OptionsEvent} {o : Options}
    (hstart : (do Options.start envArgs args; Options.runEvents events).exec {} = (some (), o))
    {s : AsmState n m} {emitted : List StepOutput} {y : Options × AsmState n m}
    (hrun : ProgramRun (o, s) emitted y) (hpass : s.pass = lastPass) :
    y.2.output = s.output ++ emitted.flatMap StepOutput.bytes ∧
    ∀ stretch, stretch <:+: emitted → (∀ e ∈ stretch, e.isData = false) →
      (Z80Cpu.disassembles o.processor (stretch.flatMap StepOutput.bytes) = true ↔
        StepOutput.sharpExd ∉ stretch) := by
  have hready : o.Ready := by
    have hreached : Ensures (do Options.start envArgs args; Options.runEvents events) {} fun _ t => t.Ready :=
      (Options.ensures_start envArgs args).bind fun _ _ hs =>
        (Options.ensures_runEvents events hs).mono fun _ _ ht => ht.1
    exact hreached () o hstart
  obtain ⟨-, -, -, houtput, hfits⟩ := hrun.emits hready hpass
  refine ⟨houtput, fun stretch hstretch hdata => ?_⟩
  exact StepOutput.disassembles_iff (fun e he => hfits e (hstretch.subset he)) hdata

/-- Behind `--zxnext` on the command line and `OPT reset` in the source. -/
def exampleReset : Options where
  systemSyntax := { isNextEnabled := 1 }
  nextWasInitialized := true

/-- Behind the instruction of the line. -/
def exampleBehind : AsmState 0 0 :=
  (AsmProgram.getOpCode exampleReset.instructionOptions true "exd".toList).final AsmProgram.exampleLine

/-- What the instruction and a byte of data behind it emit. -/
def exampleEmitted : List StepOutput := [.code [0xEB], .data [0xFF]]

set_option maxRecDepth 4000 in
theorem pass_disassembles_exd :
    (Emission.run exampleBehind.toEmitState (.byte 0xFF)).output
      = AsmProgram.exampleLine.output ++ exampleEmitted.flatMap StepOutput.bytes ∧
    ∀ stretch, stretch <:+: exampleEmitted → (∀ e ∈ stretch, e.isData = false) →
      (Z80Cpu.disassembles exampleReset.processor (stretch.flatMap StepOutput.bytes) = true ↔
        StepOutput.sharpExd ∉ stretch) := by
  have hstart : (do
      Options.start [] ["--zxnext".toList, "a.asm".toList]
      Options.runEvents [.initPass, .opt " reset".toList]).exec {} = (some (), exampleReset) := by decide
  have hexd : ¬IsSharpExd exampleReset.instructionOptions AsmProgram.exampleLine.lp := by decide
  have hadded : AsmProgram.exampleLine.added exampleBehind = [0xEB] := by decide
  have hfirst := ProgramRun.refl.tail (.instruction "exd".toList (t := exampleBehind) rfl hexd)
  rw [hadded] at hfirst
  exact pass_disassembles hstart (hfirst.tail (.data (.byte 0xFF) exampleReset exampleBehind)) rfl

end Sjasmplus
