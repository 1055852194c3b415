import Sjasmplus.LoadCode
import Sjasmplus.MachineCode
import Sjasmplus.Movement
import Sjasmplus.OpCodeTable

/-!
# The code of a line

A line with an instruction emits complete instructions of its processor, whatever its text is and in
every state of the assembler (`getOpCode_emitsCode`), which a disassembler reads back.

The exception is `exd` on the LR35902, which emits an opcode that this processor does not have.
-/

namespace Sjasmplus

open Parsing ParseFn Program
open Codec (Reads Readable)
open Z80Cpu (Processor IsCode instruction i8080Instruction sharpInstruction)

variable {n m : Nat}

/-! ### Emitted code -/

/-- Sequences of bytes that may be put together. -/
class Sequential (code : List Byte → Prop) : Prop where
  nil : code []
  append : ∀ {bytes bytes'}, code bytes → code bytes' → code (bytes ++ bytes')

instance (processor : Processor) : Sequential (IsCode processor) where
  nil := Z80Cpu.isCode_nil processor
  append := IsCode.append

instance : Sequential fun bytes : List Byte => bytes = [] where
  nil := rfl
  append h h' := by rw [h, h', List.append_nil]

/-- What is emitted from one state to the other is code. -/
def EmitsCode (code : List Byte → Prop) (s t : AsmState n m) : Prop :=
  ∃ bytes, code bytes ∧ EmitState.Emits bytes bytes.length s.toEmitState t.toEmitState

namespace EmitsCode

variable {code : List Byte → Prop} {s t u : AsmState n m}

/-- What the last pass adds to the output. -/
theorem output (h : EmitsCode code s t) (hpass : s.pass = lastPass) :
    ∃ bytes, code bytes ∧ t.output = s.output ++ bytes := by
  obtain ⟨bytes, hcode, hbytes⟩ := h
  exact ⟨bytes, hcode, by simpa [hpass] using hbytes.output⟩

variable [Sequential code]

theorem of_nothing (h : EmitState.Emits [] 0 s.toEmitState t.toEmitState) : EmitsCode code s t :=
  ⟨[], Sequential.nil, h⟩

theorem refl (s : AsmState n m) : EmitsCode code s s := of_nothing (.nothing rfl rfl rfl rfl)

theorem trans (h : EmitsCode code s t) (h' : EmitsCode code t u) : EmitsCode code s u := by
  obtain ⟨bytes, hcode, hbytes⟩ := h
  obtain ⟨bytes', hcode', hbytes'⟩ := h'
  refine ⟨bytes ++ bytes', Sequential.append hcode hcode', ?_⟩
  rw [List.length_append, Nat.cast_add]
  exact hbytes.trans hbytes' (Int.natCast_nonneg _)

instance : Std.Refl (EmitsCode (n := n) (m := m) code) := ⟨refl⟩

instance : IsTrans (AsmState n m) (EmitsCode code) := ⟨fun _ _ _ => trans⟩

/-- Reading the source and evaluating emit nothing. -/
instance : AsmState.ReadingKeeps (EmitsCode (n := n) (m := m) code) where
  of_fixedPart s t h := by
    simp only [AsmState.fixedPart, Prod.mk.injEq] at h
    apply of_nothing
    rw [h.1]
    exact .nothing rfl rfl rfl rfl
  log _ _ := of_nothing (.nothing rfl rfl rfl rfl)
  noteLookup s e := by
    apply of_nothing
    rw [AsmState.toEmitState_noteLookup]
    exact .nothing rfl rfl rfl rfl
  prepareLine s := of_nothing (EmitState.emits_prepareLine s.toEmitState)

end EmitsCode

/-! ### Bytes and arguments -/

namespace EmitState

/-- Bytes that are emitted one by one. -/
theorem emits_bytes (bytes : List Byte) (s : EmitState n m) :
    Emits bytes bytes.length s (bytes.foldl (fun s byte => s.emitByteNoListing byte false) s) := by
  induction bytes generalizing s with
  | nil => exact .nothing rfl rfl rfl rfl
  | cons byte bytes ih =>
    have h := (emits_emitByteNoListing byte false s).trans (ih _) (Int.natCast_nonneg _)
    rw [List.length_cons, Nat.cast_succ, Int.add_comm]
    exact h

end EmitState

namespace OpCode

open AsmProgram

section

variable {c : InstructionContext} {code : List Byte → Prop}

theorem keeps_emitCode {bytes : List Byte} (h : code bytes) :
    Keeps (EmitsCode (n := n) (m := m) code) (emitCode bytes) :=
  Keeps.modify fun s => ⟨bytes, h, EmitState.emits_bytes bytes s.toEmitState⟩

/-- Reading operands emits nothing. -/
theorem keeps_operands [Sequential code] {α : Type} {reader : InstructionEnv → Reader α} :
    Keeps (EmitsCode (n := n) (m := m) code) (operands c reader) :=
  .get_bind fun _ => evaluates_read

/-- What operands read is what their reader yields. -/
theorem ensures_operands {α : Type} {reader : InstructionEnv → Reader α} {Q : α → Prop}
    (h : ∀ env, env.toInstructionOptions = c.toInstructionOptions → Yields (reader env) Q)
    (s : AsmState n m) : Ensures (operands c reader) s fun result _ => ∀ a, result = some a → Q a := by
  intro result t hexec a ha
  obtain ⟨hval, -⟩ := Prod.mk.inj hexec
  exact h (c.env s) rfl s.lp a ((Option.some.inj hval).trans ha)

theorem keeps_emitBytes [Sequential code] {e : List Int} (h : code (Z80.emitted e)) :
    Keeps (EmitsCode (n := n) (m := m) code) (emitBytes c e) :=
  .ite (.bind evaluates_error fun _ => evaluates_modify fun _ => rfl) (keeps_emitCode h)

end

/-! ### Functions of the table -/

/-- The function emits code of the processor of the options. -/
def Emitting (o : InstructionOptions) (f : OpCode n m) : Prop :=
  ∀ c : InstructionContext, c.toInstructionOptions = o → Keeps (EmitsCode (IsCode o.processor)) (f c)

section

variable {o : InstructionOptions}

/-- An instruction without operands. -/
theorem emitting_bytes {code : List Byte} (h : IsCode o.processor code) :
    Emitting o (bytes code : OpCode n m) :=
  fun _ _ => keeps_emitCode h

section

variable {argument : InstructionEnv → Reader (Option (List Int))}
  (h : ∀ env, env.toInstructionOptions = o → Yields (argument env) (Z80.LegalOption env))

include h

theorem keeps_emitArgument {c : InstructionContext} (hc : c.toInstructionOptions = o) :
    Keeps (EmitsCode (n := n) (m := m) (IsCode o.processor)) (emitArgument c argument) := by
  subst hc
  have hlegal : ∀ env, env.toInstructionOptions = c.toInstructionOptions → Yields (argument env)
      fun result => ∀ e, result = some e → IsCode c.processor (Z80.emitted e) := by
    intro env henv p result hval e he
    have hcode := h env henv p result hval e he
    rwa [Z80.Legal, henv] at hcode
  refine Ensures.keeps_bind keeps_operands (ensures_operands hlegal) fun result hresult => ?_
  rcases result with - | - | e
  · exact .pure _
  · exact .pure _
  · exact .bind (keeps_emitBytes (hresult _ rfl e rfl)) fun _ => .pure _

/-- Every argument of the loop is emitted as code. -/
theorem keeps_argumentsFuel {c : InstructionContext} (hc : c.toInstructionOptions = o)
    (delimiter : InstructionEnv → Reader Bool) (fuel : Nat) :
    Keeps (EmitsCode (n := n) (m := m) (IsCode o.processor)) (argumentsFuel c delimiter argument fuel) := by
  induction fuel with
  | zero => exact .pure _
  | succ fuel ih =>
    refine .bind (keeps_emitArgument h hc) fun found => .ite ?_ (.pure _)
    refine .bind keeps_operands fun result => ?_
    match result with
    | some true => exact ih
    | some false => exact .pure _
    | none => exact .pure _

theorem emitting_once : Emitting o (once argument : OpCode n m) :=
  fun _ hc => .bind (keeps_emitArgument h hc) fun _ => .pure _

/-- Arguments behind each other emit the codes of all of them. -/
theorem emitting_arguments (delimiter : InstructionEnv → Reader Bool) :
    Emitting o (arguments delimiter argument : OpCode n m) :=
  fun _ hc => .get_bind fun _ => keeps_argumentsFuel h hc delimiter _

end

section

variable {argument : InstructionEnv → Reader (List Int)}
  (h : ∀ env, env.toInstructionOptions = o → Yields (argument env) (Z80.Legal env))

include h

theorem emitting_multi : Emitting o (multiArguments argument : OpCode n m) :=
  emitting_arguments (fun env henv => Z80.Yields.legal_map (h env henv)) _

theorem emitting_relaxed : Emitting o (relaxedArguments argument : OpCode n m) :=
  emitting_arguments (fun env henv => Z80.Yields.legal_map (h env henv)) _

theorem emitting_oneArgument : Emitting o (once fun env => some <$> argument env : OpCode n m) :=
  emitting_once fun env henv => Z80.Yields.legal_map (h env henv)

end

/-! ### The byte of `STOP` -/

theorem getByteNoMem_succeeds (env : InstructionEnv) (signedCheck : Bool) :
    Succeeds (Z80.getByteNoMem env signedCheck) := by
  -- a bad value is reported and then read as one, so that the reader never fails
  have hreport : ∀ l (v : Aint), Succeeds (do ParseFn.report l; pure v : Reader Aint) := fun l v =>
    Succeeds.bind (fun _ => ⟨(), rfl⟩) fun _ => Succeeds.pure v
  have hvalue : ∀ check, Succeeds (Z80.getValue env check) := by
    intro check
    apply Succeeds.bind fun _ => ⟨_, rfl⟩
    intro val
    cases val with
    | none => exact hreport _ _
    | some val => exact hreport _ _
  have hnoMem : ∀ check, Succeeds (Z80.getValueNoMem env check) := by
    intro check
    refine Succeeds.bind (fun _ => ⟨_, rfl⟩) fun oldP => Succeeds.bind (fun _ => ⟨_, rfl⟩) ?_
    rintro ⟨result, val⟩
    match result with
    | 0 | 1 | 2 | _ + 3 => exact hreport _ _
  apply Succeeds.ite
  · exact Succeeds.bind (hvalue _) fun _ => Succeeds.pure _
  · exact Succeeds.bind (hnoMem _) fun _ => Succeeds.pure _

theorem stopByte_succeeds (env : InstructionEnv) : Succeeds (Z80.stopByte env) :=
  Succeeds.bind (fun _ => ⟨_, rfl⟩) fun _ => Succeeds.bind (fun _ => ⟨_, rfl⟩) fun _ =>
    Succeeds.ite (Succeeds.pure _) (Succeeds.bind (getByteNoMem_succeeds env false) fun _ => Succeeds.pure _)

/-- `STOP` of the LR35902 has one byte behind it, which need not be written. -/
theorem emitting_stop (hLR : o.isLR35902 = true) : Emitting o (opCode_LR35902_STOP : OpCode n m) := by
  rintro c rfl s
  -- the byte is read in the state behind the opcode
  have hopcode : EmitState.Emits [0x10] 1 s.toEmitState
      ((emitCode [0x10]).final s).toEmitState := EmitState.emits_bytes [0x10] s.toEmitState
  generalize hu : (emitCode [0x10]).final s = u at hopcode
  obtain ⟨e, he⟩ := stopByte_succeeds (c.env u) u.lp
  obtain ⟨byte, hbyte, hhead, hcode⟩ := Z80.stopByte_legal hLR u.lp e he
  have hread : EmitsCode (fun bytes => bytes = []) u ((operands c Z80.stopByte).final u) := keeps_operands u
  generalize hv : (operands c Z80.stopByte).final u = v at hread
  obtain ⟨_, rfl, hnothing⟩ := hread
  have hbytes := EmitState.emits_bytes [byte] v.toEmitState
  have hemit : (emitCode [0x10]).exec s = (some ⟨⟩, u) := by
    rw [← hu]
    rfl
  have hfinal : (opCode_LR35902_STOP c).final s
      = { v with toEmitState := [byte].foldl (fun s byte => s.emitByteNoListing byte false) v.toEmitState } := by
    have hsome : (operands c Z80.stopByte).exec u = (some (some e), v) := by
      rw [← hv, ← he]
      rfl
    show (emitCode [0x10] >>= fun _ => operands c Z80.stopByte >>= _).final s = _
    rw [final_bind_of_some hemit, final_bind_of_some hsome]
    show (emitBytes c e).final v = _
    rw [emitBytes, if_neg hhead, hbyte]
    rfl
  rw [hfinal]
  refine ⟨[0x10, byte], hcode, ?_⟩
  exact (hopcode.trans_nothing hnothing).trans hbytes (by simp)

/-! ### The tables -/

/-- Code that all processors have. -/
theorem isCode_all {processor : Processor} {code : List Byte}
    (h : ∀ next, Readable (instruction next) code) (hi : Readable i8080Instruction code)
    (hs : Readable sharpInstruction code) : IsCode processor code := by
  cases processor with
  | i8080 => exact hi
  | lr35902 => exact hs
  | z80 next => exact h next

theorem isCode_z80 (hI : o.isI8080 = false) (hLR : o.isLR35902 = false) {code : List Byte}
    (h : ∀ next, Readable (instruction next) code) : IsCode o.processor code := by
  simp [InstructionOptions.processor, hI, hLR]
  exact h _

theorem isCode_sharp (hLR : o.isLR35902 = true) {code : List Byte} (h : Readable sharpInstruction code) :
    IsCode o.processor code := by
  simp [InstructionOptions.processor, hLR]
  exact h

/-- An instruction without operands that all processors have. -/
theorem emitting_all {code : List Byte} (h : ∀ next, Readable (instruction next) code)
    (hi : Readable i8080Instruction code) (hs : Readable sharpInstruction code) :
    Emitting o (bytes code : OpCode n m) :=
  emitting_bytes (isCode_all h hi hs)

theorem keeps_emitEach {c : InstructionContext} {code : List Byte → Prop} [Sequential code]
    {es : List (List Int)} (h : ∀ e ∈ es, code (Z80.emitted e)) :
    Keeps (EmitsCode (n := n) (m := m) code) (emitEach es c) := by
  induction es with
  | nil => exact .pure _
  | cons e es ih =>
    obtain ⟨he, hes⟩ := List.forall_mem_cons.mp h
    exact .bind (keeps_emitBytes he) fun _ => ih hes

theorem emitting_pop : Emitting o (opCode_POP : OpCode n m) := by
  have hreverse : Emitting o (opCode_POPreverse : OpCode n m) := by
    rintro c rfl
    have hlegal : ∀ env, env.toInstructionOptions = c.toInstructionOptions → Yields (Z80.popReverse env)
        fun es => ∀ e ∈ es, IsCode c.processor (Z80.emitted e) := by
      intro env henv p es hval e he
      have hcode := Z80.popReverse_legal p es hval e he
      rwa [Z80.Legal, henv] at hcode
    refine Ensures.keeps_bind keeps_operands (ensures_operands hlegal) fun result hresult => ?_
    cases result with
    | none => exact .pure _
    | some es => exact keeps_emitEach (hresult es rfl)
  have hnormal : Emitting o (opCode_POPnormal : OpCode n m) :=
    emitting_relaxed fun _ _ => Z80.popArgument_legal
  intro c hc
  rw [opCode_POP]
  split_ifs
  · exact hreverse c hc
  · exact hnormal c hc

/-- The entry emits code of the processor, unless it is `exd` on the LR35902. -/
def EntryEmits (o : InstructionOptions) (entry : String × OpCode n m) : Prop :=
  ¬(o.isLR35902 = true ∧ entry.1 = "exd") → Emitting o entry.2

theorem forall_mem_unless {α : Type} {b : Bool} {l : List α} {P : α → Prop}
    (h : b = false → ∀ x ∈ l, P x) : ∀ x ∈ (if b then [] else l), P x := by
  cases b with
  | true => simp
  | false => exact h rfl

/-- One entry, whose name does not matter. -/
theorem forall_mem_entry {name : String} {f : OpCode n m} {l : List (String × OpCode n m)}
    (hf : Emitting o f) (hl : ∀ entry ∈ l, EntryEmits o entry) :
    ∀ entry ∈ (name, f) :: l, EntryEmits o entry :=
  List.forall_mem_cons.mpr ⟨fun _ => hf, hl⟩

theorem emitting_alu {base : Int}
    (hbase : base ∈ Z80.aluBases) : Emitting o (simpleAlu base : OpCode n m) :=
  emitting_multi fun _ _ => Z80.simpleAlu_legal hbase

theorem emitting_pairAlu {base : Int} (hbase : base ∈ Z80.aluBases) (nonMultiArgComma : Bool)
    (name : String)
    {pairs : InstructionEnv → Z80.Z80Reg → Z80.Z80Reg → Reader (List Int)}
    (hpairs : ∀ env, env.toInstructionOptions = o → ∀ reg reg2, Z80.hasRegister env reg = true →
      Yields (pairs env reg reg2) (Z80.Legal env)) :
    Emitting o (pairAlu base nonMultiArgComma name pairs : OpCode n m) :=
  emitting_arguments (fun env henv => Z80.pairArgument_legal hbase nonMultiArgComma name (hpairs env henv)) _

/-- The instructions that all processors share, entry by entry. -/
theorem shared_emits (hc : o.Consistent) :
    ∀ entry ∈ (sharedInstructions o.isLR35902 : List (String × OpCode n m)), EntryEmits o entry := by
  -- an entry without an argument is read by the decoders of all processors
  have hplain : ∀ {code : List Byte}, (∀ next, Readable (instruction next) code) →
      Readable i8080Instruction code → Readable sharpInstruction code →
      Emitting o (bytes code : OpCode n m) := fun h hi hs => emitting_all h hi hs
  have hadc : Emitting o (opCode_ADC : OpCode n m) := by
    apply emitting_pairAlu (by decide)
    exact fun _ _ _ _ _ => Z80.adcPairs_legal _ _
  have hadd : Emitting o (opCode_ADD : OpCode n m) := by
    apply emitting_pairAlu (by decide)
    rintro env rfl
    exact fun _ _ hreg => Z80.addPairs_legal hc _ _ hreg
  have hsbc : Emitting o (opCode_SBC : OpCode n m) := by
    apply emitting_pairAlu (by decide)
    exact fun _ _ _ _ _ => Z80.sbcPairs_legal _ _
  have hsub : Emitting o (opCode_SUB : OpCode n m) := by
    apply emitting_pairAlu (by decide)
    exact fun _ _ _ _ _ => Z80.subPairs_legal _ _
  have hone : ∀ {name : String} {f : OpCode n m}, Emitting o f →
      ∀ entry ∈ [(name, f)], EntryEmits o entry := fun hf => forall_mem_entry hf (by simp)
  unfold sharedInstructions
  simp only [List.forall_mem_append, List.forall_mem_cons, List.not_mem_nil, IsEmpty.forall_iff,
    implies_true, and_true, and_assoc]
  -- the entries in the order of the table, those with an argument by name below
  refine ⟨fun _ => hadc, fun _ => hadd, fun _ => emitting_alu (by decide), ?call, ?ccf,
    fun _ => emitting_alu (by decide), ?cpl, ?daa, ?dec, ?di, ?ei, ?ex, ?exd, ?halt, ?io, ?inc, ?jp, ?ld,
    ?nop, fun _ => emitting_alu (by decide), ?out, fun _ => emitting_pop, ?push, ?ret, ?rla, ?rlca, ?rra,
    ?rrca, ?rst, fun _ => hsbc, ?scf, fun _ => hsub, fun _ => emitting_alu (by decide)⟩
  case ccf | cpl | daa | di | ei | halt | nop | rla | rlca | rra | rrca | scf =>
    exact fun _ => hplain (fun _ => Reads.readable fun _ => rfl) (Reads.readable fun _ => rfl)
      (Reads.readable fun _ => rfl)
  -- `EXD` is `0xEB`, which the LR35902 does not have
  case exd =>
    intro hexcept
    have hLR : o.isLR35902 = false := by simpa using hexcept
    apply emitting_bytes
    cases hI : o.isI8080 with
    | true =>
      simp [InstructionOptions.processor, hI, hLR]
      exact Reads.readable fun _ => rfl
    | false => exact isCode_z80 hI hLR fun _ => Reads.readable fun _ => rfl
  case call => exact fun _ => emitting_multi fun _ _ => Z80.call_legal
  case dec => exact fun _ => emitting_relaxed fun _ _ => Z80.decInc_legal (Or.inr ⟨rfl, rfl⟩)
  case inc => exact fun _ => emitting_relaxed fun _ _ => Z80.decInc_legal (Or.inl ⟨rfl, rfl⟩)
  -- three entries are left out of the table of the LR35902
  case ex =>
    apply forall_mem_unless
    intro hLR
    apply hone
    apply emitting_oneArgument
    rintro env rfl
    exact Z80.ex_legal hLR
  case io =>
    apply forall_mem_unless
    intro hLR
    apply hone
    apply emitting_multi
    rintro env rfl
    exact Z80.inArgument_legal hLR
  case out =>
    apply forall_mem_unless
    intro hLR
    apply hone
    apply emitting_multi
    rintro env rfl
    exact Z80.outArgument_legal hLR
  case jp =>
    intro _
    apply emitting_multi
    rintro env rfl
    exact Z80.jp_legal hc
  case ld => exact fun _ => emitting_multi fun _ _ => Z80.ld_legal
  case push =>
    intro _
    apply emitting_relaxed
    rintro env rfl
    exact Z80.pushArgument_legal hc
  case ret => exact fun _ => emitting_oneArgument fun _ _ => Z80.ret_legal
  case rst => exact fun _ => emitting_arguments (fun _ _ => Z80.rst_legal) _

theorem bit_emits (hI : o.isI8080 = false) :
    ∀ entry ∈ (bitInstructions : List (String × OpCode n m)), Emitting o entry.2 := by
  have hmulti : ∀ argument : InstructionEnv → Reader (List Int),
      (∀ env, env.isI8080 = false → Yields (argument env) (Z80.Legal env)) →
      Emitting o (multiArguments argument : OpCode n m) := by
    intro argument h
    apply emitting_multi
    rintro env rfl
    exact h env hI
  unfold bitInstructions
  simp only [List.forall_mem_cons, List.not_mem_nil, IsEmpty.forall_iff, implies_true, and_true]
  -- the instructions behind `0xCB`, and the relative jump
  refine ⟨?bit, ?jr, ?res, ?rl, ?rlc, ?rr, ?rrc, ?set, ?sla, ?sra, ?srl⟩
  case bit | res | set => exact hmulti _ fun _ hI => Z80.bitArgument_legal hI (by decide) _
  case rlc | rrc => exact hmulti _ fun _ hI => Z80.cbArgument_legal hI (by decide)
  case rl => exact hmulti _ fun _ => Z80.rl_legal
  case rr => exact hmulti _ fun _ => Z80.rr_legal
  case sla => exact hmulti _ fun _ => Z80.sla_legal
  case sra => exact hmulti _ fun _ => Z80.sra_legal
  case srl => exact hmulti _ fun _ => Z80.srl_legal
  case jr =>
    apply emitting_arguments
    rintro env rfl
    exact Z80.jr_legal hI

/-- The instructions of the LR35902 only. -/
theorem sharp_emits (hI : o.isI8080 = false) (hLR : o.isLR35902 = true) :
    ∀ entry ∈ (sharpInstructions : List (String × OpCode n m)), Emitting o entry.2 := by
  unfold sharpInstructions
  simp only [List.forall_mem_cons, List.not_mem_nil, IsEmpty.forall_iff, implies_true, and_true]
  refine ⟨?ldd, ?ldh, ?ldi, ?reti, emitting_stop hLR, ?swap⟩
  case ldd =>
    apply emitting_multi
    rintro env rfl
    exact Z80.ldHlStep_legal hLR (Or.inl ⟨rfl, rfl⟩)
  case ldi =>
    apply emitting_multi
    rintro env rfl
    exact Z80.ldHlStep_legal hLR (Or.inr ⟨rfl, rfl⟩)
  case ldh =>
    apply emitting_multi
    rintro env rfl
    exact Z80.ldh_legal hLR
  case reti =>
    exact emitting_bytes (isCode_sharp hLR (Reads.readable fun _ => rfl))
  case swap =>
    -- these are the opcodes of `SLL`
    apply emitting_multi
    rintro env rfl
    exact Z80.sll_legal hI

/-- Those of the Z80. -/
theorem z80_emits (hI : o.isI8080 = false) (hLR : o.isLR35902 = false) :
    ∀ entry ∈ (z80Instructions : List (String × OpCode n m)), Emitting o entry.2 := by
  have hplain : ∀ {code : List Byte}, (∀ next, Readable (instruction next) code) →
      Emitting o (bytes code : OpCode n m) := fun h => emitting_bytes (isCode_z80 hI hLR h)
  have hcpu : ∀ env : InstructionEnv, env.toInstructionOptions = o → Z80.nonZ80CPU env = false := by
    rintro env rfl
    simp [Z80.nonZ80CPU, hI, hLR]
  -- `LDI` and `LDD` have an argument only as fake instructions
  have hstep : ∀ {regular : List Byte} {argument : InstructionEnv → Reader (List Int)},
      (∀ next, Readable (instruction next) regular) →
      (∀ env, env.toInstructionOptions = o → Yields (argument env) (Z80.Legal env)) →
      Emitting o (ldStep regular argument : OpCode n m) := by
    intro regular argument hregular h c hc
    refine .get_bind fun s => .ite ?_ ?_
    · exact hplain hregular c hc
    · exact emitting_multi h c hc
  unfold z80Instructions
  simp only [List.forall_mem_cons, List.not_mem_nil, IsEmpty.forall_iff, implies_true, and_true]
  refine ⟨?cpd, ?cpdr, ?cpi, ?cpir, ?djnz, ?exa, ?exx, ?im, ?ind, ?indr, ?inf, ?ini, ?inir, ?ldd, ?lddr,
    ?ldi, ?ldir, ?mulub, ?muluw, ?neg, ?otdr, ?otir, ?outd, ?outi, ?reti, ?retn, ?rld, ?rrd, ?sli, ?sll⟩
  case djnz => exact emitting_multi fun env henv => Z80.djnz_legal (hcpu env henv)
  case im => exact emitting_oneArgument fun env henv => Z80.im_legal (hcpu env henv)
  case mulub => exact emitting_oneArgument fun env henv => Z80.mulub_legal (hcpu env henv)
  case muluw => exact emitting_oneArgument fun env henv => Z80.muluw_legal (hcpu env henv)
  case ldi =>
    exact hstep (fun _ => Reads.readable fun _ => rfl) fun env henv => Z80.ldi_legal (hcpu env henv)
  case ldd =>
    exact hstep (fun _ => Reads.readable fun _ => rfl) fun env henv => Z80.ldd_legal (hcpu env henv)
  case sli | sll =>
    apply emitting_multi
    rintro env rfl
    exact Z80.sll_legal hI
  -- the rest has no argument
  all_goals exact hplain fun _ => Reads.readable fun _ => rfl

/-- Those of the Z80N, where the option enables them. -/
theorem next_emits (hc : o.Consistent) :
    ∀ entry ∈ (nextInstructions : List (String × OpCode n m)), Emitting o entry.2 := by
  -- the handlers of the Z80N read one argument, or none
  have honce : ∀ {argument : InstructionEnv → Reader (Option (List Int))},
      (∀ env : InstructionEnv, env.Consistent → Yields (argument env) (Z80.LegalOption env)) →
      Emitting o (once argument : OpCode n m) := by
    intro argument h
    apply emitting_once
    rintro env rfl
    exact h env hc
  have hplain : ∀ {opcode : Int}, (∀ next, Readable (instruction (next + 1)) (Z80.emitted [0xED, opcode])) →
      Emitting o (nextPlain opcode : OpCode n m) := fun h => honce fun _ hc =>
    Z80.nextOnly_legal fun hnext => Yields.pure (Z80.legal_nextPlain hc hnext h)
  unfold nextInstructions
  simp only [List.forall_mem_cons, List.not_mem_nil, IsEmpty.forall_iff, implies_true, and_true]
  refine ⟨?brlc, ?bsla, ?bsra, ?bsrf, ?bsrl, ?lddrx, ?lddx, ?ldirx, ?ldix, ?ldpirx, ?ldws, ?mirror, ?mul,
    ?nextreg, ?outinb, ?pixelad, ?pixeldn, ?setae, ?swapnib, ?test, ?exitCode, ?breakCode, ?setbrk, ?clrbrk⟩
  case lddrx | lddx | ldirx | ldix | ldpirx | ldws | outinb | setae =>
    exact hplain fun _ => Reads.readable fun _ => rfl
  case brlc | bsla | bsra | bsrf | bsrl =>
    exact honce fun _ hc => Z80.barrelShift_legal hc fun _ => Reads.readable fun _ => rfl
  case mirror | swapnib =>
    exact honce fun _ hc => Z80.onlyA_legal hc _ fun _ => Reads.readable fun _ => rfl
  case pixelad | pixeldn =>
    exact honce fun _ hc => Z80.optionalHl_legal hc fun _ => Reads.readable fun _ => rfl
  case mul => exact honce fun _ => Z80.mul_legal
  case test => exact honce fun _ => Z80.testImm_legal
  case exitCode | breakCode =>
    refine honce fun env hc => Z80.cspectOnly_legal _ _ fun hlevel => Yields.pure ?_
    exact Z80.legal_some (Z80.legal_cspect hc hlevel fun _ => Reads.readable fun _ => rfl)
  case setbrk => exact honce fun _ hc => Z80.breakpoint_legal hc _ (Or.inl rfl)
  case clrbrk => exact honce fun _ hc => Z80.breakpoint_legal hc _ (Or.inr rfl)
  -- `NEXTREG` checks the level of the extensions before it reads anything
  case nextreg =>
    intro c hco
    rw [opCode_Next_NEXTREG]
    split_ifs with hlevel
    · exact evaluates_error
    · apply emitting_arguments _ _ c hco
      rintro env rfl
      have hnext : env.isNextEnabled = c.isNextEnabled := by rw [hco]
      exact Z80.nextreg_legal hc (by omega)

/-- **Every function of the table emits code of the processor**, apart from `exd` on the LR35902. -/
theorem instructions_emit (hc : o.Consistent) (nextWasInitialized : Bool) :
    ∀ entry ∈ (instructions o nextWasInitialized : List (String × OpCode n m)), EntryEmits o entry := by
  unfold instructions
  rw [List.forall_mem_append]
  refine ⟨shared_emits hc, forall_mem_unless fun hI => ?_⟩
  rw [List.forall_mem_append]
  refine ⟨fun entry hentry _ => bit_emits hI entry hentry, ?_⟩
  cases hLR : o.isLR35902 with
  | true => exact fun entry hentry _ => sharp_emits hI hLR entry hentry
  | false =>
    rw [if_neg (by simp), List.forall_mem_append]
    refine ⟨fun entry hentry _ => z80_emits hI hLR entry hentry, ?_⟩
    cases nextWasInitialized with
    | true => exact fun entry hentry _ => next_emits hc entry hentry
    | false => simp

end

end OpCode

/-! ### Lines -/

/-- `exd`, which the table of the LR35902 has too. -/
def IsSharpExd (o : InstructionOptions) (p : Text) : Prop :=
  o.isLR35902 = true ∧ ∃ name ∈ CFunctionTable.keys "exd",
    (getinstr o.caseInsensitiveInstructions p).1 = some name

instance (o : InstructionOptions) (p : Text) : Decidable (IsSharpExd o p) :=
  inferInstanceAs (Decidable (_ ∧ _))

namespace AsmProgram

section

variable {o : InstructionOptions} {s : AsmState n m}

/-- The state in which the function of an instruction runs. -/
theorem final_getOpCode (nextWasInitialized : Bool) (line : Text) (s : AsmState n m) :
    (getOpCode o nextWasInitialized line).final s = final
      (match (getinstr o.caseInsensitiveInstructions s.lp).1.bind
          (OpCode.opCodeTable o nextWasInitialized).zoek with
        | some f => f ⟨o, s.lp, line⟩
        | none => do
          error "Unrecognized instruction" (some s.lp)
          modify fun s => { s with lp := [] })
      { s with lp := (getinstr o.caseInsensitiveInstructions s.lp).2 } := rfl

/-- **An instruction emits complete instructions of its processor**, whatever its text is. -/
theorem getOpCode_emitsCode (hc : o.Consistent) (nextWasInitialized : Bool) (line : Text)
    (hexd : ¬IsSharpExd o s.lp) :
    EmitsCode (IsCode o.processor) s ((getOpCode o nextWasInitialized line).final s) := by
  have hname : EmitsCode (IsCode o.processor) s
      { s with lp := (getinstr o.caseInsensitiveInstructions s.lp).2 } :=
    EmitsCode.of_nothing (.nothing rfl rfl rfl rfl)
  rw [final_getOpCode]
  apply hname.trans
  -- an unknown name is an error and emits nothing
  cases hfound : (getinstr o.caseInsensitiveInstructions s.lp).1.bind
      (OpCode.opCodeTable o nextWasInitialized).zoek with
  | none =>
    have herror : Keeps (EmitsCode (n := n) (m := m) (IsCode o.processor)) (do
        error "Unrecognized instruction" (some s.lp)
        modify fun s => { s with lp := [] }) :=
      .bind evaluates_error fun _ => evaluates_modify fun _ => rfl
    exact herror _
  | some f =>
    obtain ⟨name, hinstr, hzoek⟩ := Option.bind_eq_some_iff.mp hfound
    obtain ⟨entry, hentry, rfl, hkey⟩ := (OpCode.zoek_opCodeTable o nextWasInitialized name f).mp hzoek
    apply OpCode.instructions_emit hc nextWasInitialized entry hentry _ ⟨o, s.lp, line⟩ rfl
    -- the one entry that is left out is excluded by the text of the line
    rintro ⟨hLR, hentryName⟩
    rw [hentryName] at hkey
    exact hexd ⟨hLR, name, hkey, hinstr⟩

/-- `exd` on the LR35902 emits an opcode that the processor does not have. -/
theorem emits_getOpCode_exd (nextWasInitialized : Bool) (line : Text) (hexd : IsSharpExd o s.lp) :
    EmitState.Emits [0xEB] 1 s.toEmitState
      ((getOpCode o nextWasInitialized line).final s).toEmitState := by
  obtain ⟨hLR, name, hname, hinstr⟩ := hexd
  have hfound : (OpCode.opCodeTable o nextWasInitialized : CFunctionTable (OpCode n m)).zoek name
      = some OpCode.opCode_EXD := by
    rw [OpCode.zoek_opCodeTable]
    refine ⟨("exd", OpCode.opCode_EXD), ?_, rfl, hname⟩
    simp [OpCode.instructions, OpCode.sharedInstructions]
  rw [final_getOpCode, hinstr]
  simp only [Option.bind_some, hfound]
  exact EmitState.emits_bytes [0xEB] s.toEmitState

theorem output_getOpCode_exd (nextWasInitialized : Bool) (line : Text)
    (hpass : s.pass = lastPass) (hexd : IsSharpExd o s.lp) :
    ((getOpCode o nextWasInitialized line).final s).output = s.output ++ [0xEB] :=
  (emits_getOpCode_exd nextWasInitialized line hexd).output.trans (by rw [if_pos hpass])

/-- In the last pass, `exd` on the LR35902 is the only instruction whose bytes are no code. -/
theorem getOpCode_emitsCode_iff (hc : o.Consistent) (nextWasInitialized : Bool) (line : Text)
    (hpass : s.pass = lastPass) :
    EmitsCode (IsCode o.processor) s ((getOpCode o nextWasInitialized line).final s) ↔
      ¬IsSharpExd o s.lp := by
  refine ⟨fun h hexd => ?_, getOpCode_emitsCode hc nextWasInitialized line⟩
  obtain ⟨bytes, hcode, houtput⟩ := h.output hpass
  rw [output_getOpCode_exd nextWasInitialized line hpass hexd] at houtput
  obtain rfl := List.append_cancel_left houtput
  have hprocessor : o.processor = .lr35902 := by simp [InstructionOptions.processor, hexd.1]
  rw [hprocessor] at hcode
  exact absurd (IsCode.disassembles hcode) (by decide)

end

/-- The options without any on the command line. -/
def exampleOptions : InstructionOptions where
  isI8080 := false
  isLR35902 := false
  fakeEnabled := true
  fakeWarning := false
  caseInsensitiveInstructions := false
  is_M_Memory := false
  memoryBrackets := 0
  isNextEnabled := 0
  isReversePOP := false
  isMultiArgPlainComma := true

/-- In the last pass, at an instruction. -/
def exampleLine : AsmState 0 0 := { AsmState.start 0 0 with pass := lastPass, lp := "exd".toList }

theorem getOpCode_emitsCode_exd :
    EmitsCode (IsCode .lr35902) exampleLine
        ((getOpCode { exampleOptions with isLR35902 := true } false "exd".toList).final exampleLine) ↔
      ¬IsSharpExd { exampleOptions with isLR35902 := true } exampleLine.lp := by
  have hc : InstructionOptions.Consistent { exampleOptions with isLR35902 := true } :=
    ⟨fun h => absurd h (by decide), fun _ => rfl⟩
  exact getOpCode_emitsCode_iff hc false "exd".toList rfl

end AsmProgram

end Sjasmplus
