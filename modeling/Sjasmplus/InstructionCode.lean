import Sjasmplus.Lib.RelatedProcessors
import Sjasmplus.MachineInstructions

/-!
# The code of one argument

`Legal env e` says that the numbers `e`, which an argument writes, are complete instructions of the
processor in use.  Every reader of an argument yields such numbers, whatever the text is, and also where
it reports an error.

* `getRegister_has` — an operand is a register that the processor has;
* `Legal` of the arguments of the arithmetic, of jumps, of the stack and of ports.
-/

namespace Sjasmplus

open Parsing ParseFn
open Codec (Reads Readable)
open Z80Cpu (Processor IsCode instruction i8080Instruction sharpInstruction)

/-! ### Processors -/

namespace InstructionOptions

variable (o : InstructionOptions)

/-- The processor that the options select. -/
def processor : Processor :=
  if o.isLR35902 then .lr35902 else if o.isI8080 then .i8080 else .z80 o.isNextEnabled

/-- The options select one processor, and only the Z80 has extensions. -/
structure Consistent : Prop where
  exclusive : o.isI8080 = true → o.isLR35902 = false
  extensions : o.isI8080 = true ∨ o.isLR35902 = true → o.isNextEnabled = 0

end InstructionOptions

namespace Z80

section

variable (env : InstructionEnv)

/-- The numbers are complete instructions. -/
def Legal (e : List Int) : Prop := IsCode env.processor (emitted e)

/-- The registers of the processor, as operands. -/
def hasRegister : Z80Reg → Bool
  | .i | .r | .ix | .iy | .memIX | .memIY | .ixh | .ixl | .iyh | .iyl => !nonZ80CPU env
  | .memHLI | .memHLD => env.isLR35902
  | _ => true

end

/-! ### Numbers and bytes -/

attribute [local simp] emitted bytesEndMarker instructionStartMarker

/-- A byte is no marker. -/
@[simp] theorem lowByte_ne_neg (v : Aint) (n : Nat) : lowByte v ≠ Int.negSucc n := by
  intro h
  cases h

@[simp] theorem lowByte_ne_end (v : Aint) : ¬lowByte v = -1 := lowByte_ne_neg v 0

@[simp] theorem lowByte_ne_start (v : Aint) : ¬lowByte v = -2 := lowByte_ne_neg v 1

@[simp] theorem highByte_ne_end (v : Aint) : ¬highByte v = -1 := by
  intro h
  cases h

@[simp] theorem highByte_ne_start (v : Aint) : ¬highByte v = -2 := by
  intro h
  cases h

/-- A missing displacement is zero. -/
theorem IsByte.getD {d : Option Int} (h : IsByte d) : ∃ v, d.getD 0 = lowByte v := by
  cases d with
  | none => exact ⟨0, rfl⟩
  | some x => exact h x rfl

theorem IsByte.or {d d' : Option Int} (h : IsByte d) (h' : IsByte d') : IsByte (d.or d') := by
  cases d with
  | none => exact h'
  | some x => exact h

/-! ### Registers -/

section

variable {env : InstructionEnv}

theorem r8_has (oneLetter : Nat) : hasRegister env (r8 env oneLetter) = true := by
  have hcpu : ∀ reg, hasRegister env reg = !nonZ80CPU env →
      hasRegister env (if nonZ80CPU env then .unk else reg) = true := by
    intro reg hreg
    cases h : nonZ80CPU env with
    | true => rfl
    | false => rw [if_neg (by simp), hreg, h]; rfl
  rw [r8]
  split
  any_goals rfl
  · exact hcpu .i rfl
  · split <;> rfl
  · exact hcpu .r rfl

/-- The table of names holds registers of the processor only. -/
theorem registerNames_has (c : Char) :
    ∀ name ∈ registerNames env c, hasRegister env name.2 = true := by
  unfold registerNames
  cases hcpu : nonZ80CPU env <;> split <;> simp [hcpu, hasRegister]

theorem longRegister_has {p q : Text} {reg : Z80Reg} (h : longRegister env p = some (reg, q)) :
    hasRegister env reg = true := by
  cases p with
  | nil => exact absurd h (by simp [longRegister])
  | cons c p =>
    simp only [longRegister, Option.map_eq_some_iff] at h
    obtain ⟨name, hfind, hname⟩ := h
    obtain ⟨rfl, -⟩ := Prod.mk.inj hname
    obtain ⟨entry, hentry, rfl⟩ := List.mem_map.mp (List.mem_of_find?_eq_some hfind)
    exact registerNames_has _ entry hentry

theorem has_r16High {reg : Z80Reg} (h : hasRegister env reg = true) :
    hasRegister env (getRegister_r16High reg) = true := by
  cases reg <;> first | rfl | exact h

theorem has_r16Low {reg : Z80Reg} (h : hasRegister env reg = true) :
    hasRegister env (getRegister_r16Low reg) = true := by
  cases reg <;> first | rfl | exact h

theorem has_inBrackets {reg : Z80Reg} (h : hasRegister env reg = true) :
    hasRegister env (inBrackets reg) = true := by
  cases reg <;> first | rfl | exact h

/-- What a reader of operands returns: a register that the processor has, with a byte. -/
def IsOperand (env : InstructionEnv) (result : Z80Reg × Option Int) : Prop :=
  hasRegister env result.1 = true ∧ IsByte result.2

/-- A pair in brackets, with the sign of a step behind it. -/
theorem memoryStep_has {reg : Z80Reg} (h : hasRegister env reg = true) :
    Yields (memoryStep env reg) fun memReg => hasRegister env memReg = true := by
  intro p memReg hval
  simp only [memoryStep, scan_apply, Option.some.injEq] at hval
  split_ifs at hval with hLR hplus hminus
  · exact hval ▸ hLR.1
  · exact hval ▸ hLR.1
  · exact hval ▸ h
  · exact hval ▸ h

theorem registerAt_has {inner : Reader (Z80Reg × Option Int)} (hinner : Yields inner (IsOperand env))
    (pp p : Text) : Yields (registerAt env inner pp p) (IsOperand env) := by
  have hunk : ∀ {d : Option Int}, IsByte d → IsOperand env (.unk, d) := fun hd => ⟨rfl, hd⟩
  have hletter : ∀ reg, hasRegister env reg = true → Yields (registerLetter pp reg) (IsOperand env) := by
    intro reg hreg
    cases reg <;> exact Yields.after _ fun _ => Yields.pure ⟨hreg, isByte_none⟩
  -- `HIGH` and `LOW` in front of a register, and then memory in brackets
  have hhalf : ∀ half q, (∀ reg, hasRegister env reg = true → hasRegister env (half reg) = true) →
      Yields (registerHalf inner half pp q) (IsOperand env) := fun _ _ hkeeps =>
    Yields.after _ fun _ => Yields.bind hinner fun _ hin =>
      Yields.ite (fun _ => Yields.after _ fun _ => Yields.pure (hunk hin.2)) fun _ =>
        Yields.pure ⟨hkeeps _ hin.1, hin.2⟩
  have hclose : ∀ c reg {d}, hasRegister env reg = true → IsByte d →
      Yields (closeMemory c pp reg d) (IsOperand env) := fun _ _ _ hreg hd =>
    Yields.after _ fun _ => Yields.after _ fun _ =>
      Yields.ite (fun _ => Yields.after _ fun _ => Yields.pure ⟨has_inBrackets hreg, hd⟩) fun _ =>
        Yields.after _ fun _ => Yields.pure (hunk hd)
  have hmemory : ∀ c q, Yields (registerMemory env inner c pp q) (IsOperand env) :=
    fun c _ => Yields.after _ fun _ => Yields.bind hinner fun _ hin =>
      Yields.bind (memoryStep_has hin.1) fun reg hreg =>
        Yields.bind (displacement_isByte reg hin.2) fun _ hd => hclose c reg hreg hd
  rw [registerAt]
  -- the order of the source: one letter, the two words, the long names, memory
  refine Yields.ite (fun _ => hletter _ (r8_has _)) fun _ => ?_
  rcases cmphstr p ['h', 'i', 'g', 'h'] with _ | q
  · rcases cmphstr p ['l', 'o', 'w'] with _ | q
    · rcases hname : longRegister env p with _ | ⟨reg, q⟩
      · exact Yields.ite (fun _ => hmemory _ _) fun _ => Yields.ite (fun _ => hmemory _ _) fun _ =>
          Yields.after _ fun _ => Yields.pure (hunk isByte_none)
      · exact Yields.after _ fun _ => Yields.pure ⟨longRegister_has hname, isByte_none⟩
    · exact hhalf _ _ fun _ => has_r16Low
  · exact hhalf _ _ fun _ => has_r16High

/-- **An operand is a register that the processor has.** -/
theorem getRegister_has (env : InstructionEnv) : Yields (getRegister env) (IsOperand env) := by
  have hfuel : ∀ fuel, Yields (getRegisterFuel env fuel) (IsOperand env) := by
    intro fuel
    induction fuel with
    | zero => exact Yields.pure ⟨rfl, isByte_none⟩
    | succ fuel ih =>
      exact Yields.after _ fun _ => Yields.after _ fun _ => Yields.after _ fun _ =>
        registerAt_has ih _ _
  exact fun p => hfuel (p.length + 1) p

/-! ### Instructions of the processors -/

variable {e : List Int}

theorem legal_nil : Legal env [] := Z80Cpu.isCode_nil _

theorem nonZ80CPU_eq_false (h : nonZ80CPU env = false) :
    env.isI8080 = false ∧ env.isLR35902 = false := by
  simpa [nonZ80CPU] using h

/-- Instructions of the Z80. -/
theorem legal_z80 (hcpu : nonZ80CPU env = false)
    (h : ∀ next, Readable (instruction next) (emitted e)) : Legal env e := by
  obtain ⟨hI, hLR⟩ := nonZ80CPU_eq_false hcpu
  simp [Legal, InstructionOptions.processor, hI, hLR]
  exact h env.isNextEnabled

/-- Instructions of the Z80N. -/
theorem legal_next (hc : env.Consistent) (hnext : env.isNextEnabled ≠ 0)
    (h : ∀ next, Readable (instruction (next + 1)) (emitted e)) : Legal env e := by
  have hcpu : env.isI8080 = false ∧ env.isLR35902 = false := by
    constructor
    · exact Bool.eq_false_iff.mpr fun hI => hnext (hc.extensions (Or.inl hI))
    · exact Bool.eq_false_iff.mpr fun hLR => hnext (hc.extensions (Or.inr hLR))
  obtain ⟨next, hlevel⟩ := Nat.exists_eq_succ_of_ne_zero hnext
  simp [Legal, InstructionOptions.processor, hcpu.1, hcpu.2, hlevel]
  exact h next

/-- Instructions of the emulator. -/
theorem legal_cspect (hc : env.Consistent) (hnext : 2 ≤ env.isNextEnabled)
    (h : ∀ next, Readable (instruction (next + 2)) (emitted e)) : Legal env e := by
  have hcpu : env.isI8080 = false ∧ env.isLR35902 = false := by
    constructor
    · exact Bool.eq_false_iff.mpr fun hI => by simp [hc.extensions (Or.inl hI)] at hnext
    · exact Bool.eq_false_iff.mpr fun hLR => by simp [hc.extensions (Or.inr hLR)] at hnext
  obtain ⟨next, hlevel⟩ := Nat.exists_eq_add_of_le' hnext
  simp [Legal, InstructionOptions.processor, hcpu.1, hcpu.2, hlevel]
  exact h next

/-- Instructions of the LR35902. -/
theorem legal_sharp (hLR : env.isLR35902 = true) (h : Readable sharpInstruction (emitted e)) :
    Legal env e := by
  simp [Legal, InstructionOptions.processor, hLR]
  exact h

/-- Instructions that the i8080 does not have. -/
theorem legal_not_i8080 (hI : env.isI8080 = false)
    (h : ∀ next, Readable (instruction next) (emitted e)) (hs : Readable sharpInstruction (emitted e)) :
    Legal env e := by
  cases hLR : env.isLR35902 with
  | true => exact legal_sharp hLR hs
  | false => exact legal_z80 (by simp [nonZ80CPU, hI, hLR]) h

/-- Instructions that the LR35902 does not have. -/
theorem legal_not_sharp (hLR : env.isLR35902 = false)
    (h : ∀ next, Readable (instruction next) (emitted e)) (hi : Readable i8080Instruction (emitted e)) :
    Legal env e := by
  cases hI : env.isI8080 with
  | true =>
    simp [Legal, InstructionOptions.processor, hI, hLR]
    exact hi
  | false => exact legal_z80 (by simp [nonZ80CPU, hI, hLR]) h

/-- Instructions that all processors have. -/
theorem legal_all (h : ∀ next, Readable (instruction next) (emitted e))
    (hi : Readable i8080Instruction (emitted e)) (hs : Readable sharpInstruction (emitted e)) :
    Legal env e := by
  cases hLR : env.isLR35902 with
  | true => exact legal_sharp hLR hs
  | false => exact legal_not_sharp hLR h hi

/-- Numbers of an instruction, without markers. -/
def IsClean (e : List Int) : Prop := e ≠ [] ∧ ∀ x ∈ e, x ≠ bytesEndMarker ∧ x ≠ instructionStartMarker

/-- A marker behind an instruction is dropped. -/
theorem emitted_marker (he : IsClean e) (e' : List Int) :
    emitted (e ++ instructionStartMarker :: e') = emitted e ++ emitted e' := by
  obtain ⟨hne, hclean⟩ := he
  induction e with
  | nil => exact absurd rfl hne
  | cons x e ih =>
    obtain ⟨hx, hrest⟩ := List.forall_mem_cons.mp hclean
    cases e with
    | nil =>
      have hend : ¬x = -1 := hx.1
      simp [hend]
    | cons y e =>
      have hy := (hrest y (List.mem_cons_self ..)).2
      have htail := ih (by simp) hrest
      simp only [List.cons_append] at htail ⊢
      rw [emitted, if_neg hx.1, if_neg hy, htail, emitted, if_neg hx.1, if_neg hy, List.cons_append]

/-- The numbers of a first instruction, and those of the others. -/
theorem legal_marker (e : List Int) {e' : List Int} (he : IsClean e) (h : Legal env e)
    (h' : Legal env e') : Legal env (e ++ instructionStartMarker :: e') := by
  rw [Legal, emitted_marker he]
  exact h.append h'

/-- An index register is there for the Z80 only. -/
theorem cpu_of_has {reg : Z80Reg} (hreg : hasRegister env reg = true) (h : reg.indexed ≠ none) :
    nonZ80CPU env = false := by
  cases reg <;> first | exact absurd rfl h | simpa [hasRegister] using hreg

/-! ### Values -/

/-- What the readers of bytes return. -/
def IsLowByte (x : Int) : Prop := ∃ v, x = lowByte v

theorem isLowByte_lowByte (v : Aint) : IsLowByte (lowByte v) := ⟨v, rfl⟩

theorem getByte_isLowByte (signedCheck : Bool) : Yields (getByte env signedCheck) IsLowByte :=
  Yields.after _ fun v => Yields.pure ⟨v, rfl⟩

theorem getByteNoMem_isLowByte (signedCheck : Bool) : Yields (getByteNoMem env signedCheck) IsLowByte :=
  Yields.ite (fun _ => getByte_isLowByte signedCheck) fun _ =>
    Yields.after _ fun v => Yields.pure ⟨v, rfl⟩

/-! ### Arithmetic -/

/-- The opcodes of the 8-bit operations with `b`. -/
def aluBases : List Int := [0x80, 0x88, 0x90, 0x98, 0xA0, 0xA8, 0xB0, 0xB8]

/-- The operand of an arithmetic instruction: a register, memory or a number. -/
theorem aluOperand_legal {opcodeBase : Int} (hbase : opcodeBase ∈ aluBases) {reg : Z80Reg}
    (hreg : hasRegister env reg = true) {d : Int} (hd : IsLowByte d) :
    Yields (aluOperand env opcodeBase reg d) (Legal env) := by
  obtain ⟨v, rfl⟩ := hd
  simp only [aluBases, List.mem_cons, List.not_mem_nil, or_false] at hbase
  -- the plain registers are one byte, the index registers have a prefix, the rest is a number
  cases reg with
  | b | c | d | e | h | l | memHL | a =>
    apply Yields.pure
    rcases hbase with rfl | rfl | rfl | rfl | rfl | rfl | rfl | rfl <;>
      exact legal_all (fun _ => Reads.readable fun _ => rfl) (Reads.readable fun _ => rfl)
        (Reads.readable fun _ => rfl)
  | ixh | ixl | iyh | iyl | memIX | memIY =>
    apply Yields.pure
    apply legal_z80 (cpu_of_has hreg (by simp [Z80Reg.indexed]))
    intro next
    rcases hbase with rfl | rfl | rfl | rfl | rfl | rfl | rfl | rfl <;>
      exact Reads.readable fun _ => rfl
  | unk =>
    refine Yields.bind (getByteNoMem_isLowByte false) ?_
    rintro _ ⟨w, rfl⟩
    apply Yields.pure
    rcases hbase with rfl | rfl | rfl | rfl | rfl | rfl | rfl | rfl <;>
      refine legal_all (fun _ => ?_) ?_ ?_ <;> simp <;> exact Reads.readable fun _ => rfl
  | _ => exact Yields.pure legal_nil

/-- The numbers of an argument, where it has some. -/
def LegalOption (env : InstructionEnv) (result : Option (List Int)) : Prop :=
  ∀ e, result = some e → Legal env e

theorem legal_none : LegalOption env none := fun _ h => absurd h (by simp)

theorem legal_some (h : Legal env e) : LegalOption env (some e) := by
  rintro _ ⟨⟩
  exact h

theorem Yields.legal_map {x : Reader (List Int)} (h : Yields x (Legal env)) :
    Yields (some <$> x) (LegalOption env) :=
  Yields.bind h fun _ he => Yields.pure (legal_some he)

/-- The operand is read first, so `A` may be left out in front of it. -/
theorem commonAluOpcode_legal {opcodeBase : Int} (hbase : opcodeBase ∈ aluBases)
    (hasNonRegA nonMultiArgComma : Bool) :
    Yields (commonAluOpcode env opcodeBase hasNonRegA nonMultiArgComma) (LegalOption env) := by
  refine Yields.after _ ?_
  intro oldLp
  refine Yields.bind (getRegister_has env) ?_
  rintro ⟨reg, d⟩ ⟨hreg, hd⟩
  -- where a pair comes first, the text is given back for the 16-bit forms
  have hback : ∀ b : Bool, Yields (if b then (do
      seek oldLp
      pure none) else pure (some []) : Reader (Option (List Int))) (LegalOption env) := fun b =>
    Yields.ite (fun _ => Yields.after _ fun _ => Yields.pure legal_none) fun _ =>
      Yields.pure (legal_some legal_nil)
  have hoperand : Yields (some <$> aluOperand env opcodeBase reg (d.getD 0)) (LegalOption env) :=
    Yields.legal_map (aluOperand_legal hbase hreg hd.getD)
  -- `A,` may be the left out operand, so that another one is read behind it
  cases reg with
  | bc | de | hl | ix | iy | sp => exact hback _
  | af | i | r | f | memHLI | memHLD => exact Yields.pure (legal_some legal_nil)
  | a =>
    refine Yields.after _ ?_
    intro comma
    apply Yields.ite (fun _ => ?_) fun _ => hoperand
    refine Yields.bind (getRegister_has env) ?_
    rintro ⟨reg, d'⟩ ⟨hreg', hd'⟩
    exact Yields.legal_map (aluOperand_legal hbase hreg' (hd'.or hd).getD)
  | _ => exact hoperand

theorem simpleAlu_legal {opcodeBase : Int} (hbase : opcodeBase ∈ aluBases) :
    Yields (simpleAlu env opcodeBase) (Legal env) := by
  refine Yields.bind (commonAluOpcode_legal hbase false true) ?_
  intro result hresult
  apply Yields.pure
  cases result with
  | none => exact legal_nil
  | some e => exact hresult e rfl

/-- An argument that may start with a pair. -/
theorem pairArgument_legal {opcodeBase : Int} (hbase : opcodeBase ∈ aluBases) (nonMultiArgComma : Bool)
    (name : String) {pairs : Z80Reg → Z80Reg → Reader (List Int)}
    (hpairs : ∀ reg reg2, hasRegister env reg = true → Yields (pairs reg reg2) (Legal env)) :
    Yields (pairArgument env opcodeBase nonMultiArgComma name pairs) (LegalOption env) := by
  refine Yields.bind (commonAluOpcode_legal hbase true nonMultiArgComma) ?_
  intro result hresult
  -- the 8-bit form failed and gave the text back: the pair is read again
  cases result with
  | some e => exact Yields.pure hresult
  | none =>
    refine Yields.bind (getRegister_has env) ?_
    rintro ⟨reg, d⟩ ⟨hreg, -⟩
    cases reg with
    | unk => exact Yields.pure legal_none
    | _ =>
      refine Yields.after _ ?_
      intro found
      apply Yields.ite
      · intro _
        exact Yields.after _ fun result => Yields.legal_map (hpairs _ result.1 hreg)
      · intro _
        exact Yields.after _ fun _ => Yields.pure legal_none

/-- A fake instruction, which only the Z80 has. -/
theorem fake_legal (h : nonZ80CPU env = false → Legal env e) : Yields (fake env e) (Legal env) := by
  cases hfakes : fakesDisabled env with
  | true =>
    have hnoFakes : Yields (noFakes env) fun disabled => disabled = true :=
      Yields.after _ fun _ => Yields.pure hfakes
    refine Yields.bind hnoFakes ?_
    rintro _ rfl
    exact Yields.pure legal_nil
  | false =>
    have hcpu : nonZ80CPU env = false := by
      simp [fakesDisabled] at hfakes
      simp [nonZ80CPU, hfakes]
    refine Yields.after _ fun disabled => ?_
    cases disabled with
    | true => exact Yields.pure legal_nil
    | false => exact Yields.pure (h hcpu)

/-- `ex de,hl` around an operation with `hl`. -/
theorem legal_exchanged (hcpu : nonZ80CPU env = false) {op : Int}
    (h : IsClean [0xED, op] ∧ ∀ next, Readable (instruction next) (emitted [0xED, op])) :
    Legal env [0xEB, instructionStartMarker, 0xED, op, instructionStartMarker, 0xEB] := by
  have hex : Legal env [0xEB] := legal_z80 hcpu fun _ => Reads.readable fun _ => rfl
  apply legal_marker [0xEB] (by simp [IsClean]) hex
  exact legal_marker [0xED, op] h.1 (legal_z80 hcpu h.2) hex

/-- Numbers behind a condition. -/
theorem emitIf_legal (condition : Reader Bool) (h : Legal env e) :
    Yields (emitIf condition e) (Legal env) := by
  refine Yields.after _ fun found => ?_
  cases found with
  | true => exact Yields.pure h
  | false => exact Yields.pure legal_nil

/-- The four pairs of additions. -/
theorem isWide_cases {reg : Z80Reg} (h : isWide reg = true) :
    reg = .bc ∨ reg = .de ∨ reg = .hl ∨ reg = .sp := by
  simpa [isWide, or_assoc] using h

theorem adcPairs_legal (reg reg2 : Z80Reg) : Yields (adcPairs env reg reg2) (Legal env) := by
  refine Yields.ite (fun h => ?_) fun _ => Yields.ite (fun h => fake_legal fun hcpu => ?_) fun _ =>
    Yields.pure legal_nil
  · apply Yields.pure
    split_ifs with hwide
    · apply legal_z80 h.2
      intro next
      rcases isWide_cases hwide with rfl | rfl | rfl | rfl <;> exact Reads.readable fun _ => rfl
    · exact legal_nil
  · -- the addition to `de` is one to `hl`
    apply legal_exchanged hcpu
    rcases isWide_cases h.2 with rfl | rfl | rfl | rfl <;>
      exact ⟨by simp [IsClean, exchanged, Z80Reg.value], fun _ => Reads.readable fun _ => rfl⟩

theorem sbcPairs_legal (reg reg2 : Z80Reg) : Yields (sbcPairs env reg reg2) (Legal env) := by
  refine Yields.ite (fun h => ?_) fun _ => Yields.ite (fun h => fake_legal fun hcpu => ?_) fun _ =>
    Yields.pure legal_nil
  · apply Yields.pure
    split_ifs with hwide
    · apply legal_z80 h.2
      intro next
      rcases isWide_cases hwide with rfl | rfl | rfl | rfl <;> exact Reads.readable fun _ => rfl
    · exact legal_nil
  · apply legal_exchanged hcpu
    rcases isWide_cases h.2 with rfl | rfl | rfl | rfl <;>
      exact ⟨by simp [IsClean, exchanged, Z80Reg.value], fun _ => Reads.readable fun _ => rfl⟩

theorem subPairs_legal (reg reg2 : Z80Reg) : Yields (subPairs env reg reg2) (Legal env) := by
  refine Yields.ite (fun h => fake_legal fun hcpu => ?_) fun _ =>
    Yields.ite (fun h => fake_legal fun hcpu => ?_) fun _ => Yields.pure legal_nil
  · -- `or a` clears the carry in front of `sbc`
    apply legal_marker [0xB7] (by simp [IsClean]) (legal_z80 hcpu fun _ => Reads.readable fun _ => rfl)
    rcases isWide_cases h.2 with rfl | rfl | rfl | rfl <;>
      exact legal_z80 hcpu fun _ => Reads.readable fun _ => rfl
  · apply legal_marker [0xB7] (by simp [IsClean]) (legal_z80 hcpu fun _ => Reads.readable fun _ => rfl)
    apply legal_exchanged hcpu
    rcases isWide_cases h.2 with rfl | rfl | rfl | rfl <;>
      exact ⟨by simp [IsClean, exchanged, Z80Reg.value], fun _ => Reads.readable fun _ => rfl⟩

theorem addHl_legal (hc : env.Consistent) (reg2 : Z80Reg) : Yields (addHl env reg2) (Legal env) := by
  refine Yields.ite (fun hwide => Yields.pure ?_) fun _ =>
    Yields.ite (fun _ => Yields.pure legal_nil) fun hnext =>
      Yields.ite (fun _ => Yields.pure ?_) fun _ => Yields.after _ fun b => Yields.pure ?_
  · rcases isWide_cases hwide with rfl | rfl | rfl | rfl <;>
      exact legal_all (fun _ => Reads.readable fun _ => rfl) (Reads.readable fun _ => rfl)
        (Reads.readable fun _ => rfl)
  · exact legal_next hc hnext fun _ => Reads.readable fun _ => rfl
  · exact legal_next hc hnext fun _ => Reads.readable fun _ => rfl

/-- The additions to pairs of the Z80N. -/
theorem addNext_legal (hc : env.Consistent) {a imm16 : Int} (reg2 : Z80Reg)
    (ha : ∀ next, Readable (instruction (next + 1)) [0xED, BitVec.ofInt 8 a])
    (himm16 : ∀ next low high, Readable (instruction (next + 1)) [0xED, BitVec.ofInt 8 imm16, low, high])
    (hmarker : ∀ x, x = a ∨ x = imm16 → x ≠ bytesEndMarker ∧ x ≠ instructionStartMarker) :
    Yields (addNext env a imm16 reg2) (Legal env) := by
  refine Yields.ite (fun _ => Yields.pure legal_nil) fun hnext =>
    Yields.ite (fun _ => Yields.pure ?_) fun _ =>
      Yields.ite (fun _ => Yields.after _ fun b => Yields.pure ?_) fun _ => Yields.pure legal_nil
  · apply legal_next hc hnext
    obtain ⟨hend, hstart⟩ := hmarker a (Or.inl rfl)
    simp at hend hstart
    simp [hend, hstart]
    exact ha
  · apply legal_next hc hnext
    obtain ⟨hend, hstart⟩ := hmarker imm16 (Or.inr rfl)
    simp at hend hstart
    simp [hend, hstart]
    exact fun next => himm16 next _ _

theorem addPairs_legal (hc : env.Consistent) (reg reg2 : Z80Reg) (hreg : hasRegister env reg = true) :
    Yields (addPairs env reg reg2) (Legal env) := by
  -- by the pair on the left; what the processor does not know is a fake or an error
  cases reg with
  | hl => exact addHl_legal hc reg2
  | ix | iy =>
    have hcpu : nonZ80CPU env = false := by simpa [hasRegister] using hreg
    cases reg2 with
    | bc | de | sp | ix | iy =>
      apply Yields.pure
      first
        | exact legal_nil
        | exact legal_z80 hcpu fun _ => Reads.readable fun _ => rfl
    | _ => exact Yields.pure legal_nil
  | de =>
    refine Yields.ite (fun hwide => fake_legal fun hcpu => ?_) fun _ => ?_
    -- `EX DE,HL`, the addition, and `EX DE,HL` again: three instructions
    · apply legal_marker [0xEB] (by simp [IsClean]) (legal_z80 hcpu fun _ => Reads.readable fun _ => rfl)
      rcases isWide_cases hwide with rfl | rfl | rfl | rfl <;>
        exact legal_marker [_] (by simp [IsClean, exchanged, Z80Reg.value])
          (legal_z80 hcpu fun _ => Reads.readable fun _ => rfl)
          (legal_z80 hcpu fun _ => Reads.readable fun _ => rfl)
    · exact addNext_legal hc reg2 (fun _ => Reads.readable fun _ => rfl)
        (fun _ _ _ => Reads.readable fun _ => rfl) (by simp)
  | bc =>
    exact addNext_legal hc reg2 (fun _ => Reads.readable fun _ => rfl)
      (fun _ _ _ => Reads.readable fun _ => rfl) (by simp)
  | sp =>
    refine Yields.ite (fun h => ?_) fun _ => Yields.pure legal_nil
    refine Yields.bind (getByteNoMem_isLowByte true) ?_
    rintro _ ⟨v, rfl⟩
    exact Yields.pure (legal_sharp h.1 (Reads.readable fun _ => rfl))
  | _ => exact Yields.pure legal_nil

/-! ### Rotations and bits -/

/-- Numbers that are no markers. -/
theorem ne_markers {x : Int} (hx : 0 ≤ x) : x ≠ -1 ∧ x ≠ -2 := by omega

/-- An opcode behind `CB`. -/
theorem emitted_cb {x : Int} (hx : 0 ≤ x) : emitted [0xCB, x] = [0xCB, BitVec.ofInt 8 x] := by
  simp [ne_markers hx]

/-- The displacement stands in front of the last byte of the code. -/
theorem legal_indexCb (hcpu : nonZ80CPU env = false) {first x : Int}
    (hfirst : first = 0xDD ∨ first = 0xFD)
    (hx : 0 ≤ x) (d : Aint) : Legal env [first, 0xCB, lowByte d, x] := by
  apply legal_z80 hcpu
  intro next
  have hlead : BitVec.ofInt 8 first = 0xDD ∨ BitVec.ofInt 8 first = 0xFD := by
    rcases hfirst with rfl | rfl <;> simp
  obtain ⟨instr, hinstr⟩ := Z80Cpu.exists_reads_indexCb next hlead (BitVec.ofInt 8 (lowByte d))
    (BitVec.ofInt 8 x)
  have he : emitted [first, 0xCB, lowByte d, x]
      = [BitVec.ofInt 8 first, 0xCB, BitVec.ofInt 8 (lowByte d), BitVec.ofInt 8 x] := by
    rcases hfirst with rfl | rfl <;> simp [ne_markers hx]
  rw [he]
  exact hinstr.readable

theorem legal_cb (hI : env.isI8080 = false) {x : Int} (hx : 0 ≤ x) : Legal env [0xCB, x] := by
  apply legal_not_i8080 hI
  · intro next
    rw [emitted_cb hx]
    obtain ⟨instr, hinstr⟩ := Z80Cpu.exists_reads_cb next (BitVec.ofInt 8 x)
    exact hinstr.readable
  · rw [emitted_cb hx]
    obtain ⟨instr, hinstr⟩ := Z80Cpu.exists_reads_sharpCb (BitVec.ofInt 8 x)
    exact hinstr.readable

theorem cbDestination_nonneg (canHaveDstRegForIxy : Bool) {baseOpcode : Int} (hbase : 0 ≤ baseOpcode) :
    Yields (cbDestination env canHaveDstRegForIxy baseOpcode) fun x => 0 ≤ x := by
  have hmem : 0 ≤ baseOpcode + Z80Reg.memHL.value := by simp only [Z80Reg.value]; omega
  refine Yields.after _ fun found => Yields.ite (fun _ => Yields.after _ ?_) fun _ => Yields.pure hmem
  rintro ⟨reg, d⟩
  cases reg with
  | b | c | d | e | h | l | a =>
    apply Yields.pure
    simp only [Z80Reg.value]
    omega
  | _ => exact Yields.after _ fun _ => Yields.pure hmem

/-- The instructions behind the prefix CBh, with a second destination for indexed memory. -/
theorem opCode_CbFamily_legal (hI : env.isI8080 = false) {baseOpcode : Int} (hbase : 0 ≤ baseOpcode)
    (canHaveDstRegForIxy : Bool) :
    Yields (opCode_CbFamily env baseOpcode canHaveDstRegForIxy) fun result => Legal env result.1 := by
  refine Yields.bind (getRegister_has env) ?_
  rintro ⟨reg, d⟩ ⟨hreg, hd⟩
  obtain ⟨v, hv⟩ := hd.getD
  cases reg with
  | b | c | d | e | h | l | memHL | a =>
    apply Yields.pure
    apply legal_cb hI
    simp only [Z80Reg.value]
    omega
  | memIX | memIY =>
    refine Yields.bind (cbDestination_nonneg canHaveDstRegForIxy hbase) fun x hx => Yields.pure ?_
    simp only [Z80Reg.indexed, Option.map_some, Option.getD_some, hv]
    exact legal_indexCb (cpu_of_has hreg (by simp [Z80Reg.indexed])) (by simp) hx v
  | _ => exact Yields.pure legal_nil

theorem cbArgument_legal (hI : env.isI8080 = false) {baseOpcode : Int} (hbase : 0 ≤ baseOpcode) :
    Yields (cbArgument env baseOpcode) (Legal env) :=
  Yields.bind (opCode_CbFamily_legal hI hbase true) fun _ h => Yields.pure h

theorem bitArgument_legal (hI : env.isI8080 = false) {base : Int} (hbase : 0 ≤ base)
    (canHaveDstRegForIxy : Bool) : Yields (bitArgument env base canHaveDstRegForIxy) (Legal env) := by
  refine Yields.bind (getByteNoMem_isLowByte false) ?_
  rintro _ ⟨bit, rfl⟩
  have hopcode : 0 ≤ 8 * lowByte bit + base := by
    have hbit : 0 ≤ lowByte bit := Int.natCast_nonneg _
    omega
  refine Yields.after _ fun found => Yields.ite (fun _ => Yields.ite (fun _ => ?_) fun _ => ?_) fun _ =>
    Yields.pure legal_nil
  · exact Yields.bind (opCode_CbFamily_legal hI hopcode canHaveDstRegForIxy) fun _ h => Yields.pure h
  · exact Yields.pure legal_nil

theorem rotateArgument_legal (hI : env.isI8080 = false) {baseOpcode : Int} (hbase : 0 ≤ baseOpcode)
    {pair : Z80Reg → List Int}
    (hpair : ∀ reg, reg = .bc ∨ reg = .de ∨ reg = .hl → nonZ80CPU env = false → Legal env (pair reg)) :
    Yields (rotateArgument env baseOpcode pair) (Legal env) := by
  refine Yields.bind (opCode_CbFamily_legal hI hbase true) ?_
  rintro ⟨e, reg⟩ he
  cases reg with
  | bc => exact fake_legal (hpair .bc (by simp))
  | de => exact fake_legal (hpair .de (by simp))
  | hl => exact fake_legal (hpair .hl (by simp))
  | _ => exact Yields.pure he

/-- The two rotations of the halves of a pair. -/
theorem legal_halves (hcpu : nonZ80CPU env = false) {x y : Int} (hx : 0 ≤ x) (hy : 0 ≤ y) :
    Legal env [0xCB, x, instructionStartMarker, 0xCB, y] := by
  have hcb : ∀ {z : Int}, 0 ≤ z → Legal env [0xCB, z] := fun hz =>
    legal_cb (nonZ80CPU_eq_false hcpu).1 hz
  exact legal_marker [0xCB, x] (by simp [IsClean, ne_markers hx]) (hcb hx) (hcb hy)

theorem leftPair_legal {baseOpcode : Int} (hbase : 0 ≤ baseOpcode) {reg : Z80Reg}
    (hreg : reg = .bc ∨ reg = .de ∨ reg = .hl) (hcpu : nonZ80CPU env = false) :
    Legal env (leftPair baseOpcode reg) := by
  rcases hreg with rfl | rfl | rfl <;>
    exact legal_halves hcpu (by simp [getRegister_r16Low, Z80Reg.value]; omega)
      (by simp [getRegister_r16High, Z80Reg.value])

theorem rightPair_legal {baseOpcode : Int} (hbase : 0 ≤ baseOpcode) {reg : Z80Reg}
    (hreg : reg = .bc ∨ reg = .de ∨ reg = .hl) (hcpu : nonZ80CPU env = false) :
    Legal env (rightPair baseOpcode reg) := by
  rcases hreg with rfl | rfl | rfl <;>
    exact legal_halves hcpu (by simp [getRegister_r16High, Z80Reg.value]; omega)
      (by simp [getRegister_r16Low, Z80Reg.value])

theorem rl_legal (hI : env.isI8080 = false) : Yields (rl env) (Legal env) :=
  rotateArgument_legal hI (by decide) fun _ => leftPair_legal (by decide)

theorem rr_legal (hI : env.isI8080 = false) : Yields (rr env) (Legal env) :=
  rotateArgument_legal hI (by decide) fun _ => rightPair_legal (by decide)

theorem sla_legal (hI : env.isI8080 = false) : Yields (sla env) (Legal env) := by
  apply rotateArgument_legal hI (by decide)
  intro reg hreg hcpu
  split_ifs
  · -- `add hl,hl`
    exact legal_z80 hcpu fun _ => Reads.readable fun _ => rfl
  · exact leftPair_legal (by decide) hreg hcpu

theorem sll_legal (hI : env.isI8080 = false) : Yields (sll env) (Legal env) :=
  rotateArgument_legal hI (by decide) fun _ => leftPair_legal (by decide)

theorem sra_legal (hI : env.isI8080 = false) : Yields (sra env) (Legal env) :=
  rotateArgument_legal hI (by decide) fun _ => rightPair_legal (by decide)

theorem srl_legal (hI : env.isI8080 = false) : Yields (srl env) (Legal env) :=
  rotateArgument_legal hI (by decide) fun _ => rightPair_legal (by decide)

theorem decInc_legal {base8bOpcode base16bOpcode : Int}
    (hbase : (base8bOpcode = 0x04 ∧ base16bOpcode = 0x03) ∨ (base8bOpcode = 0x05 ∧ base16bOpcode = 0x0B)) :
    Yields (decInc env base8bOpcode base16bOpcode) (Legal env) := by
  refine Yields.bind (getRegister_has env) ?_
  rintro ⟨reg, d⟩ ⟨hreg, hd⟩
  obtain ⟨v, hv⟩ := hd.getD
  -- both opcodes step by the register; the index registers need a Z80
  cases reg with
  | b | c | d | e | h | l | memHL | a | bc | de | hl | sp =>
    apply Yields.pure
    rcases hbase with ⟨rfl, rfl⟩ | ⟨rfl, rfl⟩ <;>
      exact legal_all (fun _ => Reads.readable fun _ => rfl) (Reads.readable fun _ => rfl)
        (Reads.readable fun _ => rfl)
  | memIX | memIY =>
    apply Yields.pure
    apply legal_z80 (cpu_of_has hreg (by simp [Z80Reg.indexed]))
    intro next
    simp only [if_true, hv]
    rcases hbase with ⟨rfl, rfl⟩ | ⟨rfl, rfl⟩ <;> exact Reads.readable fun _ => rfl
  | ixh | ixl | iyh | iyl | ix | iy =>
    have hcpu : nonZ80CPU env = false := by simpa [hasRegister] using hreg
    apply Yields.pure
    apply legal_z80 hcpu
    intro next
    rcases hbase with ⟨rfl, rfl⟩ | ⟨rfl, rfl⟩ <;> exact Reads.readable fun _ => rfl
  | _ => exact Yields.pure legal_nil

end

end Z80

end Sjasmplus
