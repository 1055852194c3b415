import Sjasmplus.InstructionCode

/-!
# The code of jumps, of the stack and of ports

Every argument of the remaining instructions is complete instructions of the processor too, where the
table of the processor has the instruction.
-/

namespace Sjasmplus

open Parsing ParseFn
open Codec (Reads Readable)
open Z80Cpu (IsCode instruction i8080Instruction sharpInstruction)

namespace Z80

attribute [local simp] emitted bytesEndMarker instructionStartMarker

variable {env : InstructionEnv}

/-! ### Jumps -/

/-- A condition that is found is one of the processor. -/
def HasCondition (env : InstructionEnv) (result : Option Z80Cond) : Prop :=
  ∀ cc, result = some cc → env.isLR35902 = true → cc.value ≤ Z80Cond.c.value

/-- A condition that is read is one that the processor has; the others are rejected with their text.
-/
theorem getz80cond_has (env : InstructionEnv) : Yields (getz80cond env) (HasCondition env) := by
  refine Yields.ite (fun _ => ?_) fun hLR => ?_
  · refine Yields.after _ fun pp => Yields.after _ fun result => ?_
    cases result with
    | none => exact Yields.after _ fun _ => Yields.pure fun _ h => absurd h (by simp)
    | some cc =>
      cases cc with
      | nz | z | nc | c =>
        apply Yields.pure
        rintro _ ⟨⟩ _
        decide
      | _ => exact Yields.after _ fun _ => Yields.pure fun _ h => absurd h (by simp)
  · exact fun _ _ _ _ _ h => absurd h hLR

/-- The numbers that `withAddress` returns. -/
theorem withAddress_legal {opcode : Option Int}
    (h : ∀ x, opcode = some x → ∀ ad, Legal env [x, lowByte ad, highByte ad]) :
    Yields (withAddress env opcode) (Legal env) := by
  refine Yields.after _ fun address => Yields.after _ fun _ => Yields.pure ?_
  cases opcode with
  | none => exact legal_nil
  | some x => exact h x rfl _

/-- What depends on a condition that the processor has. -/
theorem legal_condition (e : Z80Cond → List Int) {cc : Z80Cond} (hcc : HasCondition env (some cc))
    (hall : ∀ cc, cc.value ≤ Z80Cond.c.value → Legal env (e cc))
    (hothers : ∀ cc, env.isLR35902 = false → Legal env (e cc)) : Legal env (e cc) := by
  cases hLR : env.isLR35902 with
  | true => exact hall cc (hcc cc rfl hLR)
  | false => exact hothers cc hLR

/-- The code of a condition is the one of the instruction, or there is none. -/
theorem condOpcode_yields (name : String) (opcode : Int) :
    Yields (condOpcode env name opcode) fun result => ∀ x, result = some x → x = opcode := by
  refine Yields.after _ fun found => Yields.ite (fun _ => Yields.pure ?_) fun _ =>
    Yields.after _ fun _ => Yields.pure ?_
  · rintro _ ⟨⟩
    rfl
  · exact fun _ h => absurd h (by simp)

/-- The conditional jumps and calls. -/
theorem conditional_legal {base : Int} (hbase : base = 0xC4 ∨ base = 0xC2) (name : String)
    {cc : Z80Cond} (hcc : HasCondition env (some cc)) : Yields (do
      withAddress env (← condOpcode env name (base + cc.value))) (Legal env) := by
  refine Yields.bind (condOpcode_yields name _) fun opcode hopcode => withAddress_legal ?_
  rintro x rfl ad
  obtain rfl := hopcode x rfl
  apply legal_condition (fun cc => [base + cc.value, lowByte ad, highByte ad]) hcc
  · intro cc hc
    rcases hbase with rfl | rfl <;> cases cc <;>
      first
        | exact absurd hc (by decide)
        | exact legal_all (fun _ => Reads.readable fun _ => rfl) (Reads.readable fun _ => rfl)
            (Reads.readable fun _ => rfl)
  · intro cc hLR
    rcases hbase with rfl | rfl <;> cases cc <;>
      exact legal_not_sharp hLR (fun _ => Reads.readable fun _ => rfl) (Reads.readable fun _ => rfl)

/-- `CALL`, with or without a condition. -/
theorem call_legal : Yields (call env) (Legal env) := by
  refine Yields.bind (getz80cond_has env) fun result hcc => ?_
  cases result with
  | none =>
    apply withAddress_legal
    rintro _ ⟨⟩ ad
    exact legal_all (fun _ => Reads.readable fun _ => rfl) (Reads.readable fun _ => rfl)
      (Reads.readable fun _ => rfl)
  | some cc => exact conditional_legal (Or.inl rfl) "CALL" hcc

theorem jpAddress_legal (bt : EBracketType) (expLp : Text) :
    Yields (jpAddress env bt expLp) (Legal env) := by
  have haddress : Yields (withAddress env (some 0xC3)) (Legal env) := by
    apply withAddress_legal
    rintro _ ⟨⟩ ad
    exact legal_all (fun _ => Reads.readable fun _ => rfl) (Reads.readable fun _ => rfl)
      (Reads.readable fun _ => rfl)
  cases bt with
  | square => exact withAddress_legal fun _ h => absurd h (by simp)
  | round => exact Yields.after _ fun _ => haddress
  | none | curly => exact haddress

theorem jpPlain_legal (hc : env.Consistent) : Yields (jpPlain env) (Legal env) := by
  refine Yields.after _ fun expLp => ?_
  -- `JP (C)` is of the Z80N: it is looked for only where that is enabled
  have hioC : Yields (if env.isNextEnabled ≠ 0 then needIoC env else pure false : Reader Bool)
      fun found => found = true → env.isNextEnabled ≠ 0 :=
    Yields.ite (fun h _ _ _ _ => h) fun _ => Yields.pure fun h => absurd h (by simp)
  refine Yields.bind hioC fun found hfound => Yields.ite (fun h => Yields.pure ?_) fun _ => ?_
  · exact legal_next hc (hfound h) fun _ => Reads.readable fun _ => rfl
  · refine Yields.after _ fun bt => Yields.bind (getRegister_has env) ?_
    rintro ⟨reg, d⟩ ⟨hreg, -⟩
    -- a jump through a register, or to an address that starts like memory
    cases reg with
    | hl =>
      apply emitIf_legal
      exact legal_all (fun _ => Reads.readable fun _ => rfl) (Reads.readable fun _ => rfl)
        (Reads.readable fun _ => rfl)
    | ix | iy =>
      have hcpu : nonZ80CPU env = false := by simpa [hasRegister] using hreg
      apply emitIf_legal
      exact legal_z80 hcpu fun _ => Reads.readable fun _ => rfl
    | memHL | memIX | memIY | unk => exact jpAddress_legal bt expLp
    | _ => exact Yields.pure legal_nil

/-- `JP`, with a condition, to an address, or to the address in a register. -/
theorem jp_legal (hc : env.Consistent) : Yields (jp env) (Legal env) := by
  refine Yields.bind (getz80cond_has env) fun result hcc => ?_
  cases result with
  | none => exact jpPlain_legal hc
  | some cc => exact conditional_legal (Or.inr rfl) "JP" hcc

theorem relative_isLowByte (name : String) (jmp : Aint) : Yields (relative name jmp) IsLowByte :=
  Yields.ite (fun _ => Yields.after _ fun _ => Yields.pure (isLowByte_lowByte 0)) fun _ =>
    Yields.pure (isLowByte_lowByte jmp)

/-- `DJNZ`, which only the Z80 and the Z80N have. -/
theorem djnz_legal (hcpu : nonZ80CPU env = false) : Yields (djnz env) (Legal env) := by
  refine Yields.after _ fun address => Yields.bind (relative_isLowByte "DJNZ" _) ?_
  rintro _ ⟨v, rfl⟩
  exact Yields.pure (legal_z80 hcpu fun _ => Reads.readable fun _ => rfl)

theorem jrTarget_legal {opcode : Option Int}
    (h : ∀ x, opcode = some x → ∀ v, Legal env [x, lowByte v]) :
    Yields (jrTarget env opcode) (Legal env) := by
  refine Yields.after _ fun address => Yields.bind (relative_isLowByte "JR" _) ?_
  rintro _ ⟨v, rfl⟩
  apply Yields.pure
  cases opcode with
  | none => exact legal_nil
  | some x => exact h x rfl v

/-- `JR` reads nothing for the I8080, and is legal for all others. -/
theorem jr_legal (hI : env.isI8080 = false) : Yields (jr env) (LegalOption env) := by
  refine Yields.after _ fun result => ?_
  cases result with
  | none =>
    apply Yields.legal_map
    apply jrTarget_legal
    rintro _ ⟨⟩ v
    exact legal_not_i8080 hI (fun _ => Reads.readable fun _ => rfl) (Reads.readable fun _ => rfl)
  | some cc =>
    refine Yields.ite (fun hcc => Yields.legal_map ?_) fun _ =>
      Yields.after _ fun _ => Yields.after _ fun _ => Yields.pure legal_none
    refine Yields.bind (condOpcode_yields "JR" _) fun opcode hopcode => jrTarget_legal ?_
    rintro x rfl v
    obtain rfl := hopcode x rfl
    cases cc with
    | nz | z | nc | c =>
      exact legal_not_i8080 hI (fun _ => Reads.readable fun _ => rfl) (Reads.readable fun _ => rfl)
    | _ => exact absurd hcc (by decide)

/-- `RET`, with or without a condition. -/
theorem ret_legal : Yields (ret env) (Legal env) := by
  refine Yields.bind (getz80cond_has env) fun result hcc => ?_
  cases result with
  | none =>
    exact Yields.pure (legal_all (fun _ => Reads.readable fun _ => rfl) (Reads.readable fun _ => rfl)
      (Reads.readable fun _ => rfl))
  | some cc =>
    apply Yields.pure
    apply legal_condition (fun cc => [0xC0 + cc.value]) hcc
    · intro cc hc
      cases cc with
      | nz | z | nc | c =>
        exact legal_all (fun _ => Reads.readable fun _ => rfl) (Reads.readable fun _ => rfl)
          (Reads.readable fun _ => rfl)
      | _ => exact absurd hc (by decide)
    · intro cc hLR
      cases cc <;>
        exact legal_not_sharp hLR (fun _ => Reads.readable fun _ => rfl) (Reads.readable fun _ => rfl)

/-- The addresses of `RST`. -/
theorem rst_cases {v : Aint} (h : (lowByte v).toNat &&& 0xC7 = 0) :
    lowByte v ∈ [0x00, 0x08, 0x10, 0x18, 0x20, 0x28, 0x30, 0x38] := by
  have hall : ∀ k : Nat, k < 256 → k &&& 0xC7 = 0 →
      (k : Int) ∈ [(0x00 : Int), 0x08, 0x10, 0x18, 0x20, 0x28, 0x30, 0x38] := by
    decide +kernel
  exact hall _ (Nat.mod_lt _ (by decide)) h

/-- `RST` to a multiple of eight; any other number is an error without code. -/
theorem rst_legal : Yields (rst env) (LegalOption env) := by
  refine Yields.bind (getByteNoMem_isLowByte false) ?_
  rintro _ ⟨v, rfl⟩
  refine Yields.ite (fun _ => Yields.after _ fun _ => Yields.after _ fun _ => Yields.pure legal_none)
    fun h => Yields.pure (legal_some ?_)
  have hcases := rst_cases (not_not.mp h)
  generalize lowByte v = x at hcases
  simp only [List.mem_cons, List.not_mem_nil, or_false] at hcases
  rcases hcases with rfl | rfl | rfl | rfl | rfl | rfl | rfl | rfl <;>
    exact legal_all (fun _ => Reads.readable fun _ => rfl) (Reads.readable fun _ => rfl)
      (Reads.readable fun _ => rfl)

/-! ### Exchanges and the stack -/

theorem exFirst_has : Yields (exFirst env) fun reg => hasRegister env reg = true := by
  refine Yields.bind (getRegister_has env) ?_
  rintro ⟨reg, d⟩ ⟨hreg, -⟩
  cases reg with
  | sp => exact Yields.pure rfl
  | unk =>
    refine Yields.after _ fun found => Yields.pure ?_
    cases found <;> rfl
  | _ => exact Yields.pure hreg

/-- The second register of `EX` is one that the processor has as well. -/
theorem exSecond_has {reg1 : Z80Reg} (hreg1 : hasRegister env reg1 = true) :
    Yields (exSecond env reg1) fun regs => hasRegister env regs.2 = true := by
  refine Yields.bind (getRegister_has env) ?_
  rintro ⟨reg, d⟩ ⟨hreg, -⟩
  cases reg with
  | af => exact Yields.after _ fun _ => Yields.after _ fun _ => Yields.pure rfl
  | unk =>
    refine Yields.after _ fun found => Yields.pure ?_
    cases found with
    | true => exact hreg1
    | false => rfl
  | _ => exact Yields.pure hreg

/-- The pairs that can be exchanged, where a processor has an instruction for them. -/
theorem exchange_legal (hLR : env.isLR35902 = false) (reg1 : Z80Reg) {reg2 : Option Z80Reg}
    (hreg2 : ∀ reg, reg2 = some reg → hasRegister env reg = true) :
    Yields (exchange env reg1 reg2) (Legal env) := by
  have hnone : Yields (do
      ParseFn.report [.error "[EX] Comma expected" none .pass3]
      pure [] : Reader (List Int)) (Legal env) := Yields.after _ fun _ => Yields.pure legal_nil
  have hpair : Legal env [0xEB] :=
    legal_not_sharp hLR (fun _ => Reads.readable fun _ => rfl) (Reads.readable fun _ => rfl)
  -- what the LR35902 does not have is excluded ahead of the register
  cases reg1 with
  | af =>
    apply Yields.pure
    split_ifs with h
    · exact legal_nil
    · have hcpu : nonZ80CPU env = false := by
        simp only [not_or, Bool.not_eq_true] at h
        simp [nonZ80CPU, hLR, h.1]
      exact legal_z80 hcpu fun _ => Reads.readable fun _ => rfl
  | de | hl =>
    cases reg2 with
    | none => exact hnone
    | some reg2 =>
      apply Yields.pure
      beta_reduce
      split_ifs
      · exact hpair
      · exact legal_nil
  | sp =>
    cases reg2 with
    | none => exact hnone
    | some reg2 =>
      have hreg := hreg2 reg2 rfl
      apply Yields.pure
      cases reg2 with
      | hl => exact legal_not_sharp hLR (fun _ => Reads.readable fun _ => rfl) (Reads.readable fun _ => rfl)
      | ix | iy =>
        have hcpu : nonZ80CPU env = false := by simpa [hasRegister] using hreg
        exact legal_z80 hcpu fun _ => Reads.readable fun _ => rfl
      | _ => exact legal_nil
  | _ => exact Yields.pure legal_nil

theorem ex_legal (hLR : env.isLR35902 = false) : Yields (ex env) (Legal env) := by
  refine Yields.bind exFirst_has fun reg1 hreg1 => Yields.after _ fun found =>
    Yields.ite (fun _ => ?_) fun _ => exchange_legal hLR reg1 fun _ h => absurd h (by simp)
  refine Yields.bind (exSecond_has hreg1) ?_
  rintro ⟨reg1', reg2⟩ hreg2
  apply exchange_legal hLR
  rintro _ ⟨⟩
  exact hreg2

/-- The code for a register that is pushed or popped. -/
theorem popOne_legal {reg : Z80Reg} (hreg : hasRegister env reg = true) : Legal env (popOne reg) := by
  cases reg with
  | af | bc | de | hl =>
    exact legal_all (fun _ => Reads.readable fun _ => rfl) (Reads.readable fun _ => rfl)
      (Reads.readable fun _ => rfl)
  | ix | iy =>
    have hcpu : nonZ80CPU env = false := by simpa [hasRegister] using hreg
    exact legal_z80 hcpu fun _ => Reads.readable fun _ => rfl
  | _ => exact legal_nil

theorem popArgument_legal : Yields (popArgument env) (Legal env) :=
  Yields.bind (getRegister_has env) fun _ h => Yields.pure (popOne_legal h.1)

theorem popRegisters_has (rn : Nat) {regs : List Z80Reg}
    (hregs : ∀ reg ∈ regs, hasRegister env reg = true) :
    Yields (popRegisters env rn regs) fun regs => ∀ reg ∈ regs, hasRegister env reg = true := by
  induction rn generalizing regs with
  | zero => exact Yields.pure hregs
  | succ rn ih =>
    refine Yields.bind (getRegister_has env) fun result h => ?_
    have hcons : ∀ reg ∈ result.1 :: regs, hasRegister env reg = true :=
      List.forall_mem_cons.mpr ⟨h.1, hregs⟩
    exact Yields.ite (fun _ => Yields.pure hcons) fun _ => Yields.after _ fun _ =>
      Yields.ite (fun _ => ih hcons) fun _ => Yields.pure hcons

/-- The lists of `POP`, from the last register to the first one. -/
theorem popReverse_legal : Yields (popReverse env) fun es => ∀ e ∈ es, Legal env e := by
  refine Yields.bind (popRegisters_has 30 fun _ h => absurd h (by simp)) fun regs hregs => Yields.pure ?_
  intro e he
  obtain ⟨reg, hreg, rfl⟩ := List.mem_map.mp he
  exact popOne_legal (hregs reg hreg)

theorem pushArgument_legal (hc : env.Consistent) : Yields (pushArgument env) (Legal env) := by
  refine Yields.bind (getRegister_has env) ?_
  rintro ⟨reg, d⟩ ⟨hreg, -⟩
  cases reg with
  | af | bc | de | hl =>
    exact Yields.pure (legal_all (fun _ => Reads.readable fun _ => rfl) (Reads.readable fun _ => rfl)
      (Reads.readable fun _ => rfl))
  | ix | iy =>
    have hcpu : nonZ80CPU env = false := by simpa [hasRegister] using hreg
    exact Yields.pure (legal_z80 hcpu fun _ => Reads.readable fun _ => rfl)
  | unk =>
    exact Yields.ite (fun _ => Yields.pure legal_nil) fun hnext => Yields.after _ fun _ =>
      Yields.pure (legal_next hc hnext fun _ => Reads.readable fun _ => rfl)
  | _ => exact Yields.pure legal_nil

/-! ### Ports and modes -/

/-- A port is written as one byte. -/
theorem getIoPort_isLowByte : Yields (getIoPort env) IsLowByte := by
  refine Yields.after _ fun oldP => Yields.after _ ?_
  rintro ⟨result, val⟩
  cases result with
  | zero => exact Yields.after _ fun _ => Yields.pure (isLowByte_lowByte 0)
  | succ result =>
    exact Yields.ite (fun _ => Yields.after _ fun _ => Yields.pure (isLowByte_lowByte 0)) fun _ =>
      Yields.after _ fun _ => Yields.pure (isLowByte_lowByte val)

theorem ioC_cpu (env : InstructionEnv) : Yields (ioC env) fun found => found = true → env.isI8080 = false :=
  Yields.ite (fun _ => Yields.pure fun h => absurd h (by simp)) fun h _ _ _ _ => Bool.not_eq_true _ ▸ h

/-- The processor with the port `(c)`. -/
theorem cpu_of_ioC (hLR : env.isLR35902 = false) (hI : env.isI8080 = false) : nonZ80CPU env = false := by
  simp [nonZ80CPU, hLR, hI]

theorem inC_legal (hcpu : nonZ80CPU env = false) (reg : Z80Reg) : Legal env (inC reg) := by
  cases reg with
  | b | c | d | e | h | l | a | f => exact legal_z80 hcpu fun _ => Reads.readable fun _ => rfl
  | _ => exact legal_nil

/-- `IN` from a port with a number, which the LR35902 does not have. -/
theorem inPort_legal (hLR : env.isLR35902 = false)
    (reg : Z80Reg) : Yields (inPort env reg) (Legal env) := by
  refine Yields.bind (ioC_cpu env) fun found hfound => Yields.ite (fun h => Yields.pure ?_) fun _ => ?_
  · exact inC_legal (cpu_of_ioC hLR (hfound h)) reg
  · refine Yields.bind getIoPort_isLowByte ?_
    rintro _ ⟨v, rfl⟩
    apply Yields.pure
    split_ifs
    · exact legal_not_sharp hLR (fun _ => Reads.readable fun _ => rfl) (Reads.readable fun _ => rfl)
    · exact legal_nil

/-- An argument of `IN`, with its port in `C` or as a number. -/
theorem inArgument_legal (hLR : env.isLR35902 = false) : Yields (inArgument env) (Legal env) := by
  refine Yields.after _ ?_
  rintro ⟨reg, d⟩
  cases reg with
  | unk => exact inPort_legal hLR .f
  | _ => exact Yields.after _ fun _ => Yields.ite (fun _ => inPort_legal hLR _) fun _ => Yields.pure legal_nil

theorem outC_legal (hcpu : nonZ80CPU env = false) : Yields (outC env) (Legal env) := by
  refine Yields.after _ ?_
  rintro ⟨reg, d⟩
  cases reg with
  | b | c | d | e | h | l | a => exact Yields.pure (legal_z80 hcpu fun _ => Reads.readable fun _ => rfl)
  | unk =>
    exact Yields.after _ fun _ => Yields.ite (fun _ => Yields.after _ fun _ => Yields.pure
      (legal_z80 hcpu fun _ => Reads.readable fun _ => rfl)) fun _ => Yields.pure legal_nil
  | _ => exact Yields.pure legal_nil

/-- An argument of `OUT`; a port in `C` needs a Z80. -/
theorem outArgument_legal (hLR : env.isLR35902 = false) : Yields (outArgument env) (Legal env) := by
  refine Yields.bind (ioC_cpu env) fun found hfound => Yields.ite (fun h => ?_) fun _ => ?_
  · exact Yields.after _ fun _ => Yields.ite (fun _ => outC_legal (cpu_of_ioC hLR (hfound h))) fun _ =>
      Yields.pure legal_nil
  · refine Yields.bind getIoPort_isLowByte ?_
    rintro _ ⟨v, rfl⟩
    refine Yields.after _ fun _ => Yields.ite (fun _ => Yields.after _ fun _ => Yields.pure ?_) fun _ =>
      Yields.pure legal_nil
    split_ifs
    · exact legal_not_sharp hLR (fun _ => Reads.readable fun _ => rfl) (Reads.readable fun _ => rfl)
    · exact legal_nil

/-- The modes of `IM` are 0, 1 and 2. -/
theorem im_legal (hcpu : nonZ80CPU env = false) : Yields (im env) (Legal env) := by
  refine Yields.after _ fun mode => Yields.pure ?_
  split_ifs
  any_goals exact legal_z80 hcpu fun _ => Reads.readable fun _ => rfl
  exact legal_nil

/-! ### The R800 -/

theorem mulub_legal (hcpu : nonZ80CPU env = false) : Yields (mulub env) (Legal env) := by
  refine Yields.after _ fun reg => ?_
  cases reg with
  | b | c | d | e => exact Yields.pure (legal_z80 hcpu fun _ => Reads.readable fun _ => rfl)
  | _ => exact Yields.pure legal_nil

theorem muluw_legal (hcpu : nonZ80CPU env = false) : Yields (muluw env) (Legal env) := by
  refine Yields.after _ fun reg => ?_
  cases reg with
  | bc | sp => exact Yields.pure (legal_z80 hcpu fun _ => Reads.readable fun _ => rfl)
  | _ => exact Yields.pure legal_nil

/-! ### The Z80N -/

/-- An instruction of the Z80N is read only where this is enabled, so its code may rest on it. -/
theorem nextOnly_legal {x : Reader (Option (List Int))}
    (h : env.isNextEnabled ≠ 0 → Yields x (LegalOption env)) : Yields (nextOnly env x) (LegalOption env) :=
  Yields.ite (fun _ => Yields.after _ fun _ => Yields.pure legal_none) fun hlevel =>
    h fun hzero => hlevel (by omega)

/-- An instruction of the Z80N without operands. -/
theorem legal_nextPlain (hc : env.Consistent) (hnext : env.isNextEnabled ≠ 0) {opcode : Int}
    (h : ∀ next, Readable (instruction (next + 1)) (emitted [0xED, opcode])) :
    LegalOption env (some [0xED, opcode]) :=
  legal_some (legal_next hc hnext h)

/-- The shifts of the Z80N take `DE` and `B` only. -/
theorem barrelShift_legal (hc : env.Consistent) {mainOpcode : Int}
    (h : ∀ next, Readable (instruction (next + 1)) (emitted [0xED, mainOpcode])) :
    Yields (barrelShift env mainOpcode) (LegalOption env) := by
  apply nextOnly_legal
  intro hnext
  refine Yields.after _ fun _ => Yields.ite (fun _ => ?_) fun _ => ?_
  · exact Yields.pure (legal_nextPlain hc hnext h)
  · exact Yields.after _ fun _ => Yields.pure (legal_some legal_nil)

/-- An instruction whose only argument is `A`. -/
theorem onlyA_legal (hc : env.Consistent) (name : String) {opcode : Int}
    (h : ∀ next, Readable (instruction (next + 1)) (emitted [0xED, opcode])) :
    Yields (onlyA env name opcode) (LegalOption env) := by
  apply nextOnly_legal
  intro hnext
  refine Yields.after _ fun _ => Yields.ite (fun _ => ?_) fun _ => ?_
  · exact Yields.pure (legal_nextPlain hc hnext h)
  · exact Yields.after _ fun _ => Yields.pure legal_none

theorem optionalHl_legal (hc : env.Consistent) {opcode : Int}
    (h : ∀ next, Readable (instruction (next + 1)) (emitted [0xED, opcode])) :
    Yields (optionalHl env opcode) (LegalOption env) := by
  apply nextOnly_legal
  intro hnext
  have hlegal : Yields (pure (some [0xED, opcode]) : Reader _) (LegalOption env) :=
    Yields.pure (legal_nextPlain hc hnext h)
  exact Yields.after _ fun _ => Yields.after _ fun _ =>
    Yields.ite (fun _ => Yields.after _ fun _ => hlegal) fun _ => hlegal

theorem mul_legal (hc : env.Consistent) : Yields (mul env) (LegalOption env) := by
  apply nextOnly_legal
  intro hnext
  refine Yields.after _ fun _ => Yields.after _ fun _ => Yields.ite (fun _ => ?_) fun _ => ?_
  · exact Yields.pure (legal_nextPlain hc hnext fun _ => Reads.readable fun _ => rfl)
  · exact Yields.after _ fun _ => Yields.pure legal_none

/-- `NEXTREG` with a number or with `A`. -/
theorem nextreg_legal (hc : env.Consistent) (hnext : env.isNextEnabled ≠ 0) :
    Yields (nextreg env) (LegalOption env) := by
  refine Yields.after _ fun result => Yields.ite (fun _ => ?_) fun _ => ?_
  · exact Yields.after _ fun _ => Yields.pure legal_none
  · refine Yields.bind (getByteNoMem_isLowByte false) ?_
    rintro _ ⟨number, rfl⟩
    refine Yields.after _ fun _ => Yields.ite (fun _ => Yields.after _ ?_) fun _ =>
      Yields.after _ fun _ => Yields.pure legal_none
    rintro ⟨reg, d⟩
    cases reg with
    | a => exact Yields.pure (legal_some (legal_next hc hnext fun _ => Reads.readable fun _ => rfl))
    | unk =>
      refine Yields.bind (getByteNoMem_isLowByte false) ?_
      rintro _ ⟨v, rfl⟩
      exact Yields.pure (legal_some (legal_next hc hnext fun _ => Reads.readable fun _ => rfl))
    | _ => exact Yields.pure (legal_some legal_nil)

theorem testImm_legal (hc : env.Consistent) : Yields (testImm env) (LegalOption env) := by
  apply nextOnly_legal
  intro hnext
  refine Yields.bind (getByteNoMem_isLowByte false) ?_
  rintro _ ⟨v, rfl⟩
  exact Yields.pure (legal_some (legal_next hc hnext fun _ => Reads.readable fun _ => rfl))

theorem cspectOnly_legal (name : String) (skip : Bool) {x : Reader (Option (List Int))}
    (h : 2 ≤ env.isNextEnabled → Yields x (LegalOption env)) :
    Yields (cspectOnly env name skip x) (LegalOption env) := by
  refine Yields.ite (fun _ => Yields.after _ fun _ => ?_) fun hlevel => h (Nat.le_of_not_lt hlevel)
  exact Yields.ite (fun _ => Yields.after _ fun _ => Yields.pure legal_none) fun _ => Yields.pure legal_none

/-- The breakpoints of CSpect, which are read at a higher level of the option. -/
theorem breakpoint_legal (hc : env.Consistent) (name : String) {opcode : Int}
    (hopcode : opcode = 0x01 ∨ opcode = 0x02) : Yields (breakpoint env name opcode) (LegalOption env) := by
  apply cspectOnly_legal
  intro hnext
  refine Yields.bind (getByte_isLowByte false) ?_
  rintro _ ⟨type, rfl⟩
  have herror : Yields (do
      ParseFn.report [.error ("[" ++ name.toUpper ++ "] syntax: " ++ name.toUpper ++
        " <type>, <start_address>, <end_address>") none .pass3]
      pure none : Reader (Option (List Int))) (LegalOption env) :=
    Yields.after _ fun _ => Yields.pure legal_none
  refine Yields.after _ fun _ => Yields.ite (fun _ => Yields.after _ fun startad => Yields.after _ fun _ =>
    Yields.ite (fun _ => Yields.after _ fun endad => Yields.pure ?_) fun _ => herror) fun _ => herror
  apply legal_some
  apply legal_cspect hc hnext
  intro next
  rcases hopcode with rfl | rfl <;> exact Reads.readable fun _ => rfl

/-! ### The LR35902 -/

/-- The loads of the LR35902 that step `HL`, in both directions. -/
theorem ldHlStep_legal (hLR : env.isLR35902 = true) {store load : Int}
    (hcodes : (store = 0x32 ∧ load = 0x3A) ∨ (store = 0x22 ∧ load = 0x2A)) :
    Yields (ldHlStep env store load) (Legal env) := by
  have hlegal : ∀ r1 r2 : Z80Reg, Legal env
      (if r1 = .memHL ∧ r2 = .a then [store] else if r1 = .a ∧ r2 = .memHL then [load] else []) := by
    intro r1 r2
    split_ifs
    · rcases hcodes with ⟨rfl, rfl⟩ | ⟨rfl, rfl⟩ <;> exact legal_sharp hLR (Reads.readable fun _ => rfl)
    · rcases hcodes with ⟨rfl, rfl⟩ | ⟨rfl, rfl⟩ <;> exact legal_sharp hLR (Reads.readable fun _ => rfl)
    · exact legal_nil
  exact Yields.after _ fun _ => Yields.after _ fun _ =>
    Yields.ite (fun _ => Yields.after _ fun _ => Yields.pure (hlegal _ _)) fun _ =>
      Yields.after _ fun _ => Yields.pure (hlegal _ _)

/-- `LDH` to and from the page at 0FF00h. -/
theorem ldh_legal (hLR : env.isLR35902 = true) : Yields (ldh env) (Legal env) := by
  refine Yields.after _ ?_
  rintro ⟨pemaRes, a8, storesA⟩
  refine Yields.ite (fun _ => Yields.after _ fun _ => Yields.pure ?_) fun _ =>
    Yields.after _ fun _ => Yields.after _ fun _ => Yields.pure legal_nil
  cases storesA <;> exact legal_sharp hLR (Reads.readable fun _ => rfl)

/-- The opcode of `STOP` with its byte. -/
theorem stopByte_legal (hLR : env.isLR35902 = true) :
    Yields (stopByte env) fun e => ∃ byte, emitted e = [byte] ∧ e.headD bytesEndMarker ≠ bytesEndMarker ∧
      IsCode env.processor [0x10, byte] := by
  have hcode : ∀ byte, IsCode env.processor [0x10, byte] := by
    intro byte
    simp [InstructionOptions.processor, hLR]
    exact Reads.readable fun _ => rfl
  refine Yields.after _ fun _ => Yields.after _ fun _ => Yields.ite (fun _ => ?_) fun _ => ?_
  · exact Yields.pure ⟨0x00, rfl, by decide, hcode _⟩
  · refine Yields.bind (getByteNoMem_isLowByte false) ?_
    rintro _ ⟨v, rfl⟩
    exact Yields.pure ⟨BitVec.ofInt 8 (lowByte v), by simp, by simp, hcode _⟩

end Z80

end Sjasmplus
