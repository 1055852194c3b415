import Sjasmplus.InstructionCode

/-!
# The code of loads

Every argument of `LD`, `LDI` and `LDD` is complete instructions of the processor: a load, or the
instructions of a fake load.
-/

namespace Sjasmplus

open Parsing ParseFn
open Codec (Reads Readable)
open Z80Cpu (instruction i8080Instruction sharpInstruction)

namespace Z80

attribute [local simp] emitted bytesEndMarker instructionStartMarker

variable {env : InstructionEnv}

/-- A prefix of an instruction, or none. -/
def IsPrefix (env : InstructionEnv) (prefixByte : Int) : Prop :=
  prefixByte = 0 ∨ ((prefixByte = 0xDD ∨ prefixByte = 0xFD) ∧ nonZ80CPU env = false)

/-! ### Loads between registers -/

/-- The 8-bit operands without a prefix. -/
def isMain8 : Z80Reg → Bool
  | .b | .c | .d | .e | .h | .l | .memHL | .a => true
  | _ => false

/-- The load of an 8-bit operand. -/
theorem ld8_legal {prefixByte : Int} (hlead : IsPrefix env prefixByte) {r1 r2 : Z80Reg}
    (h₁ : isMain8 r1 = true) (h₂ : isMain8 r2 = true) (hmem : ¬(r1 = .memHL ∧ r2 = .memHL)) (v : Aint) :
    Legal env (prefixed prefixByte [r2.value + r1.value * 8 + 0x40] ++
      if prefixByte ≠ 0 ∧ (r1 = .memHL ∨ r2 = .memHL) then [lowByte v] else []) := by
  -- without a prefix all three processors have the load; with one it is of a Z80
  rcases hlead with rfl | ⟨rfl | rfl, hcpu⟩
  · have hall : ∀ r1 r2, isMain8 r1 = true → isMain8 r2 = true → Legal env [r2.value + r1.value * 8 + 0x40] := by
      intro r1 r2 h₁ h₂
      cases r1 <;> first
        | exact absurd h₁ (by decide)
        | cases r2 <;> first
          | exact absurd h₂ (by decide)
          | exact legal_all (fun _ => Reads.readable fun _ => rfl) (Reads.readable fun _ => rfl)
              (Reads.readable fun _ => rfl)
    exact hall r1 r2 h₁ h₂
  all_goals
    cases r1 <;> first
      | exact absurd h₁ (by decide)
      | cases r2 <;> first
        | exact absurd h₂ (by decide)
        | exact absurd ⟨rfl, rfl⟩ hmem
        | exact legal_z80 hcpu fun _ => Reads.readable fun _ => rfl

/-- The register pairs of loads. -/
def isPair : Z80Reg → Bool
  | .bc | .de | .hl => true
  | _ => false

/-- The instruction with a prefix or without one. -/
theorem legal_prefixed {prefixByte op : Int} (hlead : IsPrefix env prefixByte) (h : Legal env [op])
    (hindex : ∀ next, Readable (instruction next) (emitted [0xDD, op]) ∧
      Readable (instruction next) (emitted [0xFD, op])) : Legal env (prefixed prefixByte [op]) := by
  rcases hlead with rfl | ⟨rfl | rfl, hcpu⟩
  · exact h
  · exact legal_z80 hcpu fun next => (hindex next).1
  · exact legal_z80 hcpu fun next => (hindex next).2

/-- A code with a prefix has no marker in it. -/
theorem isClean_prefixed {prefixByte op : Int} (hlead : IsPrefix env prefixByte) (hop : 0 ≤ op) :
    IsClean (prefixed prefixByte [op]) := by
  rcases hlead with rfl | ⟨rfl | rfl, -⟩ <;> simp [IsClean, prefixed, ne_markers hop]

/-- A pair copied by its halves. -/
theorem ldHalves_legal {prefixByte : Int} (hlead : IsPrefix env prefixByte) {r1 r2 : Z80Reg}
    (h₁ : isPair r1 = true) (h₂ : isPair r2 = true) :
    Legal env (prefixed prefixByte
        [(getRegister_r16High r2).value + (getRegister_r16High r1).value * 8 + 0x40] ++
      instructionStartMarker :: prefixed prefixByte
        [(getRegister_r16Low r2).value + (getRegister_r16Low r1).value * 8 + 0x40]) := by
  have hhalf : ∀ x y, isMain8 x = true → isMain8 y = true → x ≠ .memHL →
      Legal env (prefixed prefixByte [y.value + x.value * 8 + 0x40]) ∨ y = .memHL := by
    intro x y hx hy hmem
    by_cases hy' : y = .memHL
    · exact Or.inr hy'
    · have h := ld8_legal hlead hx hy (fun h => hmem h.1) 0
      rw [if_neg (by simp [hmem, hy']), List.append_nil] at h
      exact Or.inl h
  -- both halves are plain registers, so that `HALT` is not among the loads
  have hlegal : ∀ half, half = getRegister_r16High ∨ half = getRegister_r16Low →
      Legal env (prefixed prefixByte [(half r2).value + (half r1).value * 8 + 0x40]) ∧
        0 ≤ (half r2).value + (half r1).value * 8 + 0x40 := by
    intro half hhalf'
    rcases hhalf' with rfl | rfl <;> cases r1 <;> first
      | exact absurd h₁ (by decide)
      | cases r2 <;> first
        | exact absurd h₂ (by decide)
        | exact ⟨(hhalf _ _ rfl rfl (by decide)).resolve_right (by decide), by decide⟩
  -- the marker between the loads separates two complete instructions
  obtain ⟨hhigh, hpos⟩ := hlegal _ (Or.inl rfl)
  exact legal_marker _ (isClean_prefixed hlead hpos) hhigh (hlegal _ (Or.inr rfl)).1

/-- A destination that the processor has. -/
structure IsDestination (env : InstructionEnv) (dst : LdDestination) : Prop where
  isPrefix : IsPrefix env dst.prefix1
  register : if dst.eightBit then
      isMain8 dst.r1 = true ∨ ((dst.r1 = .i ∨ dst.r1 = .r) ∧ nonZ80CPU env = false) ∨
        ((dst.r1 = .memHLI ∨ dst.r1 = .memHLD) ∧ env.isLR35902 = true)
    else isPair dst.r1 = true ∨ dst.r1 = .sp

/-- The destination of a load between halves of pairs is one of the processor. -/
theorem ldDestination_has {reg1 : Z80Reg} (hreg : hasRegister env reg1 = true) {dst : LdDestination}
    (h : ldDestination reg1 = some dst) : IsDestination env dst := by
  -- the registers by their prefix; a prefix is of a Z80 only
  cases reg1 with
  | ixh | ixl | iyh | iyl | memIX | memIY =>
    have hcpu : nonZ80CPU env = false := by simpa [hasRegister] using hreg
    obtain rfl := Option.some.inj h
    exact ⟨Or.inr ⟨by simp, hcpu⟩, Or.inl rfl⟩
  | ix | iy =>
    have hcpu : nonZ80CPU env = false := by simpa [hasRegister] using hreg
    obtain rfl := Option.some.inj h
    exact ⟨Or.inr ⟨by simp [Z80Reg.value], hcpu⟩, Or.inl rfl⟩
  | i | r =>
    have hcpu : nonZ80CPU env = false := by simpa [hasRegister] using hreg
    obtain rfl := Option.some.inj h
    exact ⟨Or.inl rfl, Or.inr (Or.inl ⟨by simp, hcpu⟩)⟩
  | memHLI | memHLD =>
    obtain rfl := Option.some.inj h
    exact ⟨Or.inl rfl, Or.inr (Or.inr ⟨by simp, hreg⟩)⟩
  | a | b | c | d | e | h | l | memHL =>
    obtain rfl := Option.some.inj h
    exact ⟨Or.inl rfl, Or.inl rfl⟩
  | bc | de | hl =>
    obtain rfl := Option.some.inj h
    exact ⟨Or.inl rfl, Or.inl rfl⟩
  | sp =>
    obtain rfl := Option.some.inj h
    exact ⟨Or.inl rfl, Or.inr rfl⟩
  | f | af | unk => exact absurd h (by simp [ldDestination])

/-- A source that the processor has, for a destination. -/
def IsSource (env : InstructionEnv) (dst : LdDestination) : LdSource → Prop
  | .resolved e => Legal env e
  | .other => True
  | .register prefix2 r2 => IsPrefix env prefix2 ∧
      if dst.eightBit then isMain8 r2 = true ∧ ¬(dst.r1 = .memHL ∧ r2 = .memHL) ∧
        dst.r1 ≠ .memHLI ∧ dst.r1 ≠ .memHLD
      else isPair r2 = true

theorem ldSource8_has {dst : LdDestination} (hdst : IsDestination env dst) {prefix2 : Int} {r2 : Z80Reg}
    (hlead : IsPrefix env prefix2) (h₂ : isMain8 r2 = true) (hmem : ¬(dst.r1 = .memHL ∧ r2 = .memHL)) :
    IsSource env dst (ldSource8 dst prefix2 r2) := by
  rw [ldSource8]
  split_ifs with hwide hstep ha
  · exact legal_nil
  · have hreg := hdst.register
    simp only [Bool.not_eq_false] at hwide
    rw [if_pos hwide] at hreg
    rcases hstep with h | h <;> rw [h] at hreg ⊢ <;> simp [isMain8] at hreg <;>
      exact legal_sharp hreg (Reads.readable fun _ => rfl)
  · exact legal_nil
  · simp only [not_or] at hstep
    simp only [Bool.not_eq_false] at hwide
    refine ⟨hlead, ?_⟩
    rw [if_pos hwide]
    exact ⟨h₂, hmem, hstep⟩

theorem ldSourceMemory_has {dst : LdDestination} (hdst : IsDestination env dst) {prefix2 : Int}
    (hlead : IsPrefix env prefix2) : IsSource env dst (ldSourceMemory dst prefix2) := by
  rw [ldSourceMemory]
  split_ifs with hmem hpair
  · exact legal_nil
  · trivial
  · exact ldSource8_has hdst hlead rfl fun h => hmem (Or.inl h.1)

theorem ldSource16_has {dst : LdDestination} {prefix2 : Int} {r2 : Z80Reg} (hlead : IsPrefix env prefix2)
    (h₂ : isPair r2 = true) : IsSource env dst (ldSource16 dst prefix2 r2) := by
  rw [ldSource16]
  split_ifs with hwide hmem
  · refine ⟨hlead, ?_⟩
    rw [if_neg (by simp [hwide])]
    exact h₂
  · trivial
  · exact legal_nil

/-- The source fits the destination: a pair to a pair, and not memory to memory. -/
theorem ldSource_has {dst : LdDestination} (hdst : IsDestination env dst) {reg2 : Z80Reg}
    (hreg : hasRegister env reg2 = true) : IsSource env dst (ldSource env dst reg2) := by
  have hnone : IsPrefix env 0 := Or.inl rfl
  -- half of an index register goes to a plain register, and not to `(HL)`
  cases reg2 with
  | ixh | ixl | iyh | iyl =>
    have hcpu : nonZ80CPU env = false := by simpa [hasRegister] using hreg
    rw [ldSource]
    split_ifs with h
    · exact legal_nil
    · simp only [not_or, Bool.not_eq_false] at h
      refine ⟨Or.inr ⟨by simp, hcpu⟩, ?_⟩
      rw [if_pos h.1]
      refine ⟨rfl, fun hmem => h.2 hmem.1, ?_, ?_⟩
      all_goals
        intro hstep
        have hregister := hdst.register
        rw [if_pos h.1, hstep] at hregister
        have hLR := (nonZ80CPU_eq_false hcpu).2
        simp [isMain8, hLR] at hregister
  | i | r =>
    have hcpu : nonZ80CPU env = false := by simpa [hasRegister] using hreg
    rw [ldSource]
    show Legal env (if dst.r1 = .a then _ else [])
    split_ifs <;> first
      | exact legal_nil
      | exact legal_z80 hcpu fun _ => Reads.readable fun _ => rfl
  | memIX | memIY =>
    have hcpu : nonZ80CPU env = false := by simpa [hasRegister] using hreg
    exact ldSourceMemory_has hdst (Or.inr ⟨by simp [Z80Reg.indexed], hcpu⟩)
  | memHL => exact ldSourceMemory_has hdst hnone
  | a | b | c | d | e | h | l => exact ldSource8_has hdst hnone rfl (by simp)
  -- a pair goes to a pair, `HL` also to `SP`
  | ix | iy =>
    have hcpu : nonZ80CPU env = false := by simpa [hasRegister] using hreg
    exact ldSource16_has (Or.inr ⟨by simp [Z80Reg.value], hcpu⟩) rfl
  | bc | de => exact ldSource16_has hnone rfl
  | hl =>
    rw [ldSource]
    split_ifs with hmem hwide
    · trivial
    · refine ⟨hnone, ?_⟩
      rw [if_neg (by simp [hwide])]
      rfl
    · exact legal_nil
  | sp =>
    rw [ldSource]
    split_ifs
    · trivial
    · exact legal_nil
  | af | f => exact legal_nil
  | memHLI | memHLD =>
    show Legal env (if dst.r1 = .a then _ else [])
    split_ifs
    · exact legal_sharp hreg (Reads.readable fun _ => rfl)
    · exact legal_nil
  | unk => trivial

/-- A load between registers, with the prefix of the one or of the other. -/
theorem ldRegisters_legal {dst : LdDestination} (hdst : IsDestination env dst) {prefix2 : Int}
    {r2 : Z80Reg}
    (hsource : IsSource env dst (.register prefix2 r2)) (v : Aint) :
    Yields (ldRegisters env dst prefix2 r2 (lowByte v)) (Legal env) := by
  obtain ⟨hlead1, hreg⟩ := hdst
  obtain ⟨hlead2, hr2⟩ := hsource
  -- at most one side has a prefix, and that one is emitted
  have hchoice : IsPrefix env (if prefix2 ≠ 0 then prefix2 else dst.prefix1) := by
    split_ifs
    · exact hlead2
    · exact hlead1
  refine Yields.ite (fun hspecial => Yields.pure ?_) fun hspecial =>
    Yields.ite (fun hsp => Yields.pure ?_) fun hsp => Yields.ite (fun hwide => ?_) fun hwide =>
      Yields.ite (fun _ => Yields.pure legal_nil) fun _ => Yields.pure ?_
  · -- `I` and `R`
    have hcpu : nonZ80CPU env = false := by
      rcases hspecial with h | h <;> rw [h] at hreg <;> split_ifs at hreg <;> simp [isMain8, isPair] at hreg <;>
        exact hreg
    split_ifs <;> first
      | exact legal_nil
      | exact legal_z80 hcpu fun _ => Reads.readable fun _ => rfl
  · split_ifs
    · apply legal_prefixed hlead2
      · exact legal_all (fun _ => Reads.readable fun _ => rfl) (Reads.readable fun _ => rfl)
          (Reads.readable fun _ => rfl)
      · exact fun _ => ⟨Reads.readable fun _ => rfl, Reads.readable fun _ => rfl⟩
    · exact legal_nil
  · rw [if_neg (by simp [hwide])] at hreg hr2
    have hpair := hreg.resolve_right hsp
    refine Yields.ite (fun _ => fake_legal fun _ => ?_) fun _ => fake_legal fun _ => ?_
    · -- through the stack
      apply legal_marker _ (isClean_prefixed hlead2 (by decide))
      · apply legal_prefixed hlead2
        · exact legal_all (fun _ => Reads.readable fun _ => rfl) (Reads.readable fun _ => rfl)
            (Reads.readable fun _ => rfl)
        · exact fun _ => ⟨Reads.readable fun _ => rfl, Reads.readable fun _ => rfl⟩
      · apply legal_prefixed hlead1
        · exact legal_all (fun _ => Reads.readable fun _ => rfl) (Reads.readable fun _ => rfl)
            (Reads.readable fun _ => rfl)
        · exact fun _ => ⟨Reads.readable fun _ => rfl, Reads.readable fun _ => rfl⟩
    · exact ldHalves_legal hchoice hpair hr2
  · rw [if_pos (by simpa using hwide)] at hreg hr2
    have hmain : isMain8 dst.r1 = true := by
      rcases hreg with h | ⟨h, -⟩ | ⟨h, -⟩
      · exact h
      · exact absurd h hspecial
      · exact absurd h (not_or.mpr hr2.2.2)
    exact ld8_legal hchoice hmain hr2.1 hr2.2.1 v

/-- What `LD_simple_r_r` returns: numbers, or a displacement. -/
def SimpleLegal (env : InstructionEnv) : Except (Option Int) (List Int) → Prop
  | .ok e => Legal env e
  | .error d => IsByte d

theorem ld_simple_r_r_legal {reg1 : Z80Reg} (hreg : hasRegister env reg1 = true) {d : Option Int}
    (hd : IsByte d) : Yields (ld_simple_r_r env reg1 d) (SimpleLegal env) := by
  rw [ld_simple_r_r]
  cases hdst : ldDestination reg1 with
  | none => exact Yields.pure hd
  | some dst =>
    have hdestination := ldDestination_has hreg hdst
    refine Yields.after _ fun _ => Yields.ite (fun _ => ?_) fun _ => Yields.pure legal_nil
    refine Yields.after _ fun olp => Yields.bind (getRegister_has env) ?_
    rintro ⟨r2, d'⟩ ⟨hr2, hd'⟩
    have hbyte := hd'.or hd
    have hsource := ldSource_has hdestination hr2
    dsimp only at hsource ⊢
    -- the source has decided, it is left to the general case, or both registers are known
    cases hs : ldSource env dst r2 with
    | resolved e =>
      rw [hs] at hsource
      exact Yields.pure hsource
    | other => exact Yields.after _ fun _ => Yields.pure hbyte
    | register prefix2 r2 =>
      rw [hs] at hsource
      obtain ⟨v, hv⟩ := hbyte.getD
      refine Yields.bind ?_ fun e he => Yields.pure he
      rw [hv]
      exact ldRegisters_legal hdestination hsource v

/-! ### Loads with values -/

theorem ldAMemory_legal (bt : EBracketType) (b : Aint) : Yields (ldAMemory env bt b) (Legal env) := by
  refine Yields.ite (fun hLR => Yields.pure ?_) fun hLR => Yields.after _ fun _ => Yields.pure ?_
  · split_ifs <;> exact legal_sharp hLR (Reads.readable fun _ => rfl)
  · exact legal_not_sharp (by simpa using hLR) (fun _ => Reads.readable fun _ => rfl)
      (Reads.readable fun _ => rfl)

theorem ldAValue_legal (bt : EBracketType) : Yields (ldAValue env bt) (Legal env) := by
  refine Yields.after _ ?_
  rintro ⟨result, b⟩
  match result with
  | 1 =>
    exact Yields.after _ fun _ => Yields.pure (legal_all (fun _ => Reads.readable fun _ => rfl)
      (Reads.readable fun _ => rfl) (Reads.readable fun _ => rfl))
  | 2 => exact Yields.after _ fun _ => ldAMemory_legal bt b
  | 0 | _ + 3 => exact Yields.pure legal_nil

/-- Loads of `A`, which has more addresses than the other registers. -/
theorem ldA_legal : Yields (ldA env) (Legal env) := by
  refine Yields.after _ fun old => Yields.after _ fun bt => ?_
  cases bt with
  | none => exact ldAValue_legal .none
  | _ =>
    refine Yields.after _ ?_
    rintro ⟨reg2, d⟩
    cases reg2 with
    | unk => exact Yields.after _ fun _ => Yields.after _ fun _ => ldAValue_legal _
    | bc | de =>
      apply emitIf_legal
      exact legal_all (fun _ => Reads.readable fun _ => rfl) (Reads.readable fun _ => rfl)
        (Reads.readable fun _ => rfl)
    | c =>
      refine Yields.ite (fun hLR => emitIf_legal _ ?_) fun _ => Yields.pure legal_nil
      exact legal_sharp hLR (Reads.readable fun _ => rfl)
    | _ => exact Yields.pure legal_nil

/-- Four instructions, the second and the fourth with one byte. -/
theorem legal_four (hcpu : nonZ80CPU env = false) {a b c d : Int}
    (ha : IsClean [a] ∧ ∀ next, Readable (instruction next) (emitted [a]))
    (hb : IsClean [b] ∧ ∀ next, Readable (instruction next) (emitted [b]))
    (hc : IsClean [c] ∧ ∀ next, Readable (instruction next) (emitted [c]))
    (hd : ∀ next, Readable (instruction next) (emitted [d])) :
    Legal env [a, instructionStartMarker, b, instructionStartMarker, c, instructionStartMarker, d] := by
  apply legal_marker [a] ha.1 (legal_z80 hcpu ha.2)
  apply legal_marker [b] hb.1 (legal_z80 hcpu hb.2)
  exact legal_marker [c] hc.1 (legal_z80 hcpu hc.2) (legal_z80 hcpu hd)

/-- Loads to the memory at `HL`. -/
theorem ldMemHL_legal : Yields (ldMemHL env) (Legal env) := by
  refine Yields.after _ ?_
  rintro ⟨reg2, d⟩
  cases reg2 with
  | bc | de =>
    apply fake_legal
    intro hcpu
    exact legal_four hcpu
      ⟨by simp [IsClean, getRegister_r16Low, Z80Reg.value], fun _ => Reads.readable fun _ => rfl⟩
      ⟨by simp [IsClean], fun _ => Reads.readable fun _ => rfl⟩
      ⟨by simp [IsClean, getRegister_r16High, Z80Reg.value], fun _ => Reads.readable fun _ => rfl⟩
      fun _ => Reads.readable fun _ => rfl
  | unk =>
    refine Yields.bind (getByteNoMem_isLowByte false) ?_
    rintro _ ⟨v, rfl⟩
    exact Yields.pure (legal_all (fun _ => Reads.readable fun _ => rfl) (Reads.readable fun _ => rfl)
      (Reads.readable fun _ => rfl))
  | _ => exact Yields.pure legal_nil

theorem nextDisplacement_legal {d : Int} {e : List Int} (h : Legal env e) :
    Yields (nextDisplacement d e) (Legal env) :=
  Yields.ite (fun _ => Yields.after _ fun _ => Yields.pure legal_nil) fun _ => Yields.pure h

/-- Two instructions with an index register and its displacement. -/
theorem legal_indexed (hcpu : nonZ80CPU env = false) {prefixByte op op' d d' : Int}
    (hclean : IsClean [prefixByte, op, d])
    (h : ∀ next, Readable (instruction next) (emitted [prefixByte, op, d]))
    (h' : ∀ next, Readable (instruction next) (emitted [prefixByte, op', d'])) :
    Legal env [prefixByte, op, d, instructionStartMarker, prefixByte, op', d'] :=
  legal_marker [prefixByte, op, d] hclean (legal_z80 hcpu h) (legal_z80 hcpu h')

/-- Fakes are enabled only for the Z80. -/
theorem cpu_of_fakes (hfakes : fakesDisabled env = false) : nonZ80CPU env = false := by
  simp [fakesDisabled] at hfakes
  simp [nonZ80CPU, hfakes]

/-- Numbers of a fake instruction behind `noFakes`. -/
theorem noFakes_legal {x : Reader (List Int)} (h : nonZ80CPU env = false → Yields x (Legal env)) :
    Yields (do if ← noFakes env then pure [] else x) (Legal env) := by
  have hvalue : Yields (noFakes env) fun disabled => disabled = fakesDisabled env :=
    Yields.after _ fun _ => Yields.pure rfl
  refine Yields.bind hvalue ?_
  rintro disabled rfl
  refine Yields.ite (fun _ => Yields.pure legal_nil) fun hfakes => h (cpu_of_fakes ?_)
  simpa using hfakes

theorem ldMemIndexed_legal (hcpu : nonZ80CPU env = false) {prefix1 : Int}
    (hlead : prefix1 = 0xDD ∨ prefix1 = 0xFD) {d : Int} (hd : IsLowByte d) :
    Yields (ldMemIndexed env prefix1 d) (Legal env) := by
  obtain ⟨v, rfl⟩ := hd
  refine Yields.after _ ?_
  rintro ⟨reg2, d⟩
  -- a pair is two stores, the second one at the next displacement
  cases reg2 with
  | bc | de | hl =>
    apply noFakes_legal
    intro _
    apply nextDisplacement_legal
    rcases hlead with rfl | rfl <;>
      exact legal_indexed hcpu (by simp [IsClean, getRegister_r16Low, Z80Reg.value])
        (fun _ => Reads.readable fun _ => rfl) fun _ => Reads.readable fun _ => rfl
  | unk =>
    refine Yields.bind (getByteNoMem_isLowByte false) ?_
    rintro _ ⟨w, rfl⟩
    apply Yields.pure
    rcases hlead with rfl | rfl <;> exact legal_z80 hcpu fun _ => Reads.readable fun _ => rfl
  | _ => exact Yields.pure legal_nil

theorem ldHlSp_legal (hLR : env.isLR35902 = true) : Yields (ldHlSp env) (Legal env) := by
  refine Yields.after _ fun _ => Yields.after _ fun lp => Yields.ite (fun _ => Yields.ite (fun _ => ?_)
    fun _ => ?_) fun _ => ?_
  · exact Yields.after _ fun _ => Yields.pure legal_nil
  · refine Yields.bind (getByteNoMem_isLowByte true) ?_
    rintro _ ⟨v, rfl⟩
    exact Yields.pure (legal_sharp hLR (Reads.readable fun _ => rfl))
  · exact Yields.pure (legal_sharp hLR (Reads.readable fun _ => rfl))

/-- The destinations of 16-bit loads. -/
def isLdR16 : Z80Reg → Bool
  | .bc | .de | .hl | .sp => true
  | _ => false

theorem ldR16Value_legal {reg1 : Z80Reg} (hreg : isLdR16 reg1 = true) :
    Yields (ldR16Value env reg1) (Legal env) := by
  refine Yields.after _ fun old => Yields.after _ ?_
  rintro ⟨result, b⟩
  -- a value, or an address in brackets
  match result with
  | 1 =>
    refine Yields.after _ fun _ => Yields.pure ?_
    cases reg1 <;> first
      | exact absurd hreg (by decide)
      | exact legal_all (fun _ => Reads.readable fun _ => rfl) (Reads.readable fun _ => rfl)
          (Reads.readable fun _ => rfl)
  | 2 =>
    refine Yields.ite (fun _ => Yields.pure legal_nil) fun hLR => Yields.after _ fun _ =>
      Yields.after _ fun lp => Yields.ite (fun _ => Yields.pure legal_nil) fun hmode =>
        Yields.after _ fun _ => Yields.pure ?_
    split_ifs with hhl
    · exact legal_not_sharp (by simpa using hLR) (fun _ => Reads.readable fun _ => rfl)
        (Reads.readable fun _ => rfl)
    · -- only the Z80 loads the other pairs from memory
      have hcpu : nonZ80CPU env = false := by
        have hI : env.isI8080 = false := by
          simp only [not_and, Bool.not_eq_true] at hmode
          exact hmode hhl
        simp only [Bool.not_eq_true] at hLR
        simp [nonZ80CPU, hI, hLR]
      cases reg1 <;> first
        | exact absurd hreg (by decide)
        | exact absurd rfl hhl
        | exact legal_z80 hcpu fun _ => Reads.readable fun _ => rfl
  | 0 | _ + 3 => exact Yields.pure legal_nil

/-- Loads of a pair from a value, from the memory, or from another pair by halves. -/
theorem ldR16_legal {reg1 : Z80Reg}
    (hreg : isLdR16 reg1 = true) : Yields (ldR16 env reg1) (Legal env) := by
  refine Yields.bind (getRegister_has env) ?_
  rintro ⟨reg2, d⟩ ⟨hreg2, hd⟩
  obtain ⟨v, hv⟩ := hd.getD
  -- from `(HL)` the pair is loaded in four instructions, from an index register in two
  cases reg2 with
  | memHL =>
    apply fake_legal
    intro hcpu
    cases reg1 <;> first
      | exact absurd hreg (by decide)
      | exact legal_four hcpu ⟨by simp [IsClean, Z80Reg.value], fun _ => Reads.readable fun _ => rfl⟩
          ⟨by simp [IsClean], fun _ => Reads.readable fun _ => rfl⟩
          ⟨by simp [IsClean, Z80Reg.value], fun _ => Reads.readable fun _ => rfl⟩
          fun _ => Reads.readable fun _ => rfl
  | memIX | memIY =>
    have hcpu : nonZ80CPU env = false := by simpa [hasRegister] using hreg2
    refine Yields.ite (fun _ => Yields.pure legal_nil) fun hsp => noFakes_legal fun _ => ?_
    rw [hv]
    apply nextDisplacement_legal
    cases reg1 <;> first
      | exact absurd hreg (by decide)
      | exact absurd rfl hsp
      | exact legal_indexed hcpu (by simp [IsClean, Z80Reg.indexed, Z80Reg.value])
          (fun _ => Reads.readable fun _ => rfl) fun _ => Reads.readable fun _ => rfl
  | sp => exact Yields.ite (fun h => ldHlSp_legal h.1) fun _ => Yields.pure legal_nil
  | unk => exact ldR16Value_legal hreg
  | _ => exact Yields.pure legal_nil

theorem ldIndex_legal (hcpu : nonZ80CPU env = false) {reg1 : Z80Reg} (hreg : reg1 = .ix ∨ reg1 = .iy) :
    Yields (ldIndex env reg1) (Legal env) := by
  refine Yields.after _ fun old => Yields.after _ ?_
  rintro ⟨result, b⟩
  cases result with
  | zero => exact Yields.pure legal_nil
  | succ result =>
    refine Yields.after _ fun _ => Yields.after _ fun _ => Yields.after _ fun _ => Yields.pure ?_
    split_ifs <;> rcases hreg with rfl | rfl <;> exact legal_z80 hcpu fun _ => Reads.readable fun _ => rfl

theorem ldToMemory_legal (reg1 : Z80Reg) {reg2 : Z80Reg} (hreg2 : hasRegister env reg2 = true)
    (b : Aint) :
    Legal env (ldToMemory env reg1 reg2 b) := by
  -- by the register that holds the address; `unk` is an address in the text
  cases reg1 with
  | c =>
    rw [ldToMemory]
    split_ifs with h
    · exact legal_sharp h.1 (Reads.readable fun _ => rfl)
    · exact legal_nil
  | bc | de =>
    rw [ldToMemory]
    split_ifs
    · exact legal_all (fun _ => Reads.readable fun _ => rfl) (Reads.readable fun _ => rfl)
        (Reads.readable fun _ => rfl)
    · exact legal_nil
  | unk =>
    show Legal env (if env.isLR35902 then ld_LR35902 reg2 b else _)
    -- the LR35902 has its own stores, the others differ in the pairs
    by_cases hLR : env.isLR35902 = true
    · rw [if_pos hLR, ld_LR35902]
      split_ifs <;> first
        | exact legal_nil
        | exact legal_sharp hLR (Reads.readable fun _ => rfl)
    · rw [if_neg hLR]
      simp only [Bool.not_eq_true] at hLR
      cases reg2 with
      | a | hl =>
        exact legal_not_sharp hLR (fun _ => Reads.readable fun _ => rfl) (Reads.readable fun _ => rfl)
      | bc | de | sp =>
        show Legal env (if env.isI8080 then [] else _)
        split_ifs with hI
        · exact legal_nil
        · have hcpu : nonZ80CPU env = false := by simpa [nonZ80CPU, hLR] using hI
          exact legal_z80 hcpu fun _ => Reads.readable fun _ => rfl
      | ix | iy =>
        have hcpu : nonZ80CPU env = false := by simpa [hasRegister] using hreg2
        exact legal_z80 hcpu fun _ => Reads.readable fun _ => rfl
      | _ => exact legal_nil
  | _ => exact legal_nil

/-- Loads to a memory address. -/
theorem ldMemory_legal : Yields (ldMemory env) (Legal env) := by
  refine Yields.after _ fun bt => ?_
  cases bt with
  | none => exact Yields.pure legal_nil
  | _ =>
    refine Yields.after _ fun result => Yields.after _ fun b => Yields.after _ fun found =>
      Yields.ite (fun _ => ?_) fun _ => Yields.pure legal_nil
    exact Yields.bind (getRegister_has env) fun result' h => Yields.pure (ldToMemory_legal result.1 h.1 b)

theorem ldOther_legal {reg1 : Z80Reg} (hreg : hasRegister env reg1 = true) {d : Option Int}
    (hd : IsByte d) :
    Yields (ldOther env reg1 d) (Legal env) := by
  obtain ⟨v, hv⟩ := hd.getD
  -- the destinations of the general case, each with its own kind of sources
  cases reg1 with
  | a => exact ldA_legal
  | b | c | d | e | h | l =>
    refine Yields.bind (getByteNoMem_isLowByte false) ?_
    rintro _ ⟨w, rfl⟩
    exact Yields.pure (legal_all (fun _ => Reads.readable fun _ => rfl) (Reads.readable fun _ => rfl)
      (Reads.readable fun _ => rfl))
  | memHL => exact ldMemHL_legal
  | memIX | memIY =>
    have hcpu : nonZ80CPU env = false := by simpa [hasRegister] using hreg
    exact ldMemIndexed_legal hcpu (by simp) ⟨v, hv⟩
  | ixh | ixl | iyh | iyl =>
    have hcpu : nonZ80CPU env = false := by simpa [hasRegister] using hreg
    refine Yields.bind (getByteNoMem_isLowByte false) ?_
    rintro _ ⟨w, rfl⟩
    exact Yields.pure (legal_z80 hcpu fun _ => Reads.readable fun _ => rfl)
  | bc | de | hl | sp => exact ldR16_legal rfl
  | ix | iy =>
    have hcpu : nonZ80CPU env = false := by simpa [hasRegister] using hreg
    exact ldIndex_legal hcpu (by simp)
  | unk => exact ldMemory_legal
  | _ => exact Yields.pure legal_nil

/-- **`LD`**: one case for each register that the destination may be. -/
theorem ld_legal : Yields (ld env) (Legal env) := by
  refine Yields.bind (getRegister_has env) ?_
  rintro ⟨reg1, d⟩ ⟨hreg, hd⟩
  refine Yields.ite (fun _ => ldOther_legal rfl hd) fun _ => ?_
  refine Yields.bind (ld_simple_r_r_legal hreg hd) fun result hresult => ?_
  cases result with
  | ok e => exact Yields.pure hresult
  | error d => exact ldOther_legal hreg hresult

/-! ### Loads with steps -/

theorem warnFake_legal {e : List Int} (h : Legal env e) : Yields (warnFake env e) (Legal env) :=
  Yields.after _ fun _ => Yields.pure h

theorem z80GetIDxoffset_isLowByte : Yields (z80GetIDxoffset env) IsLowByte :=
  Yields.after _ fun _ => Yields.ite (fun _ => Yields.pure (isLowByte_lowByte 0)) fun _ =>
    getByte_isLowByte true

section Step

variable (hcpu : nonZ80CPU env = false)
include hcpu

/-- A load and a step. -/
theorem legal_step (e : List Int) {e' : List Int} (he : IsClean e)
    (h : ∀ next, Readable (instruction next) (emitted e))
    (h' : ∀ next, Readable (instruction next) (emitted e')) :
    Legal env (e ++ instructionStartMarker :: e') :=
  legal_marker e he (legal_z80 hcpu h) (legal_z80 hcpu h')

/-- A word by two loads with steps. -/
theorem legal_steps (e₁ e₂ e₃ : List Int) {e₄ : List Int} (h₁ : IsClean e₁) (h₂ : IsClean e₂)
    (h₃ : IsClean e₃) (h : ∀ next, Readable (instruction next) (emitted e₁) ∧
      Readable (instruction next) (emitted e₂) ∧ Readable (instruction next) (emitted e₃) ∧
      Readable (instruction next) (emitted e₄)) :
    Legal env (e₁ ++ instructionStartMarker :: (e₂ ++ instructionStartMarker ::
      (e₃ ++ instructionStartMarker :: e₄))) := by
  apply legal_marker e₁ h₁ (legal_z80 hcpu fun next => (h next).1)
  apply legal_marker e₂ h₂ (legal_z80 hcpu fun next => (h next).2.1)
  exact legal_step hcpu e₃ h₃ (fun next => (h next).2.2.1) fun next => (h next).2.2.2

variable {pairStep hlStep : Int} (hstep : (pairStep = -13 ∧ hlStep = 0x23) ∨ (pairStep = -5 ∧ hlStep = 0x2B))
include hstep

/-- `LDI A, (..)` and `LDD A, (..)`. -/
theorem stepA_legal : Yields (stepA env pairStep hlStep) (Legal env) := by
  refine Yields.after _ fun _ => Yields.ite (fun _ => Yields.after _ fun bt => ?_) fun _ =>
    Yields.pure legal_nil
  cases bt with
  | none => exact Yields.pure legal_nil
  | _ =>
    refine Yields.after _ fun _ => Yields.after _ ?_
    rintro ⟨reg, d⟩
    -- `BC` and `DE` step by themselves, `HL` and the index registers by their own opcodes
    cases reg with
    | bc | de =>
      apply emitIf_legal
      rcases hstep with ⟨rfl, rfl⟩ | ⟨rfl, rfl⟩ <;>
        exact legal_step hcpu [_] (by simp [IsClean, Z80Reg.value]) (fun _ => Reads.readable fun _ => rfl)
          fun _ => Reads.readable fun _ => rfl
    | hl =>
      apply emitIf_legal
      rcases hstep with ⟨rfl, rfl⟩ | ⟨rfl, rfl⟩ <;>
        exact legal_step hcpu [_] (by simp [IsClean]) (fun _ => Reads.readable fun _ => rfl)
          fun _ => Reads.readable fun _ => rfl
    | ix | iy =>
      refine Yields.bind z80GetIDxoffset_isLowByte ?_
      rintro _ ⟨v, rfl⟩
      apply emitIf_legal
      rcases hstep with ⟨rfl, rfl⟩ | ⟨rfl, rfl⟩ <;>
        exact legal_step hcpu [_, _, _] (by simp [IsClean, Z80Reg.value])
          (fun _ => Reads.readable fun _ => rfl) fun _ => Reads.readable fun _ => rfl
    | _ => exact Yields.pure legal_nil

theorem stepMemHL_legal (reg2 : Z80Reg) : Yields (stepMemHL env hlStep reg2) (Legal env) := by
  cases reg2 with
  | a | b | c | d | e | h | l =>
    apply warnFake_legal
    rcases hstep with ⟨rfl, rfl⟩ | ⟨rfl, rfl⟩ <;>
      exact legal_step hcpu [_] (by simp [IsClean, Z80Reg.value]) (fun _ => Reads.readable fun _ => rfl)
        fun _ => Reads.readable fun _ => rfl
  | unk =>
    refine Yields.after _ fun _ => Yields.bind (getByteNoMem_isLowByte false) ?_
    rintro _ ⟨v, rfl⟩
    apply Yields.pure
    rcases hstep with ⟨rfl, rfl⟩ | ⟨rfl, rfl⟩ <;>
      exact legal_step hcpu [_, _] (by simp [IsClean]) (fun _ => Reads.readable fun _ => rfl)
        fun _ => Reads.readable fun _ => rfl
  | _ => exact Yields.pure legal_nil

theorem stepMemIndexed_legal {prefix1 : Int} (hlead : prefix1 = 0xDD ∨ prefix1 = 0xFD) (v : Aint)
    (reg2 : Z80Reg) : Yields (stepMemIndexed env hlStep prefix1 (lowByte v) reg2) (Legal env) := by
  cases reg2 with
  | a | b | c | d | e | h | l =>
    apply warnFake_legal
    rcases hlead with rfl | rfl <;> rcases hstep with ⟨rfl, rfl⟩ | ⟨rfl, rfl⟩ <;>
      exact legal_step hcpu [_, _, _] (by simp [IsClean, Z80Reg.value])
        (fun _ => Reads.readable fun _ => rfl) fun _ => Reads.readable fun _ => rfl
  | unk =>
    refine Yields.after _ fun _ => Yields.bind (getByteNoMem_isLowByte false) ?_
    rintro _ ⟨w, rfl⟩
    apply Yields.pure
    rcases hlead with rfl | rfl <;> rcases hstep with ⟨rfl, rfl⟩ | ⟨rfl, rfl⟩ <;>
      exact legal_step hcpu [_, _, _, _] (by simp [IsClean])
        (fun _ => Reads.readable fun _ => rfl) fun _ => Reads.readable fun _ => rfl
  | _ => exact Yields.pure legal_nil

/-- Without operands the step is an instruction of its own. -/
theorem stepDefault_legal {regular : List Int} (hregular : Legal env regular) :
    Yields (stepDefault env pairStep regular) (Legal env) := by
  refine Yields.after _ fun bt => ?_
  cases bt with
  | none => exact Yields.pure hregular
  | _ =>
    refine Yields.after _ ?_
    rintro ⟨reg, d⟩
    refine Yields.after _ fun _ => Yields.ite (fun _ => ?_) fun _ => Yields.pure legal_nil
    cases reg with
    | bc | de =>
      refine Yields.after _ fun _ => Yields.ite (fun _ => warnFake_legal ?_) fun _ => Yields.pure legal_nil
      rcases hstep with ⟨rfl, rfl⟩ | ⟨rfl, rfl⟩ <;>
        exact legal_step hcpu [_] (by simp [IsClean, Z80Reg.value]) (fun _ => Reads.readable fun _ => rfl)
          fun _ => Reads.readable fun _ => rfl
    | _ => exact Yields.pure legal_nil

end Step

section Step

variable (hcpu : nonZ80CPU env = false)
include hcpu

/-- The 8-bit registers that `LDI` and `LDD` load. -/
def isStepR8 : Z80Reg → Bool
  | .b | .c | .d | .e | .h | .l => true
  | _ => false

theorem ldiR8_legal {reg : Z80Reg} (hreg : isStepR8 reg = true) : Yields (ldiR8 env reg) (Legal env) := by
  refine Yields.after _ fun _ => Yields.ite (fun _ => Yields.after _ fun bt => ?_) fun _ =>
    Yields.pure legal_nil
  cases bt with
  | none => exact Yields.pure legal_nil
  | _ =>
    refine Yields.after _ fun _ => Yields.after _ ?_
    rintro ⟨reg2, d⟩
    -- the load, and then the step of the pair that was read through
    cases reg2 with
    | hl =>
      apply emitIf_legal
      cases reg <;> first
        | exact absurd hreg (by decide)
        | exact legal_step hcpu [_] (by simp [IsClean, Z80Reg.value]) (fun _ => Reads.readable fun _ => rfl)
            fun _ => Reads.readable fun _ => rfl
    | ix | iy =>
      refine Yields.bind z80GetIDxoffset_isLowByte ?_
      rintro _ ⟨v, rfl⟩
      apply emitIf_legal
      cases reg <;> first
        | exact absurd hreg (by decide)
        | exact legal_step hcpu [_, _, _] (by simp [IsClean, Z80Reg.value])
            (fun _ => Reads.readable fun _ => rfl) fun _ => Reads.readable fun _ => rfl
    | _ => exact Yields.pure legal_nil

theorem ldiR16_legal {reg : Z80Reg} (hreg : isPair reg = true) : Yields (ldiR16 env reg) (Legal env) := by
  refine Yields.after _ fun _ => Yields.ite (fun _ => Yields.bind (getRegister_has env) ?_) fun _ =>
    Yields.pure legal_nil
  rintro ⟨reg2, d⟩ ⟨-, hd⟩
  obtain ⟨v, hv⟩ := hd.getD
  -- two loads with a step behind each: from `(HL)`, or at two displacements
  cases reg2 with
  | memHL =>
    refine Yields.ite (fun _ => Yields.pure legal_nil) fun _ => warnFake_legal ?_
    cases reg <;> first
      | exact absurd hreg (by decide)
      | exact legal_steps hcpu [_] [_] [_] (by simp [IsClean, Z80Reg.value]) (by simp [IsClean])
          (by simp [IsClean, Z80Reg.value]) fun _ => ⟨Reads.readable fun _ => rfl,
            Reads.readable fun _ => rfl, Reads.readable fun _ => rfl, Reads.readable fun _ => rfl⟩
  | memIX | memIY =>
    apply warnFake_legal
    rw [hv]
    cases reg <;> first
      | exact absurd hreg (by decide)
      | exact legal_steps hcpu [_, _, _] [_, _] [_, _, _] (by simp [IsClean, Z80Reg.indexed, Z80Reg.value])
          (by simp [IsClean, Z80Reg.indexed]) (by simp [IsClean, Z80Reg.indexed, Z80Reg.value])
          fun _ => ⟨Reads.readable fun _ => rfl, Reads.readable fun _ => rfl,
            Reads.readable fun _ => rfl, Reads.readable fun _ => rfl⟩
  | _ => exact Yields.pure legal_nil

theorem ldiMemHL_legal : Yields (ldiMemHL env) (Legal env) := by
  refine Yields.after _ fun _ => Yields.ite (fun _ => Yields.after _ ?_) fun _ => Yields.pure legal_nil
  rintro ⟨reg2, d⟩
  cases reg2 with
  | bc | de =>
    apply warnFake_legal
    exact legal_steps hcpu [_] [_] [_] (by simp [IsClean, getRegister_r16Low, Z80Reg.value])
      (by simp [IsClean]) (by simp [IsClean, getRegister_r16High, Z80Reg.value])
      fun _ => ⟨Reads.readable fun _ => rfl, Reads.readable fun _ => rfl,
        Reads.readable fun _ => rfl, Reads.readable fun _ => rfl⟩
  | _ => exact stepMemHL_legal hcpu (Or.inl ⟨rfl, rfl⟩) _

theorem ldiMemIndexed_legal {prefix1 : Int} (hlead : prefix1 = 0xDD ∨ prefix1 = 0xFD) {d : Option Int}
    (hd : IsByte d) : Yields (ldiMemIndexed env prefix1 d) (Legal env) := by
  refine Yields.after _ fun _ => Yields.ite (fun _ => Yields.bind (getRegister_has env) ?_) fun _ =>
    Yields.pure legal_nil
  rintro ⟨reg2, d'⟩ ⟨-, hd'⟩
  obtain ⟨v, hv⟩ := (hd'.or hd).getD
  simp only [hv]
  cases reg2 with
  | bc | de | hl =>
    apply warnFake_legal
    rcases hlead with rfl | rfl <;>
      exact legal_steps hcpu [_, _, _] [_, _] [_, _, _]
        (by simp [IsClean, getRegister_r16Low, Z80Reg.value]) (by simp [IsClean])
        (by simp [IsClean, getRegister_r16High, Z80Reg.value])
        fun _ => ⟨Reads.readable fun _ => rfl, Reads.readable fun _ => rfl,
          Reads.readable fun _ => rfl, Reads.readable fun _ => rfl⟩
  | _ => exact stepMemIndexed_legal hcpu (Or.inl ⟨rfl, rfl⟩) hlead v _

/-- `LDI` with operands is a load and a step of the pair upwards. -/
theorem ldi_legal : Yields (ldi env) (Legal env) := by
  refine Yields.bind (getRegister_has env) ?_
  rintro ⟨reg, d⟩ ⟨-, hd⟩
  cases reg with
  | a => exact stepA_legal hcpu (Or.inl ⟨rfl, rfl⟩)
  | b | c | d | e | h | l => exact ldiR8_legal hcpu rfl
  | bc | de | hl => exact ldiR16_legal hcpu rfl
  | memHL => exact ldiMemHL_legal hcpu
  | memIX => exact ldiMemIndexed_legal hcpu (Or.inl rfl) hd
  | memIY => exact ldiMemIndexed_legal hcpu (Or.inr rfl) hd
  | _ =>
    apply stepDefault_legal hcpu (Or.inl ⟨rfl, rfl⟩)
    exact legal_z80 hcpu fun _ => Reads.readable fun _ => rfl

theorem lddR8_legal {reg : Z80Reg} (hreg : isStepR8 reg = true) : Yields (lddR8 env reg) (Legal env) := by
  refine Yields.after _ fun _ => Yields.ite (fun _ => Yields.bind (getRegister_has env) ?_) fun _ =>
    Yields.pure legal_nil
  rintro ⟨reg2, d⟩ ⟨-, hd⟩
  obtain ⟨v, hv⟩ := hd.getD
  -- the step goes back, so that the operand is read with its brackets at once
  cases reg2 with
  | memHL =>
    apply warnFake_legal
    cases reg <;> first
      | exact absurd hreg (by decide)
      | exact legal_step hcpu [_] (by simp [IsClean, Z80Reg.value]) (fun _ => Reads.readable fun _ => rfl)
          fun _ => Reads.readable fun _ => rfl
  | memIX | memIY =>
    apply warnFake_legal
    rw [hv]
    cases reg <;> first
      | exact absurd hreg (by decide)
      | exact legal_step hcpu [_, _, _] (by simp [IsClean, Z80Reg.indexed, Z80Reg.value])
          (fun _ => Reads.readable fun _ => rfl) fun _ => Reads.readable fun _ => rfl
  | _ => exact Yields.pure legal_nil

theorem lddMemHL_legal : Yields (lddMemHL env) (Legal env) := by
  refine Yields.after _ fun _ => Yields.ite (fun _ => Yields.after _ fun result => ?_) fun _ =>
    Yields.pure legal_nil
  exact stepMemHL_legal hcpu (Or.inr ⟨rfl, rfl⟩) result.1

theorem lddMemIndexed_legal {prefix1 : Int} (hlead : prefix1 = 0xDD ∨ prefix1 = 0xFD) {d : Option Int}
    (hd : IsByte d) : Yields (lddMemIndexed env prefix1 d) (Legal env) := by
  refine Yields.after _ fun _ => Yields.ite (fun _ => Yields.bind (getRegister_has env) ?_) fun _ =>
    Yields.pure legal_nil
  rintro ⟨reg2, d'⟩ ⟨-, hd'⟩
  obtain ⟨v, hv⟩ := (hd'.or hd).getD
  simp only [hv]
  exact stepMemIndexed_legal hcpu (Or.inr ⟨rfl, rfl⟩) hlead v reg2

/-- `LDD` with operands steps the pair downwards, which takes other codes. -/
theorem ldd_legal : Yields (ldd env) (Legal env) := by
  refine Yields.bind (getRegister_has env) ?_
  rintro ⟨reg, d⟩ ⟨-, hd⟩
  cases reg with
  | a => exact stepA_legal hcpu (Or.inr ⟨rfl, rfl⟩)
  | b | c | d | e | h | l => exact lddR8_legal hcpu rfl
  | memHL => exact lddMemHL_legal hcpu
  | memIX => exact lddMemIndexed_legal hcpu (Or.inl rfl) hd
  | memIY => exact lddMemIndexed_legal hcpu (Or.inr rfl) hd
  | _ =>
    apply stepDefault_legal hcpu (Or.inr ⟨rfl, rfl⟩)
    exact legal_z80 hcpu fun _ => Reads.readable fun _ => rfl

end Step

end Z80

end Sjasmplus
