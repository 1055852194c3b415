import Sjasmplus.ArithmeticInstructions
import Sjasmplus.Lib.Z80

/-!
# What fake instructions do

A `Fake` is a fake instruction with its operands, and `Fake.effect` is what it stands for: what it does to
the state of the machine.  `Fake.Reads` says that a text has its operands, and `StandsFor` compares the
effect with the bytes that the instruction emits for that text.

* `standsFor_iff` — every fake instruction does what it stands for, unless its byte operand, behind an
  index register with a displacement, begins like an index register with another displacement.
-/

namespace Sjasmplus

open Parsing ParseFn
open Z80Cpu (Pair Reg Wide State Rotation Arith exec)

namespace Z80

/-! ### Fake instructions -/

/-- An index register. -/
def indexPair (p : Pair) : Bool := p = .ix || p = .iy

/-- A register pair that is no index register. -/
def mainPair (p : Pair) : Bool := p = .bc || p = .de || p = .hl

/-- An 8-bit register that is no half of an index register. -/
def mainReg : Reg → Bool
  | .a => true
  | .high p | .low p => mainPair p

/-- The 16-bit operands of additions to `hl`. -/
def mainWide : Wide → Bool
  | .pair p => mainPair p
  | .sp => true

/-- A register pair with the pointer register that it is loaded from, and stored to. -/
def wordAccess (r p : Pair) : Bool := (p = .hl && (r = .bc || r = .de)) || (indexPair p && mainPair r)

/-- An 8-bit register with a pointer register that is stepped. -/
def byteAccess (r : Reg) (p : Pair) : Bool := mainReg r && (r = .a || p = .hl || indexPair p)

/-- The direction of a step: `ldi` or `ldd`. -/
inductive Step
  | inc | dec
deriving DecidableEq, Repr

/-- The shifts of register pairs. -/
inductive Shift
  | rl | rr | sla | sll | sra | srl
deriving DecidableEq, Repr

/-- The documented fake instructions, with their displacements. -/
inductive Fake
  /-- `ld dst,src` -/
  | copy (dst src : Pair)
  /-- `ld dst,(p+v)` -/
  | load (dst p : Pair) (v : Aint) (h : wordAccess dst p = true)
  /-- `ld (p+v),src` -/
  | store (p src : Pair) (v : Aint) (h : wordAccess src p = true)
  /-- `ldi dst,(p+v)` -/
  | loadInc (dst p : Pair) (v : Aint) (h : wordAccess dst p = true)
  /-- `ldi (p+v),src` -/
  | storeInc (p src : Pair) (v : Aint) (h : wordAccess src p = true)
  /-- `ldi r,(p+v)` and `ldd r,(p+v)`, where the pointer is not overwritten. -/
  | stepLoad (step : Step) (r : Reg) (p : Pair) (v : Aint) (h : byteAccess r p = true)
    (hwithin : r.within p = false)
  /-- `ldi (p+v),r` and `ldd (p+v),r` -/
  | stepStore (step : Step) (p : Pair) (r : Reg) (v : Aint) (h : byteAccess r p = true)
  /-- `ldi (p+v),n` and `ldd (p+v),n` -/
  | stepByte (step : Step) (p : Pair) (n : Byte) (v : Aint) (h : p = .hl ∨ indexPair p = true)
  /-- `add de,r`, `adc de,r` and `sbc de,r` -/
  | arith (op : Arith) (r : Wide) (h : mainWide r = true)
  /-- `sub dst,r` -/
  | sub (dst : Pair) (r : Wide) (hdst : dst = .de ∨ dst = .hl) (h : mainWide r = true)
  /-- `rl p` and the other shifts. -/
  | shift (op : Shift) (p : Pair) (h : mainPair p = true)

/-- The address of a memory operand. -/
def memAddress (s : State) (p : Pair) (v : Aint) : BitVec 16 := s.pairs p + v.setWidth 16

/-- A pair is copied: between `hl`, `ix` and `iy`, where no loads of halves do it, through the stack. -/
def copyPair (dst src : Pair) (s : State) : State :=
  let throughStack : Bool := (dst = .hl || indexPair dst) && (src = .hl || indexPair src) && dst ≠ src
  (if throughStack then s.storeWord (s.sp - 2) (s.pairs src) else s).setPair dst (s.pairs src)

/-- A pointer register behind its step. -/
def Step.apply (step : Step) (s : State) (p : Pair) : BitVec 16 :=
  match step with
  | inc => s.pairs p + 1
  | dec => s.pairs p - 1

/-- The result of a shift, and the bit that it shifts out. -/
def Shift.apply (carry : Bool) (x : BitVec 16) : Shift → BitVec 16 × Bool
  | rl => Z80Cpu.shiftLeft x carry
  | rr => Z80Cpu.shiftRight x carry
  | sla => Z80Cpu.shiftLeft x false
  | sll => Z80Cpu.shiftLeft x true
  | sra => Z80Cpu.shiftRight x (Z80Cpu.top x)
  | srl => Z80Cpu.shiftRight x false

/-- What a fake instruction stands for. -/
def Fake.effect (s : State) : Fake → State
  | copy dst src => copyPair dst src s
  | load dst p v _ => s.setPair dst (s.loadWord (memAddress s p v))
  | store p src v _ => s.storeWord (memAddress s p v) (s.pairs src)
  | loadInc dst p v _ => (s.setPair dst (s.loadWord (memAddress s p v))).setPair p (s.pairs p + 2)
  | storeInc p src v _ => (s.storeWord (memAddress s p v) (s.pairs src)).setPair p (s.pairs p + 2)
  | stepLoad step r p v _ _ => (s.set (s.memory (memAddress s p v)) r).setPair p (step.apply s p)
  | stepStore step p r v _ => (s.store (memAddress s p v) (s.get r)).setPair p (step.apply s p)
  | stepByte step p n v _ => (s.store (memAddress s p v) n).setPair p (step.apply s p)
  | arith op r _ => s.setResult .de (op.apply s.carry (s.pairs .de) (s.getWide r))
  | sub dst r _ _ => s.setResult dst (s.pairs dst - s.getWide r, (s.pairs dst).toNat < (s.getWide r).toNat)
  | shift op p _ => s.setResult p (op.apply s.carry (s.pairs p))

/-- A number that fits into a displacement. -/
def InRange (v : Aint) : Prop := -128 ≤ v.toInt ∧ v.toInt ≤ 127

/-- The displacements of the bytes that a fake instruction accesses can be encoded: both for a word whose
pointer register is not stepped. -/
def Fake.Encodable : Fake → Prop
  | load _ _ v _ | store _ _ v _ => InRange v ∧ InRange (v + 1)
  | loadInc _ _ v _ | storeInc _ _ v _ | stepLoad _ _ _ v _ _ | stepStore _ _ _ v _ | stepByte _ _ _ v _ =>
    InRange v
  | _ => True

/-! ### Texts of fake instructions -/

/-- The handler of one argument. -/
def Fake.argument (env : InstructionEnv) : Fake → Reader (Option (List Int))
  | copy .. | load .. | store .. => some <$> ld env
  | loadInc .. | storeInc .. => some <$> ldi env
  | stepLoad step .. | stepStore step .. | stepByte step .. =>
    match step with
    | .inc => some <$> ldi env
    | .dec => some <$> ldd env
  | arith op .. =>
    match op with
    | .add => pairArgument env 0x80 false "ADD" (addPairs env)
    | .adc => pairArgument env 0x88 false "ADC" (adcPairs env)
    | .sbc => pairArgument env 0x98 false "SBC" (sbcPairs env)
  | sub .. => pairArgument env 0x90 true "SUB" (subPairs env)
  | shift op .. =>
    match op with
    | .rl => some <$> rl env
    | .rr => some <$> rr env
    | .sla => some <$> sla env
    | .sll => some <$> sll env
    | .sra => some <$> sra env
    | .srl => some <$> srl env

/-- The operands of fake instructions. -/
inductive Operand
  | reg (r : Reg)
  | wide (r : Wide)
  | mem (p : Pair) (v : Aint)
  | byte (n : Byte)

/-- The operands of a fake instruction. -/
def Fake.operands : Fake → Operand × Option Operand
  | copy dst src => (.wide (.pair dst), some (.wide (.pair src)))
  | load dst p v _ | loadInc dst p v _ => (.wide (.pair dst), some (.mem p v))
  | store p src v _ | storeInc p src v _ => (.mem p v, some (.wide (.pair src)))
  | stepLoad _ r p v _ _ => (.reg r, some (.mem p v))
  | stepStore _ p r v _ => (.mem p v, some (.reg r))
  | stepByte _ p n v _ => (.mem p v, some (.byte n))
  | arith _ r _ => (.wide (.pair .de), some (.wide r))
  | sub dst r _ _ => (.wide (.pair dst), some (.wide r))
  | shift _ p _ => (.wide (.pair p), none)

def pairReg : Pair → Z80Reg
  | .bc => .bc
  | .de => .de
  | .hl => .hl
  | .ix => .ix
  | .iy => .iy

def wideReg : Wide → Z80Reg
  | .pair p => pairReg p
  | .sp => .sp

def byteReg : Reg → Z80Reg
  | .a => .a
  | .high p => getRegister_r16High (pairReg p)
  | .low p => getRegister_r16Low (pairReg p)

section

variable (env : InstructionEnv)

/-- The text `p` has a register in front of `q`. -/
def ReadsRegister (reg : Z80Reg) (p q : Text) : Prop :=
  (getRegister env p).val.map Prod.fst = some reg ∧ (getRegister env p).rest = q

/-- The text `p` has a displacement in front of `q`, which is left out where it is 0; `l` are the messages
of its expression. -/
inductive ReadsDisplacement (p : Text) : Text → Aint → List Event → Prop
  | omitted (h : cur (skipBlanks p) = ')' ∨ cur (skipBlanks p) = ']') : ReadsDisplacement p p 0 []
  | expression {q : Text} {v : Aint} {l : List Event}
    (h : ¬(cur (skipBlanks p) = ')' ∨ cur (skipBlanks p) = ']'))
    (hval : parseExpression env p = ⟨some v, q, l⟩) : ReadsDisplacement p q v l

/-- The text `p` has a memory operand in front of `q`. -/
structure ReadsMemory (pair : Pair) (v : Aint) (p q : Text) (l : List Event) where
  bt : EBracketType
  inside : Text
  behind : Text
  close : Text
  bt_ne : bt ≠ .none
  opens : openBracket env p = ⟨some bt, inside, []⟩
  register : ReadsRegister env (pairReg pair) inside behind
  displacement : if indexPair pair then ReadsDisplacement env behind close v l
    else close = behind ∧ v = 0 ∧ l = []
  closes : closeBracket bt close = ⟨some true, q, []⟩

/-- The text `p` has an operand in front of `q`, with the messages `l` of its expression. -/
def Operand.Reads (p q : Text) (l : List Event) : Operand → Prop
  | reg r => ReadsRegister env (byteReg r) p q ∧ l = []
  | wide r => ReadsRegister env (wideReg r) p q ∧ l = []
  | mem pair v => Nonempty (ReadsMemory env pair v p q l)
  | byte n => ∃ d p' l₁ l₂, getRegister env p = ⟨some (.unk, d), p', l₁⟩ ∧
      getByteNoMem env false p' = ⟨some (n.toNat : Int), q, l₂⟩ ∧ l = l₁ ++ l₂

/-- The text `p` has the operands of the fake instruction in front of `q`; the second one starts at `p₂`,
and `l` are the messages of their expressions. -/
def Fake.Reads (f : Fake) (p p₂ q : Text) (l : List Event) : Prop :=
  match f.operands with
  | (dst, none) => dst.Reads env p q l ∧ p₂ = q
  | (dst, some src) => ∃ p₁ l₁ l₂, dst.Reads env p p₁ l₁ ∧ comma p₁ = ⟨some true, p₂, []⟩ ∧
      src.Reads env p₂ q l₂ ∧ l = l₁ ++ l₂

/-- The bytes for the text do what the fake instruction stands for. -/
structure StandsFor (f : Fake) (p : Text) (l : List Event) : Prop where
  /-- Whatever is accepted has the effect. -/
  runs : noError lastPass (emitArgument env (f.argument env) p).log = true →
    ∃ bytes, (emitArgument env (f.argument env) p).val = some (some bytes) ∧
      ∀ s, exec bytes s = some (f.effect s)
  /-- It is accepted when its operands are, and their displacements can be encoded. -/
  accepts : noError lastPass (emitArgument env (f.argument env) p).log = true ↔
    noError lastPass l = true ∧ f.Encodable

/-- The second operand leaves the displacement of the first one as it is. -/
def Fake.KeepsDisplacement (p₂ : Text) (l : List Event) : Fake → Prop
  | stepByte _ p _ v _ => indexPair p = true → noError lastPass l = true → InRange v →
      ∀ d, (getRegister env p₂).val = some (.unk, some d) → d = lowByte v
  | _ => True

end

/-! ### Runs of readers -/

section Runs

variable {env : InstructionEnv} {α β : Type} {x : Reader α} {p q r : Text} {a : α} {c c' : Prop}

/-- The reader returns `a` at `q`, and its messages are without an error exactly under the condition. -/
def RunsTo (x : Reader α) (p : Text) (a : α) (q : Text) (c : Prop) : Prop :=
  ∃ log, x p = ⟨some a, q, log⟩ ∧ (noError lastPass log = true ↔ c)

namespace RunsTo

theorem silent (h : x p = ⟨some a, q, []⟩) : RunsTo x p a q True := ⟨[], h, by simp⟩

theorem pure (a : α) (p : Text) : RunsTo (Pure.pure a : Reader α) p a p True := silent rfl

theorem congr (h : RunsTo x p a q c) (hc : c ↔ c') : RunsTo x p a q c' := by
  obtain ⟨log, hx, hlog⟩ := h
  exact ⟨log, hx, hlog.trans hc⟩

theorem bind {f : α → Reader β} {b : β} (h : RunsTo x p a q c) (hf : RunsTo (f a) q b r c') :
    RunsTo (x >>= f) p b r (c ∧ c') := by
  obtain ⟨log, hx, hlog⟩ := h
  obtain ⟨log', hf, hlog'⟩ := hf
  refine ⟨log ++ log', by rw [bind_some hx, hf, Outcome.after_mk], ?_⟩
  rw [noError_append, Bool.and_eq_true, hlog, hlog']

/-- A first part without an error. -/
theorem bind_true {f : α → Reader β} {b : β} (h : RunsTo x p a q True) (hf : RunsTo (f a) q b r c) :
    RunsTo (x >>= f) p b r c :=
  (h.bind hf).congr (iff_of_eq (true_and c))

theorem map {f : α → β} (h : RunsTo x p a q c) : RunsTo (f <$> x) p (f a) q c :=
  (h.bind (pure (f a) q)).congr (iff_of_eq (and_true c))

end RunsTo

theorem runsTo_noFakes (hfakes : fakesDisabled env = false) (p : Text) :
    RunsTo (noFakes env) p false p True := by
  refine ⟨if env.fakeWarning then [.warningById .fake (some env.bp) .pass3] else [], ?_, ?_⟩
  · simp only [noFakes, hfakes, Bool.false_eq_true, if_false]
    rw [bind_some (report_apply _ p), pure_apply, Outcome.after_mk, List.append_nil]
  · split_ifs <;> simp [noError, Event.isError]

theorem runsTo_fake (hfakes : fakesDisabled env = false) (e : List Int) (p : Text) :
    RunsTo (fake env e) p e p True :=
  (runsTo_noFakes hfakes p).bind_true (RunsTo.pure e p)

theorem runsTo_warnFake (hfakes : fakesDisabled env = false) (e : List Int) (p : Text) :
    RunsTo (warnFake env e) p e p True :=
  (runsTo_noFakes hfakes p).bind_true (RunsTo.pure e p)

/-- A condition that is known to hold. -/
theorem runsTo_emitIf {condition : Reader Bool} (h : condition p = ⟨some true, q, []⟩) (e : List Int) :
    RunsTo (emitIf condition e) p e q True :=
  (RunsTo.silent h).bind_true (RunsTo.pure e q)

/-! ### Operands -/

theorem runsTo_register {reg : Z80Reg} (hplain : isPlain reg = true) (h : ReadsRegister env reg p q) :
    RunsTo (getRegister env) p (reg, none) q True := by
  obtain ⟨hval, rfl⟩ := h
  exact RunsTo.silent (getRegister_plain hplain hval)

theorem isPlain_pairReg (pair : Pair) : isPlain (pairReg pair) = true := by cases pair <;> rfl

theorem isPlain_wideReg (wide : Wide) : isPlain (wideReg wide) = true := by
  cases wide with
  | pair pair => exact isPlain_pairReg pair
  | sp => rfl

theorem isPlain_byteReg (reg : Reg) : isPlain (byteReg reg) = true := by
  cases reg with
  | a => rfl
  | high pair | low pair => cases pair <;> rfl

theorem noError_check8o (v : Aint) : noError lastPass (check8o v) = true ↔ InRange v := by
  rw [check8o, InRange]
  by_cases h : v.toInt < -128 ∨ 127 < v.toInt
  · rw [if_pos h]
    constructor
    · intro herror
      exact absurd (show false = true from herror) (by decide)
    · omega
  · rw [if_neg h, noError_nil, eq_self, true_iff]
    omega

/-- The displacement of an index register. -/
theorem runsTo_z80GetIDxoffset {v : Aint} {l : List Event} (h : ReadsDisplacement env p q v l) :
    RunsTo (z80GetIDxoffset env) p (lowByte v) q (noError lastPass l = true ∧ InRange v) := by
  cases h with
  | omitted h =>
    refine (RunsTo.silent ?_).congr (by simp [InRange])
    rw [z80GetIDxoffset, bind_silent (peek_apply p), if_pos h]
    rfl
  | expression h hval =>
    refine ⟨l ++ check8o v, ?_, ?_⟩
    · have hattempt : attempt (parseExpression env) p = ⟨some (some v), q, l⟩ := by
        rw [attempt_apply, hval]
      have hvalue : getValue env check8o p = ⟨some v, q, l ++ check8o v⟩ := by
        rw [getValue, bind_some hattempt]
        dsimp only
        rw [bind_some (report_apply _ q), pure_apply, Outcome.after_mk, Outcome.after_mk,
          List.append_nil]
      rw [z80GetIDxoffset, bind_silent (peek_apply p), if_neg h, getByte]
      exact (bind_some hvalue _).trans (by rw [pure_apply, Outcome.after_mk, List.append_nil])
    · rw [noError_append, Bool.and_eq_true, noError_check8o]

theorem not_isLR35902 (hfakes : fakesDisabled env = false) : env.isLR35902 = false := by
  rw [fakesDisabled, Bool.or_eq_false_iff, Bool.or_eq_false_iff] at hfakes
  exact hfakes.1.2

/-- A memory operand at an index register. -/
theorem runsTo_indexed (hfakes : fakesDisabled env = false) {pair : Pair} (hpair : indexPair pair = true)
    {v : Aint} {l : List Event} (h : ReadsMemory env pair v p q l) :
    RunsTo (getRegister env) p (inBrackets (pairReg pair), some (lowByte v)) q
      (noError lastPass l = true ∧ InRange v) := by
  have hregister := getRegister_plain (isPlain_pairReg pair) h.register.1
  rw [h.register.2] at hregister
  have hdisplacement := h.displacement
  rw [if_pos hpair] at hdisplacement
  obtain ⟨log, hoffset, hlog⟩ := (runsTo_z80GetIDxoffset hdisplacement).map (f := some)
  have hindex : pairReg pair = .ix ∨ pairReg pair = .iy := by
    cases pair <;> first | exact Or.inl rfl | exact Or.inr rfl | exact absurd hpair (by decide)
  have hd : displacement env (pairReg pair) none h.behind = ⟨some (some (lowByte v)), h.close, log⟩ := by
    rw [displacement, if_pos hindex]
    exact hoffset
  have hin : inBrackets (pairReg pair) ≠ .unk := by
    cases pair <;> first | exact absurd hpair (by decide) | decide
  exact ⟨[] ++ log, getRegister_memory (not_isLR35902 hfakes) h.opens h.bt_ne hregister hin hd h.closes,
    hlog⟩

/-- A memory operand at `hl`. -/
theorem runsTo_memHL (hfakes : fakesDisabled env = false) {v : Aint} {l : List Event}
    (h : ReadsMemory env .hl v p q l) : RunsTo (getRegister env) p (.memHL, none) q True := by
  have hregister := getRegister_plain (isPlain_pairReg .hl) h.register.1
  rw [h.register.2] at hregister
  obtain ⟨hclose, -, -⟩ := h.displacement
  exact RunsTo.silent (getRegister_memory (not_isLR35902 hfakes) h.opens h.bt_ne hregister (by decide)
    (by rw [hclose]; rfl) h.closes)

end Runs

/-! ### Bytes -/

theorem toNat_lowByte (v : Aint) : (BitVec.ofInt 8 (lowByte v)).toNat = v.toNat % 256 := by
  rw [lowByte, BitVec.ofInt_natCast, BitVec.toNat_ofNat]
  omega

/-- A displacement is extended to the number that it encodes. -/
theorem signExtend_lowByte {v : Aint} (h : InRange v) :
    (BitVec.ofInt 8 (lowByte v)).signExtend 16 = v.setWidth 16 := by
  obtain ⟨hlow, hhigh⟩ := h
  apply BitVec.eq_of_toInt_eq
  rw [BitVec.toInt_signExtend_of_le (by decide), BitVec.toInt_eq_toNat_cond, toNat_lowByte,
    BitVec.toInt_eq_toNat_cond, BitVec.toNat_setWidth]
  rw [BitVec.toInt_eq_toNat_cond] at hlow hhigh
  have hlt := v.isLt
  split_ifs at * <;> omega

theorem address_lowByte {v : Aint} (h : InRange v) (s : State) (pair : Pair) :
    Z80Cpu.Loc.address s pair (BitVec.ofInt 8 (lowByte v)) = memAddress s pair v := by
  rw [Z80Cpu.Loc.address, signExtend_lowByte h, memAddress]

/-- The displacement of the next byte. -/
theorem inRange_add_one {v : Aint} (h : InRange v) : InRange (v + 1) ↔ lowByte v ≠ 127 := by
  obtain ⟨hlow, hhigh⟩ := h
  have hone : (1 : Aint).toInt = 1 := rfl
  have hadd : (v + 1).toInt = v.toInt + 1 := by
    rw [toInt_add_of_fits (by rw [hone]; omega) (by rw [hone]; omega), hone]
  rw [InRange, hadd, lowByte]
  rw [BitVec.toInt_eq_toNat_cond] at *
  have hlt := v.isLt
  split_ifs at * <;> omega

theorem ofInt_lowByte_ne {v : Aint} (h : lowByte v ≠ 127) : BitVec.ofInt 8 (lowByte v) ≠ 127 := by
  intro heq
  have htoNat := congrArg BitVec.toNat heq
  rw [toNat_lowByte] at htoNat
  exact h (by rw [lowByte, htoNat]; rfl)

/-- The bytes for the numbers are the instructions, one at least. -/
structure Encodes (e : List Int) (instrs : List Z80Cpu.Instr) : Prop where
  ne_nil : instrs ≠ []
  decodes : Z80Cpu.instrs (emitted e) = some instrs

/-- The array does not start with the end marker. -/
theorem Encodes.head {e : List Int} {instrs : List Z80Cpu.Instr} (h : Encodes e instrs) :
    e.headD bytesEndMarker ≠ bytesEndMarker := by
  intro hhead
  have hempty : emitted e = [] := by
    rcases e with _ | ⟨x, _ | ⟨y, e⟩⟩
    · rfl
    · exact if_pos hhead
    · exact if_pos hhead
  have hdecodes := h.decodes
  rw [hempty] at hdecodes
  exact h.ne_nil (Option.some.inj hdecodes).symm

theorem Encodes.exec {e : List Int} {instrs : List Z80Cpu.Instr} (h : Encodes e instrs) (s : State) :
    exec (emitted e) s = some (Z80Cpu.run s instrs) := by
  rw [Z80Cpu.exec, h.decodes, Option.map_some]

/-! ### Arguments -/

section Arguments

variable {env : InstructionEnv} {p p₁ p₂ q : Text} {c c' : Prop} {effect : State → State}

/-- The argument is accepted exactly under the condition, and then its bytes have the effect. -/
def Performs (x : Reader (Option (List Int))) (p : Text) (c : Prop) (effect : State → State) : Prop :=
  ∃ e q, RunsTo x p (some e) q c ∧
    (c → ∃ instrs, Encodes e instrs ∧ ∀ s, Z80Cpu.run s instrs = effect s)

theorem Performs.congr {x : Reader (Option (List Int))} (h : Performs x p c effect) (hc : c ↔ c') :
    Performs x p c' effect := by
  obtain ⟨e, q, hrun, heffect⟩ := h
  exact ⟨e, q, hrun.congr hc, fun hc' => heffect (hc.mpr hc')⟩

theorem performs_map {x : Reader (List Int)} {e : List Int} {instrs : List Z80Cpu.Instr}
    (hrun : RunsTo x p e q c) (hencodes : Encodes e instrs)
    (heffect : c → ∀ s, Z80Cpu.run s instrs = effect s) : Performs (some <$> x) p c effect :=
  ⟨e, q, hrun.map, fun hc => ⟨instrs, hencodes, heffect hc⟩⟩

/-- A fake instruction does what it stands for if and only if its bytes have its effect, where they are
accepted. -/
theorem standsFor_iff_effect {f : Fake} {l : List Event} {e : List Int} (instrs : List Z80Cpu.Instr)
    (hrun : RunsTo (f.argument env) p (some e) q (noError lastPass l = true ∧ f.Encodable))
    (hencodes : noError lastPass l = true ∧ f.Encodable → Encodes e instrs) :
    StandsFor env f p l ↔
      (noError lastPass l = true ∧ f.Encodable → ∀ s, Z80Cpu.run s instrs = f.effect s) := by
  obtain ⟨log, hrun, hlog⟩ := hrun
  by_cases hc : noError lastPass l = true ∧ f.Encodable
  · have hencodes := hencodes hc
    -- the accepted argument emits the encoding, which executes as its instructions
    have hemit : emitArgument env (f.argument env) p = ⟨some (some (emitted e)), q, log⟩ := by
      rw [emitArgument, bind_some hrun]
      dsimp only
      rw [emitBytes, if_neg hencodes.head]
      exact Outcome.ext rfl rfl (List.append_nil log)
    -- what the bytes do is what the instructions do, read both ways
    constructor
    · intro h _ s
      obtain ⟨bytes, hval, heffect⟩ := h.runs (by rw [hemit]; exact hlog.mpr hc)
      rw [hemit, Option.some.injEq, Option.some.injEq] at hval
      subst hval
      exact Option.some.inj ((hencodes.exec s).symm.trans (heffect s))
    · intro heffect
      refine ⟨fun _ => ⟨emitted e, by rw [hemit], fun s => ?_⟩, by rw [hemit]; exact hlog⟩
      rw [hencodes.exec, heffect hc]
  · -- the argument is rejected, whatever is emitted behind its error
    have hrejected : noError lastPass (emitArgument env (f.argument env) p).log = false := by
      rw [emitArgument, bind_some hrun]
      dsimp only
      rw [show (Outcome.after log _).log = log ++ _ from rfl, noError_append]
      rw [← hlog, Bool.not_eq_true] at hc
      rw [hc, Bool.false_and]
    refine iff_of_true ⟨fun h => absurd (hrejected.symm.trans h) (by decide), ?_⟩ fun h => absurd h hc
    exact iff_of_false (by rw [hrejected]; decide) hc

/-- A fake instruction whose argument performs its effect does what it stands for. -/
theorem Performs.standsFor {f : Fake} {l : List Event}
    (h : Performs (f.argument env) p (noError lastPass l = true ∧ f.Encodable) fun s => f.effect s) :
    StandsFor env f p l := by
  obtain ⟨e, q, hrun, heffect⟩ := h
  by_cases hc : noError lastPass l = true ∧ f.Encodable
  · obtain ⟨instrs, hencodes, heffect⟩ := heffect hc
    exact (standsFor_iff_effect instrs hrun fun _ => hencodes).mpr fun _ => heffect
  · exact (standsFor_iff_effect [] hrun fun h => absurd h hc).mpr fun h => absurd h hc

/-! ### `ld` -/

section Ld

variable {reg1 r2 r2' : Z80Reg} {d₁ d₂ : Option Int} {dst : LdDestination} {e : List Int} {r : Text}
  {c₁ c₂ c₃ : Prop}

/-- `LD_simple_r_r` with a source that it deals with. -/
theorem runsTo_ld_simple_r_r {prefix2 : Int} (hdst : ldDestination reg1 = some dst)
    (hcomma : comma p₁ = ⟨some true, p₂, []⟩) (h₂ : RunsTo (getRegister env) p₂ (r2, d₂) q c₂)
    (hsource : ldSource env dst r2 = .register prefix2 r2')
    (h₃ : RunsTo (ldRegisters env dst prefix2 r2' ((d₂.or d₁).getD 0)) q e r c₃) :
    RunsTo (ld_simple_r_r env reg1 d₁) p₁ (.ok e) r (c₂ ∧ c₃) := by
  rw [ld_simple_r_r, hdst]
  refine (RunsTo.silent hcomma).bind_true ?_
  rw [if_pos rfl]
  refine (RunsTo.silent (peek_apply p₂)).bind_true (h₂.bind ?_)
  dsimp only
  rw [hsource]
  exact h₃.map

/-- `LD_simple_r_r` with a source that is read once more. -/
theorem runsTo_ld_simple_r_r_other (hdst : ldDestination reg1 = some dst)
    (hcomma : comma p₁ = ⟨some true, p₂, []⟩) (h₂ : RunsTo (getRegister env) p₂ (r2, d₂) q c₂)
    (hsource : ldSource env dst r2 = .other) :
    RunsTo (ld_simple_r_r env reg1 d₁) p₁ (.error (d₂.or d₁)) p₂ c₂ := by
  rw [ld_simple_r_r, hdst]
  refine (RunsTo.silent hcomma).bind_true ?_
  rw [if_pos rfl]
  refine (RunsTo.silent (peek_apply p₂)).bind_true ?_
  refine (h₂.bind ?_).congr (and_iff_left trivial)
  dsimp only
  rw [hsource]
  exact (RunsTo.silent (seek_apply p₂ q)).bind_true (RunsTo.pure _ p₂)

/-- `ld` with operands that `LD_simple_r_r` deals with. -/
theorem runsTo_ld (hunk : reg1 ≠ .unk) (h₁ : RunsTo (getRegister env) p (reg1, d₁) p₁ c₁)
    (hsimple : RunsTo (ld_simple_r_r env reg1 d₁) p₁ (.ok e) r c₂) :
    RunsTo (ld env) p e r (c₁ ∧ c₂) := by
  refine h₁.bind ?_
  dsimp only
  rw [if_neg hunk]
  exact (hsimple.bind (RunsTo.pure e r)).congr (and_iff_left trivial)

/-- `ld` with a source that is read once more. -/
theorem runsTo_ld_other (hunk : reg1 ≠ .unk) (h₁ : RunsTo (getRegister env) p (reg1, d₁) p₁ c₁)
    (hsimple : RunsTo (ld_simple_r_r env reg1 d₁) p₁ (.error (d₂.or d₁)) p₂ c₂)
    (hother : RunsTo (ldOther env reg1 (d₂.or d₁)) p₂ e r c₃) :
    RunsTo (ld env) p e r (c₁ ∧ c₂ ∧ c₃) := by
  refine h₁.bind ?_
  dsimp only
  rw [if_neg hunk]
  exact hsimple.bind hother

end Ld

/-- The instructions that copy a pair. -/
def copyInstrs (dst src : Pair) : List Z80Cpu.Instr :=
  let throughStack : Bool := (dst = .hl || indexPair dst) && (src = .hl || indexPair src) && dst ≠ src
  if throughStack then [.push src, .pop dst]
  else [.ld (.reg (.high dst)) (.reg (.high src)), .ld (.reg (.low dst)) (.reg (.low src))]

/-- The numbers for a copy of a pair. -/
theorem ldRegisters_copy (env : InstructionEnv) (dst src : Pair) :
    ∃ destination prefix2 r2 e, ldDestination (pairReg dst) = some destination ∧
      ldSource env destination (pairReg src) = .register prefix2 r2 ∧
      ldRegisters env destination prefix2 r2 0 = fake env e ∧ Encodes e (copyInstrs dst src) := by
  cases dst <;> cases src <;> exact ⟨_, _, _, _, rfl, rfl, rfl, by decide, rfl⟩

theorem run_copyInstrs (dst src : Pair) (s : State) :
    Z80Cpu.run s (copyInstrs dst src) = copyPair dst src s := by
  rw [copyInstrs, copyPair]
  split_ifs
  · exact Z80Cpu.run_pushPop s dst src
  · exact Z80Cpu.run_copyPair s dst src

/-- An index register is none of the other pairs. -/
theorem ne_of_indexPair {pair pair' : Pair} (h : indexPair pair = true) (h' : mainPair pair' = true) :
    pair ≠ pair' := by
  rintro rfl
  cases pair <;> first | exact absurd h (by decide) | exact absurd h' (by decide)

theorem pairReg_ne_unk (pair : Pair) : pairReg pair ≠ .unk := by cases pair <;> decide

/-- `ld dst,src` -/
theorem performs_copy (hfakes : fakesDisabled env = false) {dst src : Pair}
    (h₁ : ReadsRegister env (pairReg dst) p p₁) (hcomma : comma p₁ = ⟨some true, p₂, []⟩)
    (h₂ : ReadsRegister env (pairReg src) p₂ q) :
    Performs (some <$> ld env) p True (copyPair dst src) := by
  obtain ⟨destination, prefix2, r2, e, hdst, hsource, hregisters, hencodes⟩ :=
    ldRegisters_copy env dst src
  have hfake := runsTo_fake hfakes e q
  rw [← hregisters] at hfake
  have hrun := runsTo_ld (pairReg_ne_unk dst) (runsTo_register (isPlain_pairReg dst) h₁)
    (runsTo_ld_simple_r_r hdst hcomma (runsTo_register (isPlain_pairReg src) h₂) hsource hfake)
  exact performs_map (hrun.congr (by simp)) hencodes fun _ => run_copyInstrs dst src

theorem runsTo_nextDisplacement (d : Int) (e : List Int) (p : Text) :
    RunsTo (nextDisplacement d e) p (if d = 127 then [] else e) p (d ≠ 127) := by
  by_cases h : d = 127
  · simp only [h, nextDisplacement, if_true]
    exact ⟨[.error "Offset out of range" none .ifFirst], rfl, iff_of_false (by decide) (by simp)⟩
  · rw [nextDisplacement, if_neg h, if_neg h]
    exact (RunsTo.pure e p).congr (iff_of_true trivial h)

/-- A displacement with the one behind it. -/
theorem encodable_word {v : Aint} {c : Prop} :
    ((c ∧ InRange v) ∧ (c ∧ InRange v) ∧ lowByte v ≠ 127) ↔ c ∧ InRange v ∧ InRange (v + 1) := by
  constructor
  · rintro ⟨⟨hc, hv⟩, -, h⟩
    exact ⟨hc, hv, (inRange_add_one hv).mpr h⟩
  · rintro ⟨hc, hv, h⟩
    exact ⟨⟨hc, hv⟩, ⟨hc, hv⟩, (inRange_add_one hv).mp h⟩

/-- `ld dst,(hl)` -/
theorem performs_loadHL (hfakes : fakesDisabled env = false) {dst : Pair} {v : Aint} {l : List Event}
    (hdst : dst = .bc ∨ dst = .de) (h₁ : ReadsRegister env (pairReg dst) p p₁)
    (hcomma : comma p₁ = ⟨some true, p₂, []⟩) (h₂ : ReadsMemory env .hl v p₂ q l) :
    Performs (some <$> ld env) p True fun s => s.setPair dst (s.loadWord (s.pairs .hl)) := by
  have hread := runsTo_memHL hfakes h₂
  obtain ⟨destination, hdestination, hsource⟩ : ∃ destination,
      ldDestination (pairReg dst) = some destination ∧ ldSource env destination .memHL = .other := by
    rcases hdst with rfl | rfl <;> exact ⟨_, rfl, rfl⟩
  obtain ⟨e, hother, hencodes⟩ : ∃ e, RunsTo (ldOther env (pairReg dst) (none.or none)) p₂ e q True ∧
      Encodes e [.ld (.reg (.low dst)) (.mem .hl 0), .inc (.pair .hl), .ld (.reg (.high dst)) (.mem .hl 0),
        .dec (.pair .hl)] := by
    rcases hdst with rfl | rfl <;>
      exact ⟨_, hread.bind_true (runsTo_fake hfakes _ q), List.cons_ne_nil _ _, rfl⟩
  have hrun := runsTo_ld_other (pairReg_ne_unk dst) (runsTo_register (isPlain_pairReg dst) h₁)
    (runsTo_ld_simple_r_r_other hdestination hcomma hread hsource) hother
  exact performs_map (hrun.congr (by simp)) hencodes fun _ s =>
    Z80Cpu.run_loadWord s (by rcases hdst with rfl | rfl <;> decide)

/-- The bytes of a word, next to each other. -/
theorem performs_word {x : Reader (List Int)} {e : List Int} {instrs : List Z80Cpu.Instr} {v : Aint}
    {l : List Event} (hrun : RunsTo x p (if lowByte v = 127 then [] else e) q c)
    (hc : c ↔ noError lastPass l = true ∧ InRange v ∧ InRange (v + 1)) (hencodes : Encodes e instrs)
    (heffect : InRange v → lowByte v ≠ 127 → ∀ s, Z80Cpu.run s instrs = effect s) :
    Performs (some <$> x) p (noError lastPass l = true ∧ InRange v ∧ InRange (v + 1)) effect := by
  refine ⟨_, q, (hrun.congr hc).map, fun ⟨_, hv, hnext⟩ => ?_⟩
  have hlow := (inRange_add_one hv).mp hnext
  rw [if_neg hlow]
  exact ⟨instrs, hencodes, heffect hv hlow⟩

/-- `ld dst,(ix+v)` and `ld dst,(iy+v)` -/
theorem performs_loadIndexed (hfakes : fakesDisabled env = false) {dst pair : Pair} {v : Aint}
    {l : List Event} (hdst : mainPair dst = true) (hpair : indexPair pair = true)
    (h₁ : ReadsRegister env (pairReg dst) p p₁) (hcomma : comma p₁ = ⟨some true, p₂, []⟩)
    (h₂ : ReadsMemory env pair v p₂ q l) :
    Performs (some <$> ld env) p (noError lastPass l = true ∧ InRange v ∧ InRange (v + 1))
      fun s => s.setPair dst (s.loadWord (memAddress s pair v)) := by
  have hread := runsTo_indexed hfakes hpair h₂
  -- the registers are those of the general case of `LD`
  obtain ⟨destination, hdestination, hsource⟩ : ∃ destination,
      ldDestination (pairReg dst) = some destination ∧
        ldSource env destination (inBrackets (pairReg pair)) = .other := by
    cases dst <;> cases pair <;> first | exact ⟨_, rfl, rfl⟩ | exact absurd hdst (by decide) |
      exact absurd hpair (by decide)
  -- the second displacement does not exist behind 127, where nothing is emitted
  obtain ⟨e, hother, hencodes⟩ : ∃ e, RunsTo (ldOther env (pairReg dst) ((some (lowByte v)).or none)) p₂
        (if lowByte v = 127 then [] else e) q
        ((noError lastPass l = true ∧ InRange v) ∧ lowByte v ≠ 127) ∧
      Encodes e [.ld (.reg (.low dst)) (.mem pair (BitVec.ofInt 8 (lowByte v))),
        .ld (.reg (.high dst)) (.mem pair (BitVec.ofInt 8 (lowByte v + 1)))] := by
    cases dst <;> cases pair <;> first | exact absurd hdst (by decide) | exact absurd hpair (by decide) |
      exact ⟨_, hread.bind ((runsTo_noFakes hfakes q).bind_true (runsTo_nextDisplacement _ _ q)),
        List.cons_ne_nil _ _, rfl⟩
  have hrun := runsTo_ld_other (pairReg_ne_unk dst) (runsTo_register (isPlain_pairReg dst) h₁)
    (runsTo_ld_simple_r_r_other hdestination hcomma hread hsource) hother
  refine performs_word hrun ((iff_of_eq (true_and _)).trans encodable_word) hencodes fun hv hlow s => ?_
  -- the high byte is read from the next address, as the first read left the pointer
  rw [BitVec.ofInt_add, ← address_lowByte hv]
  exact Z80Cpu.run_loadWordIndexed s (ne_of_indexPair hpair hdst) (ofInt_lowByte_ne hlow)

/-- `ld (hl),src` -/
theorem performs_storeHL (hfakes : fakesDisabled env = false) {src : Pair} {v : Aint} {l : List Event}
    (hsrc : src = .bc ∨ src = .de) (h₁ : ReadsMemory env .hl v p p₁ l)
    (hcomma : comma p₁ = ⟨some true, p₂, []⟩) (h₂ : ReadsRegister env (pairReg src) p₂ q) :
    Performs (some <$> ld env) p True fun s => s.storeWord (s.pairs .hl) (s.pairs src) := by
  have hread := runsTo_register (isPlain_pairReg src) h₂
  have hsource : ldSource env ⟨0, .memHL, true⟩ (pairReg src) = .other := by
    rcases hsrc with rfl | rfl <;> rfl
  obtain ⟨e, hother, hencodes⟩ : ∃ e, RunsTo (ldOther env .memHL (none.or none)) p₂ e q True ∧
      Encodes e [.ld (.mem .hl 0) (.reg (.low src)), .inc (.pair .hl), .ld (.mem .hl 0) (.reg (.high src)),
        .dec (.pair .hl)] := by
    rcases hsrc with rfl | rfl <;>
      exact ⟨_, hread.bind_true (runsTo_fake hfakes _ q), List.cons_ne_nil _ _, rfl⟩
  have hrun := runsTo_ld_other (by decide) (runsTo_memHL hfakes h₁)
    (runsTo_ld_simple_r_r_other rfl hcomma hread hsource) hother
  exact performs_map (hrun.congr (by simp)) hencodes fun _ s =>
    Z80Cpu.run_storeWord s (by rcases hsrc with rfl | rfl <;> decide)

/-- `ld (ix+v),src` and `ld (iy+v),src` -/
theorem performs_storeIndexed (hfakes : fakesDisabled env = false) {src pair : Pair} {v : Aint}
    {l : List Event} (hsrc : mainPair src = true) (hpair : indexPair pair = true)
    (h₁ : ReadsMemory env pair v p p₁ l) (hcomma : comma p₁ = ⟨some true, p₂, []⟩)
    (h₂ : ReadsRegister env (pairReg src) p₂ q) :
    Performs (some <$> ld env) p (noError lastPass l = true ∧ InRange v ∧ InRange (v + 1))
      fun s => s.storeWord (memAddress s pair v) (s.pairs src) := by
  have hread := runsTo_register (isPlain_pairReg src) h₂
  -- the memory operand is the general case of `LD` as well
  obtain ⟨destination, hunk, hdestination, hsource⟩ : ∃ destination, inBrackets (pairReg pair) ≠ .unk ∧
      ldDestination (inBrackets (pairReg pair)) = some destination ∧
        ldSource env destination (pairReg src) = .other := by
    cases src <;> cases pair <;> first | exact ⟨_, by decide, rfl, rfl⟩ | exact absurd hsrc (by decide) |
      exact absurd hpair (by decide)
  obtain ⟨e, hother, hencodes⟩ : ∃ e, RunsTo
        (ldOther env (inBrackets (pairReg pair)) (none.or (some (lowByte v)))) p₂
        (if lowByte v = 127 then [] else e) q (lowByte v ≠ 127) ∧
      Encodes e [.ld (.mem pair (BitVec.ofInt 8 (lowByte v))) (.reg (.low src)),
        .ld (.mem pair (BitVec.ofInt 8 (lowByte v + 1))) (.reg (.high src))] := by
    cases src <;> cases pair <;> first | exact absurd hsrc (by decide) | exact absurd hpair (by decide) |
      exact ⟨_, hread.bind_true ((runsTo_noFakes hfakes q).bind_true (runsTo_nextDisplacement _ _ q)),
        List.cons_ne_nil _ _, rfl⟩
  have hrun := runsTo_ld_other hunk (runsTo_indexed hfakes hpair h₁)
    (runsTo_ld_simple_r_r_other hdestination hcomma hread hsource) hother
  refine performs_word hrun ?_ hencodes fun hv hlow s => ?_
  -- the second displacement is in range exactly where the first one is not 127
  · rw [true_and, and_assoc, and_congr_right_iff, and_congr_right_iff]
    exact fun _ hv => (inRange_add_one hv).symm
  · rw [BitVec.ofInt_add, ← address_lowByte hv]
    exact Z80Cpu.run_storeWordIndexed s src pair (ofInt_lowByte_ne hlow)

/-! ### `ldi` with a register pair -/

/-- `ldi dst,(hl)` -/
theorem performs_loadIncHL (hfakes : fakesDisabled env = false) {dst : Pair} {v : Aint} {l : List Event}
    (hdst : dst = .bc ∨ dst = .de) (h₁ : ReadsRegister env (pairReg dst) p p₁)
    (hcomma : comma p₁ = ⟨some true, p₂, []⟩) (h₂ : ReadsMemory env .hl v p₂ q l) :
    Performs (some <$> ldi env) p True fun s =>
      (s.setPair dst (s.loadWord (s.pairs .hl))).setPair .hl (s.pairs .hl + 2) := by
  have hfirst := runsTo_register (isPlain_pairReg dst) h₁
  obtain ⟨e, hrun, hencodes⟩ : ∃ e, RunsTo (ldi env) p e q True ∧
      Encodes e [.ld (.reg (.low dst)) (.mem .hl 0), .inc (.pair .hl), .ld (.reg (.high dst)) (.mem .hl 0),
        .inc (.pair .hl)] := by
    rcases hdst with rfl | rfl <;>
      exact ⟨_, hfirst.bind_true ((RunsTo.silent hcomma).bind_true
        ((runsTo_memHL hfakes h₂).bind_true (runsTo_warnFake hfakes _ q))), List.cons_ne_nil _ _, rfl⟩
  refine performs_map hrun hencodes fun _ s => ?_
  have hne : Pair.hl ≠ dst := by rcases hdst with rfl | rfl <;> decide
  have heffect := Z80Cpu.run_loadWordInc s hne 0
  rwa [Z80Cpu.address_zero] at heffect

/-- `ldi dst,(ix+v)` and `ldi dst,(iy+v)` -/
theorem performs_loadIncIndexed (hfakes : fakesDisabled env = false) {dst pair : Pair} {v : Aint}
    {l : List Event} (hdst : mainPair dst = true) (hpair : indexPair pair = true)
    (h₁ : ReadsRegister env (pairReg dst) p p₁) (hcomma : comma p₁ = ⟨some true, p₂, []⟩)
    (h₂ : ReadsMemory env pair v p₂ q l) :
    Performs (some <$> ldi env) p (noError lastPass l = true ∧ InRange v) fun s =>
      (s.setPair dst (s.loadWord (memAddress s pair v))).setPair pair (s.pairs pair + 2) := by
  have hfirst := runsTo_register (isPlain_pairReg dst) h₁
  have hread := (runsTo_indexed hfakes hpair h₂)
  obtain ⟨e, hrun, hencodes⟩ : ∃ e,
      RunsTo (ldi env) p e q ((noError lastPass l = true ∧ InRange v) ∧ True) ∧
      Encodes e [.ld (.reg (.low dst)) (.mem pair (BitVec.ofInt 8 (lowByte v))), .inc (.pair pair),
        .ld (.reg (.high dst)) (.mem pair (BitVec.ofInt 8 (lowByte v))), .inc (.pair pair)] := by
    cases dst <;> cases pair <;> first | exact absurd hdst (by decide) | exact absurd hpair (by decide) |
      exact ⟨_, hfirst.bind_true ((RunsTo.silent hcomma).bind_true
        (hread.bind (runsTo_warnFake hfakes _ q))), List.cons_ne_nil _ _, rfl⟩
  refine performs_map (hrun.congr (iff_of_eq (and_true _))) hencodes fun hc s => ?_
  rw [← address_lowByte hc.2]
  exact Z80Cpu.run_loadWordInc s (ne_of_indexPair hpair hdst) _

/-- `ldi (hl),src` -/
theorem performs_storeIncHL (hfakes : fakesDisabled env = false) {src : Pair} {v : Aint} {l : List Event}
    (hsrc : src = .bc ∨ src = .de) (h₁ : ReadsMemory env .hl v p p₁ l)
    (hcomma : comma p₁ = ⟨some true, p₂, []⟩) (h₂ : ReadsRegister env (pairReg src) p₂ q) :
    Performs (some <$> ldi env) p True fun s =>
      (s.storeWord (s.pairs .hl) (s.pairs src)).setPair .hl (s.pairs .hl + 2) := by
  have hsecond := runsTo_register (isPlain_pairReg src) h₂
  obtain ⟨e, hrun, hencodes⟩ : ∃ e, RunsTo (ldi env) p e q True ∧
      Encodes e [.ld (.mem .hl 0) (.reg (.low src)), .inc (.pair .hl), .ld (.mem .hl 0) (.reg (.high src)),
        .inc (.pair .hl)] := by
    rcases hsrc with rfl | rfl <;>
      exact ⟨_, (runsTo_memHL hfakes h₁).bind_true ((RunsTo.silent hcomma).bind_true
        (hsecond.bind_true (runsTo_warnFake hfakes _ q))), List.cons_ne_nil _ _, rfl⟩
  refine performs_map hrun hencodes fun _ s => ?_
  have hne : src ≠ Pair.hl := by rcases hsrc with rfl | rfl <;> decide
  have heffect := Z80Cpu.run_storeWordInc s hne 0
  rwa [Z80Cpu.address_zero] at heffect

/-- `ldi (ix+v),src` and `ldi (iy+v),src` -/
theorem performs_storeIncIndexed (hfakes : fakesDisabled env = false) {src pair : Pair} {v : Aint}
    {l : List Event} (hsrc : mainPair src = true) (hpair : indexPair pair = true)
    (h₁ : ReadsMemory env pair v p p₁ l) (hcomma : comma p₁ = ⟨some true, p₂, []⟩)
    (h₂ : ReadsRegister env (pairReg src) p₂ q) :
    Performs (some <$> ldi env) p (noError lastPass l = true ∧ InRange v) fun s =>
      (s.storeWord (memAddress s pair v) (s.pairs src)).setPair pair (s.pairs pair + 2) := by
  have hsecond := runsTo_register (isPlain_pairReg src) h₂
  have hread := (runsTo_indexed hfakes hpair h₁)
  obtain ⟨e, hrun, hencodes⟩ : ∃ e,
      RunsTo (ldi env) p e q ((noError lastPass l = true ∧ InRange v) ∧ True) ∧
      Encodes e [.ld (.mem pair (BitVec.ofInt 8 (lowByte v))) (.reg (.low src)), .inc (.pair pair),
        .ld (.mem pair (BitVec.ofInt 8 (lowByte v))) (.reg (.high src)), .inc (.pair pair)] := by
    cases src <;> cases pair <;> first | exact absurd hsrc (by decide) | exact absurd hpair (by decide) |
      exact ⟨_, hread.bind ((RunsTo.silent hcomma).bind_true
        (hsecond.bind_true (runsTo_warnFake hfakes _ q))), List.cons_ne_nil _ _, rfl⟩
  refine performs_map (hrun.congr (iff_of_eq (and_true _))) hencodes fun hc s => ?_
  rw [← address_lowByte hc.2]
  exact Z80Cpu.run_storeWordInc s (ne_of_indexPair hpair hsrc).symm _

/-! ### `ldi` and `ldd` with a byte -/

/-- The instruction that steps a pointer register. -/
def Step.instr (p : Pair) : Step → Z80Cpu.Instr
  | inc => .inc (.pair p)
  | dec => .dec (.pair p)

/-- The handler of one argument. -/
def Step.handler (env : InstructionEnv) : Step → Reader (List Int)
  | inc => ldi env
  | dec => ldd env

theorem run_stepLoad (step : Step) {r : Reg} {pair : Pair} (h : r.within pair = false) (d : BitVec 8)
    (s : State) : Z80Cpu.run s [.ld (.reg r) (.mem pair d), step.instr pair]
      = (s.set (s.memory (Z80Cpu.Loc.address s pair d)) r).setPair pair (step.apply s pair) := by
  cases step with
  | inc => exact Z80Cpu.run_loadByteInc s h d
  | dec => exact Z80Cpu.run_loadByteDec s h d

theorem run_stepStore (step : Step) (r : Reg) (pair : Pair) (d : BitVec 8) (s : State) :
    Z80Cpu.run s [.ld (.mem pair d) (.reg r), step.instr pair]
      = (s.store (Z80Cpu.Loc.address s pair d) (s.get r)).setPair pair (step.apply s pair) := by
  cases step <;> rfl

theorem run_stepByte (step : Step) (n : Byte) (pair : Pair) (d : BitVec 8) (s : State) :
    Z80Cpu.run s [.ldImm (.mem pair d) n, step.instr pair]
      = (s.store (Z80Cpu.Loc.address s pair d) n).setPair pair (step.apply s pair) := by
  cases step <;> rfl

/-- The brackets of a memory operand. -/
theorem ReadsMemory.bracket {pair : Pair} {v : Aint} {l : List Event} (h : ReadsMemory env pair v p q l) :
    h.bt = .round ∨ h.bt = .square :=
  (openBracket_eq h.opens h.bt_ne).imp And.left And.left

/-- `ldi r,(p)` and `ldd r,(p)` without a displacement. -/
theorem encodes_stepLoad (hfakes : fakesDisabled env = false) (step : Step) {r : Reg} {pair : Pair}
    {v : Aint} {l : List Event} (hpair : indexPair pair = false) (haccess : byteAccess r pair = true)
    (h₁ : ReadsRegister env (byteReg r) p p₁) (hcomma : comma p₁ = ⟨some true, p₂, []⟩)
    (h₂ : ReadsMemory env pair v p₂ q l) :
    ∃ e, RunsTo (step.handler env) p e q True ∧
      Encodes e [.ld (.reg r) (.mem pair 0), step.instr pair] := by
  have hfirst := runsTo_register (isPlain_byteReg r) h₁
  have hmem : pair = .hl → RunsTo (getRegister env) p₂ (.memHL, none) q True := by
    rintro rfl
    exact runsTo_memHL hfakes h₂
  have hbracket := h₂.bracket
  obtain ⟨bt, inside, behind, close, hbt, hopens, hregister, hdisplacement, hcloses⟩ := h₂
  rw [hpair] at hdisplacement
  obtain ⟨rfl, -, -⟩ := hdisplacement
  have hinside := runsTo_register (isPlain_pairReg pair) hregister
  cases step with
  | inc =>
    -- every register is loaded behind brackets that the handler opens
    rcases hbracket with rfl | rfl <;> rcases r with _ | half | half <;> cases pair <;> try cases half
    all_goals first
      | exact absurd hpair (by decide)
      | exact absurd haccess (by decide)
      | exact ⟨_, hfirst.bind_true ((RunsTo.silent hcomma).bind_true ((RunsTo.silent hopens).bind_true
          ((runsTo_noFakes hfakes _).bind_true (hinside.bind_true (runsTo_emitIf hcloses _))))),
          List.cons_ne_nil _ _, rfl⟩
  | dec =>
    -- so is the accumulator; the other registers are loaded from a memory operand
    rcases hbracket with rfl | rfl <;> rcases r with _ | half | half <;> cases pair <;> try cases half
    all_goals first
      | exact absurd hpair (by decide)
      | exact absurd haccess (by decide)
      | exact ⟨_, hfirst.bind_true ((RunsTo.silent hcomma).bind_true ((RunsTo.silent hopens).bind_true
          ((runsTo_noFakes hfakes _).bind_true (hinside.bind_true (runsTo_emitIf hcloses _))))),
          List.cons_ne_nil _ _, rfl⟩
      | exact ⟨_, hfirst.bind_true ((RunsTo.silent hcomma).bind_true ((hmem rfl).bind_true
          (runsTo_warnFake hfakes _ q))), List.cons_ne_nil _ _, rfl⟩

/-- `ldi r,(ix+v)`, `ldd r,(ix+v)` and those with `iy`. -/
theorem encodes_stepLoadIndexed (hfakes : fakesDisabled env = false) (step : Step) {r : Reg} {pair : Pair}
    {v : Aint} {l : List Event} (hpair : indexPair pair = true) (haccess : byteAccess r pair = true)
    (h₁ : ReadsRegister env (byteReg r) p p₁) (hcomma : comma p₁ = ⟨some true, p₂, []⟩)
    (h₂ : ReadsMemory env pair v p₂ q l) :
    ∃ e, RunsTo (step.handler env) p e q ((noError lastPass l = true ∧ InRange v) ∧ True) ∧
      Encodes e [.ld (.reg r) (.mem pair (BitVec.ofInt 8 (lowByte v))), step.instr pair] := by
  have hfirst := runsTo_register (isPlain_byteReg r) h₁
  have hread := runsTo_indexed hfakes hpair h₂
  have hbracket := h₂.bracket
  obtain ⟨bt, inside, behind, close, hbt, hopens, hregister, hdisplacement, hcloses⟩ := h₂
  rw [if_pos hpair] at hdisplacement
  have hinside := runsTo_register (isPlain_pairReg pair) hregister
  have hoffset := runsTo_z80GetIDxoffset hdisplacement
  -- `LDI` and `LDD` read their operands alike, over all registers and both brackets
  cases step with
  | inc =>
    rcases hbracket with rfl | rfl <;> rcases r with _ | half | half <;> cases pair <;> try cases half
    all_goals first
      | exact absurd hpair (by decide)
      | exact absurd haccess (by decide)
      | exact ⟨_, hfirst.bind_true ((RunsTo.silent hcomma).bind_true ((RunsTo.silent hopens).bind_true
          ((runsTo_noFakes hfakes _).bind_true (hinside.bind_true (hoffset.bind
            (runsTo_emitIf hcloses _)))))), List.cons_ne_nil _ _, rfl⟩
  | dec =>
    rcases hbracket with rfl | rfl <;> rcases r with _ | half | half <;> cases pair <;> try cases half
    all_goals first
      | exact absurd hpair (by decide)
      | exact absurd haccess (by decide)
      | exact ⟨_, hfirst.bind_true ((RunsTo.silent hcomma).bind_true ((RunsTo.silent hopens).bind_true
          ((runsTo_noFakes hfakes _).bind_true (hinside.bind_true (hoffset.bind
            (runsTo_emitIf hcloses _)))))), List.cons_ne_nil _ _, rfl⟩
      | exact ⟨_, hfirst.bind_true ((RunsTo.silent hcomma).bind_true (hread.bind
          (runsTo_warnFake hfakes _ q))), List.cons_ne_nil _ _, rfl⟩

/-- `ldi (hl),r` and `ldd (hl),r` -/
theorem encodes_stepStoreHL (hfakes : fakesDisabled env = false) (step : Step) {r : Reg} {v : Aint}
    {l : List Event} (hr : mainReg r = true) (h₁ : ReadsMemory env .hl v p p₁ l)
    (hcomma : comma p₁ = ⟨some true, p₂, []⟩) (h₂ : ReadsRegister env (byteReg r) p₂ q) :
    ∃ e, RunsTo (step.handler env) p e q True ∧ Encodes e [.ld (.mem .hl 0) (.reg r), step.instr .hl] := by
  have hread := runsTo_memHL hfakes h₁
  have hsecond := runsTo_register (isPlain_byteReg r) h₂
  cases step <;> rcases r with _ | half | half <;> try cases half
  all_goals first
    | exact absurd hr (by decide)
    | exact ⟨_, hread.bind_true ((RunsTo.silent hcomma).bind_true (hsecond.bind_true
        (runsTo_warnFake hfakes _ q))), List.cons_ne_nil _ _, rfl⟩

/-- `ldi (bc),a` and `ldi (de),a`, and those with `ldd`. -/
theorem encodes_stepStoreA (hfakes : fakesDisabled env = false) (step : Step) {pair : Pair} {v : Aint}
    {l : List Event} (hpair : pair = .bc ∨ pair = .de) (h₁ : ReadsMemory env pair v p p₁ l)
    (hcomma : comma p₁ = ⟨some true, p₂, []⟩) (h₂ : ReadsRegister env .a p₂ q) :
    ∃ e, RunsTo (step.handler env) p e q True ∧ Encodes e [.ld (.mem pair 0) (.reg .a), step.instr pair] := by
  have hsecond := runsTo_register rfl h₂
  have hbracket := h₁.bracket
  obtain ⟨bt, inside, behind, close, hbt, hopens, hregister, hdisplacement, hcloses⟩ := h₁
  have hpairReg := getRegister_plain (isPlain_pairReg pair) hregister.1
  rw [hregister.2] at hpairReg
  obtain rfl : close = behind := by
    rcases hpair with rfl | rfl <;> exact hdisplacement.1
  -- the first reader finds no memory operand, and the text is read once more
  have hread : RunsTo (getRegister env) p (.unk, none) p True :=
    RunsTo.silent (getRegister_not_memory (not_isLR35902 hfakes) hopens hbt hpairReg
      (by rcases hpair with rfl | rfl <;> rfl))
  have hclose : RunsTo (closeAndComma bt) close true p₂ True :=
    (RunsTo.silent hcloses).bind_true (RunsTo.silent hcomma)
  cases step <;> rcases hpair with rfl | rfl <;> rcases hbracket with rfl | rfl <;>
    exact ⟨_, hread.bind_true ((RunsTo.silent hopens).bind_true ((RunsTo.silent hpairReg).bind_true
      (hclose.bind_true (hsecond.bind_true (runsTo_warnFake hfakes _ q))))), List.cons_ne_nil _ _, rfl⟩

/-- `ldi (ix+v),r`, `ldd (ix+v),r` and those with `iy`. -/
theorem encodes_stepStoreIndexed (hfakes : fakesDisabled env = false) (step : Step) {r : Reg}
    {pair : Pair}
    {v : Aint} {l : List Event} (hpair : indexPair pair = true) (hr : mainReg r = true)
    (h₁ : ReadsMemory env pair v p p₁ l) (hcomma : comma p₁ = ⟨some true, p₂, []⟩)
    (h₂ : ReadsRegister env (byteReg r) p₂ q) :
    ∃ e, RunsTo (step.handler env) p e q ((noError lastPass l = true ∧ InRange v) ∧ True) ∧
      Encodes e [.ld (.mem pair (BitVec.ofInt 8 (lowByte v))) (.reg r), step.instr pair] := by
  have hread := runsTo_indexed hfakes hpair h₁
  have hsecond := runsTo_register (isPlain_byteReg r) h₂
  cases step <;> cases pair <;> rcases r with _ | half | half <;> try cases half
  all_goals first
    | exact absurd hpair (by decide)
    | exact absurd hr (by decide)
    | exact ⟨_, hread.bind ((RunsTo.silent hcomma).bind_true (hsecond.bind_true
        (runsTo_warnFake hfakes _ q))), List.cons_ne_nil _ _, rfl⟩

theorem ofInt_toNat (n : Byte) : BitVec.ofInt 8 (n.toNat : Int) = n := by
  rw [BitVec.ofInt_natCast, BitVec.ofNat_toNat, BitVec.setWidth_eq]

/-- `ldi (hl),n` and `ldd (hl),n` -/
theorem encodes_stepByteHL (hfakes : fakesDisabled env = false) (step : Step) {n : Byte} {v : Aint}
    {d : Option Int} {p₃ : Text} {l l₁ l₂ : List Event} (h₁ : ReadsMemory env .hl v p p₁ l)
    (hcomma : comma p₁ = ⟨some true, p₂, []⟩) (hunk : getRegister env p₂ = ⟨some (.unk, d), p₃, l₁⟩)
    (hbyte : getByteNoMem env false p₃ = ⟨some (n.toNat : Int), q, l₂⟩) :
    ∃ e, RunsTo (step.handler env) p e q (noError lastPass l₁ = true ∧ noError lastPass l₂ = true) ∧
      Encodes e [.ldImm (.mem .hl 0) n, step.instr .hl] := by
  have hread := runsTo_memHL hfakes h₁
  have hsecond : RunsTo (getRegister env) p₂ (.unk, d) p₃ (noError lastPass l₁ = true) :=
    ⟨l₁, hunk, Iff.rfl⟩
  have hvalue : RunsTo (getByteNoMem env) p₃ (n.toNat : Int) q (noError lastPass l₂ = true) :=
    ⟨l₂, hbyte, Iff.rfl⟩
  rw [← ofInt_toNat n]
  cases step <;>
    exact ⟨_, hread.bind_true ((RunsTo.silent hcomma).bind_true (hsecond.bind
      ((runsTo_noFakes hfakes p₃).bind_true hvalue.map))), List.cons_ne_nil _ _, rfl⟩

/-- `ldi (ix+v),n`, `ldd (ix+v),n` and those with `iy`: the displacement is the one of `n` where `n` has
one. -/
theorem encodes_stepByteIndexed (hfakes : fakesDisabled env = false) (step : Step) {pair : Pair}
    (hpair : indexPair pair = true) {n : Byte} {v : Aint} {d : Option Int} {p₃ : Text}
    {l l₁ l₂ : List Event} (h₁ : ReadsMemory env pair v p p₁ l) (hcomma : comma p₁ = ⟨some true, p₂, []⟩)
    (hunk : getRegister env p₂ = ⟨some (.unk, d), p₃, l₁⟩)
    (hbyte : getByteNoMem env false p₃ = ⟨some (n.toNat : Int), q, l₂⟩) {u : Aint}
    (hu : (d.or (some (lowByte v))).getD 0 = lowByte u) :
    ∃ e, RunsTo (step.handler env) p e q ((noError lastPass l = true ∧ InRange v) ∧
        noError lastPass l₁ = true ∧ noError lastPass l₂ = true) ∧
      Encodes e [.ldImm (.mem pair (BitVec.ofInt 8 (lowByte u))) n, step.instr pair] := by
  have hread := runsTo_indexed hfakes hpair h₁
  have hsecond : RunsTo (getRegister env) p₂ (.unk, d) p₃ (noError lastPass l₁ = true) :=
    ⟨l₁, hunk, Iff.rfl⟩
  have hvalue : RunsTo (getByteNoMem env) p₃ (n.toNat : Int) q (noError lastPass l₂ = true) :=
    ⟨l₂, hbyte, Iff.rfl⟩
  -- the displacement that is emitted may be the one read with the byte operand
  have hstep : ∀ prefix1 hlStep, RunsTo
      (stepMemIndexed env hlStep prefix1 ((d.or (some (lowByte v))).getD 0) .unk) p₃
      [prefix1, 0x36, lowByte u, n.toNat, instructionStartMarker, prefix1, hlStep] q
      (noError lastPass l₂ = true) := by
    intro prefix1 hlStep
    rw [hu]
    exact (runsTo_noFakes hfakes p₃).bind_true hvalue.map
  rw [← ofInt_toNat n]
  cases step <;> cases pair <;> first
    | exact absurd hpair (by decide)
    | exact ⟨_, hread.bind ((RunsTo.silent hcomma).bind_true (hsecond.bind (hstep _ _))),
        List.cons_ne_nil _ _, rfl⟩

/-! ### Arithmetic -/

/-- The operations with two pairs read their first operand twice. -/
theorem runsTo_pairArgument {reg reg2 : Z80Reg} {d : Option Int} {e : List Int}
    {pairs : Z80Reg → Z80Reg → Reader (List Int)} (hreg : reg = .de ∨ reg = .hl)
    (h₁ : RunsTo (getRegister env) p (reg, none) p₁ True) (hcomma : comma p₁ = ⟨some true, p₂, []⟩)
    (h₂ : RunsTo (getRegister env) p₂ (reg2, d) q True) (h₃ : RunsTo (pairs reg reg2) q e q True)
    (opcodeBase : Int) (nonMultiArgComma : Bool) (name : String) :
    RunsTo (pairArgument env opcodeBase nonMultiArgComma name pairs) p (some e) q True := by
  have hcommon : RunsTo (commonAluOpcode env opcodeBase true nonMultiArgComma) p none p True := by
    rcases hreg with rfl | rfl <;>
      exact (RunsTo.silent (peek_apply p)).bind_true (h₁.bind_true
        ((RunsTo.silent (seek_apply p p₁)).bind_true (RunsTo.pure none p)))
  rcases hreg with rfl | rfl <;>
    exact hcommon.bind_true (h₁.bind_true ((RunsTo.silent hcomma).bind_true (h₂.bind_true h₃.map)))

theorem performs_some {x : Reader (Option (List Int))} {e : List Int} {instrs : List Z80Cpu.Instr}
    (hrun : RunsTo x p (some e) q c) (hencodes : Encodes e instrs)
    (heffect : ∀ s, Z80Cpu.run s instrs = effect s) : Performs x p c effect :=
  ⟨e, q, hrun, fun _ => ⟨instrs, hencodes, heffect⟩⟩

/-- `add de,r`, `adc de,r` and `sbc de,r` -/
theorem performs_arith (hfakes : fakesDisabled env = false) (op : Z80Cpu.Arith) {r : Wide}
    (hr : mainWide r = true) (h₁ : ReadsRegister env .de p p₁) (hcomma : comma p₁ = ⟨some true, p₂, []⟩)
    (h₂ : ReadsRegister env (wideReg r) p₂ q) :
    Performs ((Fake.arith op r hr).argument env) p True fun s => (Fake.arith op r hr).effect s := by
  have hfirst := runsTo_register rfl h₁
  have hsecond := runsTo_register (isPlain_wideReg r) h₂
  obtain ⟨e, hrun, hencodes⟩ : ∃ e, RunsTo ((Fake.arith op r hr).argument env) p (some e) q True ∧
      Encodes e [.exDeHl, op.instr r.exchange, .exDeHl] := by
    cases op <;> rcases r with pair | _ <;> try cases pair
    all_goals first
      | exact absurd hr (by decide)
      | exact ⟨_, runsTo_pairArgument (Or.inl rfl) hfirst hcomma hsecond (runsTo_fake hfakes _ q) _ _ _,
          List.cons_ne_nil _ _, rfl⟩
  exact performs_some hrun hencodes fun s => Z80Cpu.run_exchange s op r

/-- The instructions that subtract without a borrow from before. -/
def subInstrs (r : Wide) : Pair → List Z80Cpu.Instr
  | .de => [.or (.reg .a), .exDeHl, .sbcHl r.exchange, .exDeHl]
  | _ => [.or (.reg .a), .sbcHl r]

theorem run_subInstrs {dst : Pair} (hdst : dst = .de ∨ dst = .hl) (r : Wide) (s : State) :
    Z80Cpu.run s (subInstrs r dst)
      = s.setResult dst (s.pairs dst - s.getWide r, (s.pairs dst).toNat < (s.getWide r).toNat) := by
  have hwide : State.getWide { s with carry := false } r = s.getWide r := by cases r <;> rfl
  rcases hdst with rfl | rfl
  · rw [subInstrs, Z80Cpu.run_cons, Z80Cpu.step_orA, ← Z80Cpu.apply_sbc_false, ← hwide]
    exact Z80Cpu.run_exchange _ .sbc r
  · rw [← Z80Cpu.apply_sbc_false, ← hwide]
    change Z80Cpu.run ((Z80Cpu.Instr.or (.reg .a)).step s) [Z80Cpu.Arith.sbc.instr r] = _
    rw [Z80Cpu.step_orA]
    exact Z80Cpu.step_instr _ .sbc r

/-- `sub de,r` and `sub hl,r` -/
theorem performs_sub (hfakes : fakesDisabled env = false) {dst : Pair} {r : Wide}
    (hdst : dst = .de ∨ dst = .hl) (hr : mainWide r = true) (h₁ : ReadsRegister env (pairReg dst) p p₁)
    (hcomma : comma p₁ = ⟨some true, p₂, []⟩) (h₂ : ReadsRegister env (wideReg r) p₂ q) :
    Performs ((Fake.sub dst r hdst hr).argument env) p True fun s => (Fake.sub dst r hdst hr).effect s := by
  have hfirst := runsTo_register (isPlain_pairReg dst) h₁
  have hsecond := runsTo_register (isPlain_wideReg r) h₂
  have hreg : pairReg dst = .de ∨ pairReg dst = .hl := by
    rcases hdst with rfl | rfl
    · exact Or.inl rfl
    · exact Or.inr rfl
  obtain ⟨e, hrun, hencodes⟩ : ∃ e, RunsTo ((Fake.sub dst r hdst hr).argument env) p (some e) q True ∧
      Encodes e (subInstrs r dst) := by
    rcases hdst with rfl | rfl <;> rcases r with pair | _ <;> try cases pair
    all_goals first
      | exact absurd hr (by decide)
      | exact ⟨_, runsTo_pairArgument hreg hfirst hcomma hsecond (runsTo_fake hfakes _ q) _ _ _,
          List.cons_ne_nil _ _, rfl⟩
  exact performs_some hrun hencodes fun s => run_subInstrs hdst r s

/-! ### Shifts -/

/-- The instructions that shift a pair. -/
def shiftInstrs (p : Pair) : Shift → List Z80Cpu.Instr
  | .rl => [.rotate .rl (.low p), .rotate .rl (.high p)]
  | .rr => [.rotate .rr (.high p), .rotate .rr (.low p)]
  | .sla =>
    if p = .hl then [.add .hl (.pair .hl)] else [.rotate .sla (.low p), .rotate .rl (.high p)]
  | .sll => [.rotate .sll (.low p), .rotate .rl (.high p)]
  | .sra => [.rotate .sra (.high p), .rotate .rr (.low p)]
  | .srl => [.rotate .srl (.high p), .rotate .rr (.low p)]

theorem run_shiftInstrs (op : Shift) (pair : Pair) (s : State) :
    Z80Cpu.run s (shiftInstrs pair op) = s.setResult pair (op.apply s.carry (s.pairs pair)) := by
  have htop : Z80Cpu.top (s.pairs pair) = Z80Cpu.top (Z80Cpu.high (s.pairs pair)) := by
    conv_lhs => rw [← Z80Cpu.word_high_low (s.pairs pair)]
    exact Z80Cpu.top_word _ _
  cases op with
  | rl => exact Z80Cpu.run_shiftLeft s rfl
  | rr => exact Z80Cpu.run_shiftRight s rfl
  | sla =>
    by_cases hhl : pair = .hl
    · subst hhl
      rw [shiftInstrs, if_pos rfl, Shift.apply, ← Z80Cpu.apply_add_self s.carry]
      rfl
    · rw [shiftInstrs, if_neg hhl]
      exact Z80Cpu.run_shiftLeft s rfl
  | sll => exact Z80Cpu.run_shiftLeft s rfl
  | sra => exact Z80Cpu.run_shiftRight s (by rw [htop]; rfl)
  | srl => exact Z80Cpu.run_shiftRight s rfl

/-- A rotation reads a register pair. -/
theorem runsTo_rotateArgument (hfakes : fakesDisabled env = false) {pair : Pair}
    (hpair : mainPair pair = true) (h : ReadsRegister env (pairReg pair) p q) (baseOpcode : Int)
    (numbers : Z80Reg → List Int) :
    RunsTo (rotateArgument env baseOpcode numbers) p (numbers (pairReg pair)) q True := by
  have hread := runsTo_register (isPlain_pairReg pair) h
  have hfake := runsTo_fake hfakes (numbers (pairReg pair)) q
  have hfamily : RunsTo (opCode_CbFamily env baseOpcode) p ([], pairReg pair) q True := by
    cases pair with
    | bc | de | hl => exact hread.bind_true (RunsTo.pure _ q)
    | ix | iy => exact absurd hpair (by decide)
  cases pair with
  | bc | de | hl => exact hfamily.bind_true hfake
  | ix | iy => exact absurd hpair (by decide)

/-- `rl p` and the other shifts. -/
theorem performs_shift (hfakes : fakesDisabled env = false) (op : Shift) {pair : Pair}
    (hpair : mainPair pair = true) (h : ReadsRegister env (pairReg pair) p q) :
    Performs ((Fake.shift op pair hpair).argument env) p True fun s =>
      (Fake.shift op pair hpair).effect s := by
  have hread := runsTo_rotateArgument hfakes hpair h
  obtain ⟨e, hrun, hencodes⟩ : ∃ e, RunsTo ((Fake.shift op pair hpair).argument env) p (some e) q True ∧
      Encodes e (shiftInstrs pair op) := by
    -- each shift has its own second opcode; the pairs are encoded one by one
    cases op with
    | rl =>
      refine ⟨_, (hread 0x10 _).map, ?_⟩
      cases pair <;> first | exact absurd hpair (by decide) | exact ⟨List.cons_ne_nil _ _, rfl⟩
    | rr =>
      refine ⟨_, (hread 0x18 _).map, ?_⟩
      cases pair <;> first | exact absurd hpair (by decide) | exact ⟨List.cons_ne_nil _ _, rfl⟩
    | sla =>
      refine ⟨_, (hread 0x20 _).map, ?_⟩
      cases pair <;> first | exact absurd hpair (by decide) | exact ⟨List.cons_ne_nil _ _, rfl⟩
    | sll =>
      refine ⟨_, (hread 0x30 _).map, ?_⟩
      cases pair <;> first | exact absurd hpair (by decide) | exact ⟨List.cons_ne_nil _ _, rfl⟩
    | sra =>
      refine ⟨_, (hread 0x28 _).map, ?_⟩
      cases pair <;> first | exact absurd hpair (by decide) | exact ⟨List.cons_ne_nil _ _, rfl⟩
    | srl =>
      refine ⟨_, (hread 0x38 _).map, ?_⟩
      cases pair <;> first | exact absurd hpair (by decide) | exact ⟨List.cons_ne_nil _ _, rfl⟩
  exact performs_some hrun hencodes fun s => run_shiftInstrs op pair s

/-! ### All fake instructions -/

theorem memAddress_zero (s : State) (pair : Pair) : memAddress s pair 0 = s.pairs pair :=
  BitVec.add_zero _

/-- A memory operand at another register has no displacement. -/
theorem ReadsMemory.plain {pair : Pair} {v : Aint} {l : List Event} (h : ReadsMemory env pair v p q l)
    (hpair : indexPair pair = false) : v = 0 ∧ l = [] := by
  have hdisplacement := h.displacement
  rw [hpair] at hdisplacement
  exact hdisplacement.2

theorem inRange_zero : InRange 0 := ⟨by decide, by decide⟩

theorem inRange_one : InRange (0 + 1) := ⟨by decide, by decide⟩

/-- The pointer registers of words. -/
theorem wordAccess_cases {r pair : Pair} (h : wordAccess r pair = true) :
    (pair = .hl ∧ (r = .bc ∨ r = .de)) ∨ (indexPair pair = true ∧ mainPair r = true) := by
  revert h
  cases r <;> cases pair <;> decide

/-- The pointer registers of bytes. -/
theorem byteAccess_cases {r : Reg} {pair : Pair} (h : byteAccess r pair = true) :
    mainReg r = true ∧ (pair = .hl ∨ (pair = .bc ∨ pair = .de) ∧ r = .a ∨ indexPair pair = true) := by
  revert h
  rcases r with _ | half | half <;> cases pair <;> try cases half
  all_goals decide

/-- A load of a pair. -/
theorem standsFor_load (hfakes : fakesDisabled env = false) {dst pair : Pair} {v : Aint} {l : List Event}
    (h : wordAccess dst pair = true) (h₁ : ReadsRegister env (pairReg dst) p p₁)
    (hcomma : comma p₁ = ⟨some true, p₂, []⟩) (h₂ : ReadsMemory env pair v p₂ q l) :
    StandsFor env (.load dst pair v h) p l := by
  refine Performs.standsFor (f := .load dst pair v h) ?_
  rcases wordAccess_cases h with ⟨rfl, hdst⟩ | ⟨hpair, hdst⟩
  · obtain ⟨rfl, rfl⟩ := h₂.plain rfl
    simp only [Fake.effect, memAddress_zero]
    exact (performs_loadHL hfakes hdst h₁ hcomma h₂).congr
      (iff_of_true trivial ⟨rfl, inRange_zero, inRange_one⟩)
  · exact performs_loadIndexed hfakes hdst hpair h₁ hcomma h₂

/-- A store of a pair. -/
theorem standsFor_store (hfakes : fakesDisabled env = false) {src pair : Pair} {v : Aint} {l : List Event}
    (h : wordAccess src pair = true) (h₁ : ReadsMemory env pair v p p₁ l)
    (hcomma : comma p₁ = ⟨some true, p₂, []⟩) (h₂ : ReadsRegister env (pairReg src) p₂ q) :
    StandsFor env (.store pair src v h) p l := by
  refine Performs.standsFor (f := .store pair src v h) ?_
  rcases wordAccess_cases h with ⟨rfl, hsrc⟩ | ⟨hpair, hsrc⟩
  · obtain ⟨rfl, rfl⟩ := h₁.plain rfl
    simp only [Fake.effect, memAddress_zero]
    exact (performs_storeHL hfakes hsrc h₁ hcomma h₂).congr
      (iff_of_true trivial ⟨rfl, inRange_zero, inRange_one⟩)
  · exact performs_storeIndexed hfakes hsrc hpair h₁ hcomma h₂

/-- `ldi` into a pair. -/
theorem standsFor_loadInc (hfakes : fakesDisabled env = false) {dst pair : Pair} {v : Aint}
    {l : List Event} (h : wordAccess dst pair = true) (h₁ : ReadsRegister env (pairReg dst) p p₁)
    (hcomma : comma p₁ = ⟨some true, p₂, []⟩) (h₂ : ReadsMemory env pair v p₂ q l) :
    StandsFor env (.loadInc dst pair v h) p l := by
  refine Performs.standsFor (f := .loadInc dst pair v h) ?_
  rcases wordAccess_cases h with ⟨rfl, hdst⟩ | ⟨hpair, hdst⟩
  · obtain ⟨rfl, rfl⟩ := h₂.plain rfl
    simp only [Fake.effect, memAddress_zero]
    exact (performs_loadIncHL hfakes hdst h₁ hcomma h₂).congr (iff_of_true trivial ⟨rfl, inRange_zero⟩)
  · exact performs_loadIncIndexed hfakes hdst hpair h₁ hcomma h₂

/-- `ldi` of a pair into memory. -/
theorem standsFor_storeInc (hfakes : fakesDisabled env = false) {src pair : Pair} {v : Aint}
    {l : List Event} (h : wordAccess src pair = true) (h₁ : ReadsMemory env pair v p p₁ l)
    (hcomma : comma p₁ = ⟨some true, p₂, []⟩) (h₂ : ReadsRegister env (pairReg src) p₂ q) :
    StandsFor env (.storeInc pair src v h) p l := by
  refine Performs.standsFor (f := .storeInc pair src v h) ?_
  rcases wordAccess_cases h with ⟨rfl, hsrc⟩ | ⟨hpair, hsrc⟩
  · obtain ⟨rfl, rfl⟩ := h₁.plain rfl
    simp only [Fake.effect, memAddress_zero]
    exact (performs_storeIncHL hfakes hsrc h₁ hcomma h₂).congr (iff_of_true trivial ⟨rfl, inRange_zero⟩)
  · exact performs_storeIncIndexed hfakes hsrc hpair h₁ hcomma h₂

/-- `ldi` and `ldd` into an 8-bit register. -/
theorem standsFor_stepLoad (hfakes : fakesDisabled env = false) (step : Step) {r : Reg} {pair : Pair}
    {v : Aint} {l : List Event} (h : byteAccess r pair = true) (hwithin : r.within pair = false)
    (h₁ : ReadsRegister env (byteReg r) p p₁) (hcomma : comma p₁ = ⟨some true, p₂, []⟩)
    (h₂ : ReadsMemory env pair v p₂ q l) : StandsFor env (.stepLoad step r pair v h hwithin) p l := by
  refine Performs.standsFor (f := .stepLoad step r pair v h hwithin) ?_
  have hargument : (Fake.stepLoad step r pair v h hwithin).argument env = some <$> step.handler env := by
    cases step <;> rfl
  rw [hargument]
  by_cases hpair : indexPair pair = true
  · obtain ⟨e, hrun, hencodes⟩ := encodes_stepLoadIndexed hfakes step hpair h h₁ hcomma h₂
    refine performs_map (hrun.congr (iff_of_eq (and_true _))) hencodes fun hc s => ?_
    rw [run_stepLoad step hwithin, address_lowByte hc.2]
    rfl
  · rw [Bool.not_eq_true] at hpair
    obtain ⟨rfl, rfl⟩ := h₂.plain hpair
    obtain ⟨e, hrun, hencodes⟩ := encodes_stepLoad hfakes step hpair h h₁ hcomma h₂
    refine performs_map (hrun.congr (iff_of_true trivial ⟨rfl, inRange_zero⟩)) hencodes fun _ s => ?_
    rw [run_stepLoad step hwithin, Z80Cpu.address_zero, ← memAddress_zero]
    rfl

/-- `ldi` and `ldd` of an 8-bit register into memory. -/
theorem standsFor_stepStore (hfakes : fakesDisabled env = false) (step : Step) {r : Reg} {pair : Pair}
    {v : Aint} {l : List Event} (h : byteAccess r pair = true) (h₁ : ReadsMemory env pair v p p₁ l)
    (hcomma : comma p₁ = ⟨some true, p₂, []⟩) (h₂ : ReadsRegister env (byteReg r) p₂ q) :
    StandsFor env (.stepStore step pair r v h) p l := by
  refine Performs.standsFor (f := .stepStore step pair r v h) ?_
  have hargument : (Fake.stepStore step pair r v h).argument env = some <$> step.handler env := by
    cases step <;> rfl
  rw [hargument]
  obtain ⟨hr, hcases⟩ := byteAccess_cases h
  -- an index register has a displacement; the other pairs are `HL`, and `BC` and `DE` with `A`
  by_cases hpair : indexPair pair = true
  · obtain ⟨e, hrun, hencodes⟩ := encodes_stepStoreIndexed hfakes step hpair hr h₁ hcomma h₂
    refine performs_map (hrun.congr (iff_of_eq (and_true _))) hencodes fun hc s => ?_
    rw [run_stepStore, address_lowByte hc.2]
    rfl
  · obtain ⟨rfl, rfl⟩ := h₁.plain (Bool.not_eq_true _ ▸ hpair)
    obtain ⟨e, hrun, hencodes⟩ : ∃ e, RunsTo (step.handler env) p e q True ∧
        Encodes e [.ld (.mem pair 0) (.reg r), step.instr pair] := by
      rcases hcases with rfl | ⟨hcases, rfl⟩ | hindex
      · exact encodes_stepStoreHL hfakes step hr h₁ hcomma h₂
      · exact encodes_stepStoreA hfakes step hcases h₁ hcomma h₂
      · exact absurd hindex hpair
    refine performs_map (hrun.congr (iff_of_true trivial ⟨rfl, inRange_zero⟩)) hencodes fun _ s => ?_
    rw [run_stepStore, Z80Cpu.address_zero, ← memAddress_zero]
    rfl

/-- `ldi (hl),n` and `ldd (hl),n`. -/
theorem standsFor_stepByteHL (hfakes : fakesDisabled env = false) (step : Step) {n : Byte} {v : Aint}
    {l l' : List Event} (h : Pair.hl = .hl ∨ indexPair .hl = true) (h₁ : ReadsMemory env .hl v p p₁ l)
    (hcomma : comma p₁ = ⟨some true, p₂, []⟩) (h₂ : (Operand.byte n).Reads env p₂ q l') :
    StandsFor env (.stepByte step .hl n v h) p (l ++ l') := by
  refine Performs.standsFor (f := .stepByte step .hl n v h) ?_
  obtain ⟨rfl, rfl⟩ := h₁.plain rfl
  obtain ⟨d, p₃, l₁, l₂, hunk, hbyte, rfl⟩ := h₂
  have hargument : (Fake.stepByte step .hl n 0 h).argument env = some <$> step.handler env := by
    cases step <;> rfl
  rw [hargument]
  obtain ⟨e, hrun, hencodes⟩ := encodes_stepByteHL hfakes step h₁ hcomma hunk hbyte
  refine performs_map (hrun.congr ?_) hencodes fun _ s => ?_
  · rw [List.nil_append, noError_append, Bool.and_eq_true]
    exact (and_iff_left inRange_zero).symm
  · rw [run_stepByte, Z80Cpu.address_zero, ← memAddress_zero]
    rfl

theorem ofInt_lowByte_inj {u v : Aint} (h : BitVec.ofInt 8 (lowByte u) = BitVec.ofInt 8 (lowByte v)) :
    lowByte u = lowByte v := by
  have htoNat := congrArg BitVec.toNat h
  rw [toNat_lowByte, toNat_lowByte] at htoNat
  rw [lowByte, lowByte, htoNat]

/-- `ldi (ix+v),n`, `ldd (ix+v),n` and those with `iy`, where the byte may have another displacement. -/
theorem standsFor_stepByteIndexed_iff (hfakes : fakesDisabled env = false) (step : Step) {pair : Pair}
    (hpair : indexPair pair = true) {n : Byte} {v : Aint} {l l' : List Event}
    (h : pair = .hl ∨ indexPair pair = true) (h₁ : ReadsMemory env pair v p p₁ l)
    (hcomma : comma p₁ = ⟨some true, p₂, []⟩) (h₂ : (Operand.byte n).Reads env p₂ q l') :
    StandsFor env (.stepByte step pair n v h) p (l ++ l') ↔
      (Fake.stepByte step pair n v h).KeepsDisplacement env p₂ (l ++ l') := by
  obtain ⟨d, p₃, l₁, l₂, hunk, hbyte, rfl⟩ := h₂
  have hval : (getRegister env p₂).val = some (.unk, d) := by rw [hunk]
  -- the displacement in the bytes
  obtain ⟨u, hu, hkeeps⟩ : ∃ u, (d.or (some (lowByte v))).getD 0 = lowByte u ∧
      (lowByte u = lowByte v ↔ ∀ x, d = some x → x = lowByte v) := by
    cases d with
    | none => exact ⟨v, rfl, iff_of_true rfl fun _ hx => absurd hx (by simp)⟩
    | some x =>
      obtain ⟨u, rfl⟩ := getRegister_isByte p₂ _ hval x rfl
      exact ⟨u, rfl, fun heq _ hx => (Option.some.inj hx).symm.trans heq, fun hx => hx _ rfl⟩
  obtain ⟨e, hrun, hencodes⟩ := encodes_stepByteIndexed hfakes step hpair h₁ hcomma hunk hbyte hu
  have hargument : (Fake.stepByte step pair n v h).argument env = some <$> step.handler env := by
    cases step <;> rfl
  have hrun' : RunsTo ((Fake.stepByte step pair n v h).argument env) p (some e) q
      (noError lastPass (l ++ (l₁ ++ l₂)) = true ∧ (Fake.stepByte step pair n v h).Encodable) := by
    rw [hargument]
    refine hrun.map.congr ?_
    rw [noError_append, noError_append, Bool.and_eq_true, Bool.and_eq_true, and_right_comm]
    rfl
  rw [standsFor_iff_effect _ hrun' fun _ => hencodes]
  constructor
  · intro heffect _ hlog hv x hx
    have hstore := heffect ⟨hlog, hv⟩
    have hmemory : ∀ s : State,
        (s.store (Z80Cpu.Loc.address s pair (BitVec.ofInt 8 (lowByte u))) n).memory
          = (s.store (Z80Cpu.Loc.address s pair (BitVec.ofInt 8 (lowByte v))) n).memory := by
      intro s
      have hmemory := congrArg State.memory (hstore s)
      rwa [run_stepByte, Fake.effect, ← address_lowByte hv] at hmemory
    refine hkeeps.mp (ofInt_lowByte_inj (Z80Cpu.displacement_of_store hmemory)) x ?_
    rw [hval] at hx
    exact (Prod.mk.inj (Option.some.inj hx)).2
  · rintro hkeep ⟨hlog, hv⟩ s
    have hdisplacement := hkeeps.mpr fun x hx => hkeep hpair hlog hv x (by rw [hval, hx])
    rw [run_stepByte, hdisplacement, address_lowByte hv]
    rfl

/-- **Every fake instruction does what it stands for** if and only if its byte operand, where it has one
behind an index register, leaves the displacement as it is. -/
theorem standsFor_iff (hfakes : fakesDisabled env = false) {f : Fake} {l : List Event}
    (hreads : f.Reads env p p₂ q l) : StandsFor env f p l ↔ f.KeepsDisplacement env p₂ l := by
  -- one case for each fake instruction; a byte behind an index register is the exception
  cases f with
  | copy dst src =>
    obtain ⟨p₁, l₁, l₂, ⟨h₁, rfl⟩, hcomma, ⟨h₂, rfl⟩, rfl⟩ := hreads
    refine iff_of_true (Performs.standsFor (f := .copy dst src) ?_) trivial
    exact (performs_copy hfakes h₁ hcomma h₂).congr (iff_of_true trivial ⟨rfl, trivial⟩)
  | load dst pair v h =>
    obtain ⟨p₁, l₁, l₂, ⟨h₁, rfl⟩, hcomma, ⟨h₂⟩, rfl⟩ := hreads
    exact iff_of_true (standsFor_load hfakes h h₁ hcomma h₂) trivial
  | store pair src v h =>
    obtain ⟨p₁, l₁, l₂, ⟨h₁⟩, hcomma, ⟨h₂, rfl⟩, rfl⟩ := hreads
    rw [List.append_nil]
    exact iff_of_true (standsFor_store hfakes h h₁ hcomma h₂) trivial
  | loadInc dst pair v h =>
    obtain ⟨p₁, l₁, l₂, ⟨h₁, rfl⟩, hcomma, ⟨h₂⟩, rfl⟩ := hreads
    exact iff_of_true (standsFor_loadInc hfakes h h₁ hcomma h₂) trivial
  | storeInc pair src v h =>
    obtain ⟨p₁, l₁, l₂, ⟨h₁⟩, hcomma, ⟨h₂, rfl⟩, rfl⟩ := hreads
    rw [List.append_nil]
    exact iff_of_true (standsFor_storeInc hfakes h h₁ hcomma h₂) trivial
  | stepLoad step r pair v h hwithin =>
    obtain ⟨p₁, l₁, l₂, ⟨h₁, rfl⟩, hcomma, ⟨h₂⟩, rfl⟩ := hreads
    exact iff_of_true (standsFor_stepLoad hfakes step h hwithin h₁ hcomma h₂) trivial
  | stepStore step pair r v h =>
    obtain ⟨p₁, l₁, l₂, ⟨h₁⟩, hcomma, ⟨h₂, rfl⟩, rfl⟩ := hreads
    rw [List.append_nil]
    exact iff_of_true (standsFor_stepStore hfakes step h h₁ hcomma h₂) trivial
  | stepByte step pair n v h =>
    obtain ⟨p₁, l₁, l₂, ⟨h₁⟩, hcomma, h₂, rfl⟩ := hreads
    -- without an index register there is no displacement to change
    by_cases hpair : indexPair pair = true
    · exact standsFor_stepByteIndexed_iff hfakes step hpair h h₁ hcomma h₂
    · obtain rfl : pair = .hl := h.resolve_right hpair
      exact iff_of_true (standsFor_stepByteHL hfakes step h h₁ hcomma h₂) fun hindex =>
        absurd hindex hpair
  | arith op r h =>
    obtain ⟨p₁, l₁, l₂, ⟨h₁, rfl⟩, hcomma, ⟨h₂, rfl⟩, rfl⟩ := hreads
    refine iff_of_true (Performs.standsFor ?_) trivial
    exact (performs_arith hfakes op h h₁ hcomma h₂).congr (iff_of_true trivial ⟨rfl, trivial⟩)
  | sub dst r hdst h =>
    obtain ⟨p₁, l₁, l₂, ⟨h₁, rfl⟩, hcomma, ⟨h₂, rfl⟩, rfl⟩ := hreads
    refine iff_of_true (Performs.standsFor ?_) trivial
    exact (performs_sub hfakes hdst h h₁ hcomma h₂).congr (iff_of_true trivial ⟨rfl, trivial⟩)
  | shift op pair h =>
    obtain ⟨⟨h₁, rfl⟩, -⟩ := hreads
    refine iff_of_true (Performs.standsFor ?_) trivial
    exact (performs_shift hfakes op h h₁).congr (iff_of_true trivial ⟨rfl, trivial⟩)

end Arguments

/-! ### A byte with another displacement -/

/-- The labels `ix` and `mod`. -/
def keywordLabels (name : Text) : Option LabelEntry :=
  if name = ['i', 'x'] then some ⟨8, 0, 0, 0, 0, .off⟩
  else if name = ['m', 'o', 'd'] then some ⟨7, 0, 0, 0, 0, .off⟩
  else none

/-- The default options in the last pass, with the labels `ix` and `mod`. -/
def keywordEnv : InstructionEnv where
  isI8080 := false
  isLR35902 := false
  fakeEnabled := true
  fakeWarning := false
  caseInsensitiveInstructions := false
  is_M_Memory := false
  memoryBrackets := 0
  isNextEnabled := 0
  isReversePOP := false
  isMultiArgPlainComma := true
  expr := { ExprEnv.plain with labels := { ExprEnv.plain.labels with table := keywordLabels } }
  bp := []
  line := []

/-- The operands of `ldi (ix+1),5`. -/
theorem reads_five : (Fake.stepByte .inc .ix 5 1 (Or.inr rfl)).Reads keywordEnv
    ['(', 'i', 'x', '+', '1', ')', ',', '5'] ['5'] [] [] := by
  refine ⟨[',', '5'], [], [], ⟨?_⟩, rfl, ?_, rfl⟩
  · exact {
      bt := .round
      inside := ['i', 'x', '+', '1', ')', ',', '5']
      behind := ['+', '1', ')', ',', '5']
      close := [')', ',', '5']
      bt_ne := by decide
      opens := rfl
      register := ⟨by decide, by decide⟩
      displacement := .expression (by decide) (Outcome.ext (by decide) (by decide) (by decide))
      closes := rfl }
  · exact ⟨none, ['5'], [], [], Outcome.ext (by decide) (by decide) (by decide),
      Outcome.ext (by decide) (by decide) (by decide), rfl⟩

/-- `ldi (ix+1),5` does what it stands for. -/
theorem standsFor_five : fakesDisabled keywordEnv = false ∧
    StandsFor keywordEnv (.stepByte .inc .ix 5 1 (Or.inr rfl)) ['(', 'i', 'x', '+', '1', ')', ',', '5'] [] :=
  ⟨rfl, (standsFor_iff rfl reads_five).mpr fun _ _ _ d hd => by
    have hnone : (getRegister keywordEnv ['5']).val = some (.unk, none) := by decide
    rw [hnone] at hd
    exact absurd hd (by simp)⟩

/-- The operands of `ldi (ix+1),(ix mod 5)`. -/
theorem reads_keyword : (Fake.stepByte .inc .ix 3 1 (Or.inr rfl)).Reads keywordEnv
    ['(', 'i', 'x', '+', '1', ')', ',', '(', 'i', 'x', ' ', 'm', 'o', 'd', ' ', '5', ')']
    ['(', 'i', 'x', ' ', 'm', 'o', 'd', ' ', '5', ')'] [] [] := by
  refine ⟨[',', '(', 'i', 'x', ' ', 'm', 'o', 'd', ' ', '5', ')'], [], [], ⟨?_⟩, rfl, ?_, rfl⟩
  · exact {
      bt := .round
      inside := ['i', 'x', '+', '1', ')', ',', '(', 'i', 'x', ' ', 'm', 'o', 'd', ' ', '5', ')']
      behind := ['+', '1', ')', ',', '(', 'i', 'x', ' ', 'm', 'o', 'd', ' ', '5', ')']
      close := [')', ',', '(', 'i', 'x', ' ', 'm', 'o', 'd', ' ', '5', ')']
      bt_ne := by decide
      opens := rfl
      register := ⟨by decide, by decide⟩
      displacement := .expression (by decide) (Outcome.ext (by decide) (by decide) (by decide))
      closes := rfl }
  · exact ⟨some 7, ['(', 'i', 'x', ' ', 'm', 'o', 'd', ' ', '5', ')'], [], [],
      Outcome.ext (by decide) (by decide) (by decide), Outcome.ext (by decide) (by decide) (by decide), rfl⟩

/-- `ldi (ix+1),(ix mod 5)` stores its byte at the value of `mod` behind `ix`. -/
theorem not_standsFor : ¬∀ (env : InstructionEnv) (f : Fake) (p p₂ q : Text) (l : List Event),
    fakesDisabled env = false → f.Reads env p p₂ q l → StandsFor env f p l := by
  intro h
  have hstands := h keywordEnv _ _ _ _ _ rfl reads_keyword
  have haccepted : noError lastPass (emitArgument keywordEnv (some <$> ldi keywordEnv)
      ['(', 'i', 'x', '+', '1', ')', ',', '(', 'i', 'x', ' ', 'm', 'o', 'd', ' ', '5', ')']).log = true := by
    decide
  have hbytes : (emitArgument keywordEnv (some <$> ldi keywordEnv)
      ['(', 'i', 'x', '+', '1', ')', ',', '(', 'i', 'x', ' ', 'm', 'o', 'd', ' ', '5', ')']).val
        = some (some [0xDD, 0x36, 7, 3, 0xDD, 0x23]) := by
    decide
  obtain ⟨bytes, hval, heffect⟩ := hstands.runs haccepted
  obtain rfl := Option.some.inj (Option.some.inj (hbytes.symm.trans hval))
  -- all of the memory is 0 before
  have hrun := heffect ⟨0, fun _ => 0, 0, false, fun _ => 0, ⟨0, 0, 0, 0, 0⟩⟩
  have hmemory := congrArg (fun s => s.map fun s => s.memory 7) hrun
  exact absurd hmemory (by decide)

end Z80

end Sjasmplus
