import Sjasmplus.LoadInstructions

/-!
# Arithmetic and rotations (`z80.cpp`)

`CommonAluOpcode` and `OpCode_CbFamily` read the operands that real instructions have.  Behind them are the
operations on register pairs, real and fake.
-/

namespace Sjasmplus

open Parsing ParseFn

namespace Z80

section

variable (env : InstructionEnv)

/-! ### 8-bit arithmetic -/

/-- The operand of an 8-bit operation, which `CommonAluOpcode` has read. -/
def aluOperand (opcodeBase : Int) (reg : Z80Reg) (lastIxyD : Int) : Reader (List Int) :=
  match reg with
  | .ixh | .ixl | .iyh | .iyl | .memIX | .memIY =>
    let (prefixByte, reg) := reg.indexed.getD (0, reg)
    pure ([prefixByte, opcodeBase + reg.value] ++ if reg = .memHL then [lastIxyD] else [])
  | .b | .c | .d | .e | .h | .l | .memHL | .a => pure [opcodeBase + reg.value]
  | .unk => do return [opcodeBase + 0x46, ← getByteNoMem env]
  | _ => pure []

/-- The comma behind an optional `a`. -/
def aluComma (nonMultiArgComma : Bool) : Reader Bool :=
  if nonMultiArgComma then nonMaComma env else comma

/-- `CommonAluOpcode`: the numbers, or nothing where the operands are left to the caller. -/
def commonAluOpcode (opcodeBase : Int) (hasNonRegA nonMultiArgComma : Bool) :
    Reader (Option (List Int)) := do
  let oldLp ← ParseFn.peek
  let (reg, lastIxyD) ← getRegister env
  match reg with
  | .bc | .de | .hl | .ix | .iy =>
    if hasNonRegA then
      seek oldLp
      pure none
    else pure (some [])
  | .sp =>
    if env.isLR35902 then
      seek oldLp
      pure none
    else pure (some [])
  | .af | .i | .r | .f | .memHLI | .memHLD => pure (some [])
  | .a =>
    if ← aluComma env nonMultiArgComma then
      let (reg, d) ← getRegister env
      some <$> aluOperand env opcodeBase reg ((d.or lastIxyD).getD 0)
    else some <$> aluOperand env opcodeBase .a (lastIxyD.getD 0)
  | reg => some <$> aluOperand env opcodeBase reg (lastIxyD.getD 0)

/-! ### 16-bit arithmetic -/

/-- One argument of the operations with pairs: `pairs` deals with two registers. -/
def pairArgument (opcodeBase : Int) (nonMultiArgComma : Bool) (name : String)
    (pairs : Z80Reg → Z80Reg → Reader (List Int)) : Reader (Option (List Int)) := do
  match ← commonAluOpcode env opcodeBase true nonMultiArgComma with
  | some e => pure (some e)
  | none =>
    let (reg, _) ← getRegister env
    match reg with
    | .unk => pure none
    | reg =>
      if ← comma then
        let (reg2, _) ← getRegister env
        some <$> pairs reg reg2
      else
        ParseFn.report [.error ("[" ++ name ++ "] Comma expected") none .pass3]
        pure none

/-- `bc`, `de`, `hl` and `sp`. -/
def isWide (reg : Z80Reg) : Bool := reg = .bc || reg = .de || reg = .hl || reg = .sp

/-- `reg2ex`: `de` and `hl` change places. -/
def exchanged : Z80Reg → Int
  | .de => 0x30
  | .hl => 0x20
  | reg => reg.value

/-- The pairs of `OpCode_ADC`. -/
def adcPairs (reg reg2 : Z80Reg) : Reader (List Int) :=
  if reg = .hl ∧ nonZ80CPU env = false then
    pure (if isWide reg2 then [0xED, 0x4A + reg2.value - 0x10] else [])
  else if reg = .de ∧ isWide reg2 then
    fake env [0xEB, instructionStartMarker, 0xED, 0x4A + exchanged reg2 - 0x10, instructionStartMarker,
      0xEB]
  else pure []

/-- The operands of the 16-bit `add` of the Z80N. -/
def addNext (a imm16 : Int) (reg2 : Z80Reg) : Reader (List Int) :=
  if env.isNextEnabled = 0 then pure []
  else if reg2 = .a then pure [0xED, a]
  else if reg2 = .unk then do
    let b ← getWordNoMem env
    pure [0xED, imm16, lowByte b, highByte b]
  else pure []

/-- `add hl` in `OpCode_ADD`. -/
def addHl (reg2 : Z80Reg) : Reader (List Int) :=
  if isWide reg2 then pure [0x09 + reg2.value - 0x10]
  else if env.isNextEnabled = 0 then pure []
  else if reg2 = .a then pure [0xED, 0x31]
  else do
    let b ← getWordNoMem env
    pure [0xED, 0x34, lowByte b, highByte b]

/-- The pairs of `OpCode_ADD`. -/
def addPairs (reg reg2 : Z80Reg) : Reader (List Int) :=
  match reg with
  | .hl => addHl env reg2
  | .ix | .iy =>
    match reg2 with
    | .bc | .de | .sp => pure [reg.value, 0x09 + reg2.value - 0x10]
    | .ix | .iy => pure (if reg = reg2 then [reg.value, 0x29] else [])
    | _ => pure []
  | .de =>
    if isWide reg2 then
      fake env [0xEB, instructionStartMarker, 0x09 + exchanged reg2 - 0x10, instructionStartMarker, 0xEB]
    else addNext env 0x32 0x35 reg2
  | .bc => addNext env 0x33 0x36 reg2
  | .sp =>
    if env.isLR35902 ∧ reg2 = .unk then do return [0xE8, ← getByteNoMem env true] else pure []
  | _ => pure []

/-- The pairs of `OpCode_SBC`. -/
def sbcPairs (reg reg2 : Z80Reg) : Reader (List Int) :=
  if reg = .hl ∧ nonZ80CPU env = false then pure (if isWide reg2 then [0xED, 0x32 + reg2.value] else [])
  else if reg = .de ∧ isWide reg2 then
    fake env [0xEB, instructionStartMarker, 0xED, 0x32 + exchanged reg2, instructionStartMarker, 0xEB]
  else pure []

/-- The pairs of `OpCode_SUB`. -/
def subPairs (reg reg2 : Z80Reg) : Reader (List Int) :=
  if reg = .hl ∧ isWide reg2 then fake env [0xB7, instructionStartMarker, 0xED, 0x32 + reg2.value]
  else if reg = .de ∧ isWide reg2 then
    fake env [0xB7, instructionStartMarker, 0xEB, instructionStartMarker, 0xED, 0x32 + exchanged reg2,
      instructionStartMarker, 0xEB]
  else pure []

/-! ### Rotations -/

/-- The register behind the displacement of an instruction with an index register. -/
def cbDestination (canHaveDstRegForIxy : Bool) (baseOpcode : Int) : Reader Int := do
  if ← (if canHaveDstRegForIxy then comma else pure false) then
    let (reg, _) ← getRegister env
    match reg with
    | .b | .c | .d | .e | .h | .l | .a => pure (baseOpcode + reg.value)
    | _ =>
      ParseFn.report [.error "Illegal destination register" (some env.line) .pass3]
      pure (baseOpcode + Z80Reg.memHL.value)
  else pure (baseOpcode + Z80Reg.memHL.value)

/-- `OpCode_CbFamily`: the numbers, with `a` where the operand is dealt with, and otherwise with the
register that is read. -/
def opCode_CbFamily (baseOpcode : Int) (canHaveDstRegForIxy : Bool := true) :
    Reader (List Int × Z80Reg) := do
  let (reg, lastIxyD) ← getRegister env
  match reg with
  | .b | .c | .d | .e | .h | .l | .memHL | .a => pure ([0xCB, baseOpcode + reg.value], .a)
  | .memIX | .memIY =>
    let prefixByte := (reg.indexed.map Prod.fst).getD 0
    return ([prefixByte, 0xCB, lastIxyD.getD 0, ← cbDestination env canHaveDstRegForIxy baseOpcode], .a)
  | reg => pure ([], reg)

/-- One argument of a rotation: `pair` are the numbers for a register pair. -/
def rotateArgument (baseOpcode : Int) (pair : Z80Reg → List Int) : Reader (List Int) := do
  match ← opCode_CbFamily env baseOpcode with
  | (_, .bc) => fake env (pair .bc)
  | (_, .de) => fake env (pair .de)
  | (_, .hl) => fake env (pair .hl)
  | (e, _) => pure e

/-- A pair from its low half to its high half. -/
def leftPair (baseOpcode : Int) (reg : Z80Reg) : List Int :=
  [0xCB, baseOpcode + (getRegister_r16Low reg).value, instructionStartMarker, 0xCB,
    0x10 + (getRegister_r16High reg).value]

/-- A pair from its high half to its low half. -/
def rightPair (baseOpcode : Int) (reg : Z80Reg) : List Int :=
  [0xCB, baseOpcode + (getRegister_r16High reg).value, instructionStartMarker, 0xCB,
    0x18 + (getRegister_r16Low reg).value]

def rl : Reader (List Int) := rotateArgument env 0x10 (leftPair 0x10)

def rr : Reader (List Int) := rotateArgument env 0x18 (rightPair 0x18)

def sla : Reader (List Int) :=
  rotateArgument env 0x20 fun reg => if reg = .hl then [0x29] else leftPair 0x20 reg

def sll : Reader (List Int) := rotateArgument env 0x30 (leftPair 0x30)

def sra : Reader (List Int) := rotateArgument env 0x28 (rightPair 0x28)

def srl : Reader (List Int) := rotateArgument env 0x38 (rightPair 0x38)

end

end Z80

end Sjasmplus
