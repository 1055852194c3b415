import Sjasmplus.JumpInstructions

/-!
# The other instructions (`z80.cpp`)

8-bit operations, bits, the stack, exchanges and ports, and the instructions that only some processors
have: the multiplications of the R800, the extensions of the Z80N and of the CSpect emulator, and the
Sharp LR35902.

A reader of one argument returns the numbers that the source writes into its array `e`; one that may end
its instruction without emitting returns no list then.
-/

namespace Sjasmplus

open Parsing ParseFn

namespace Z80

section

variable (env : InstructionEnv)

/-! ### 8-bit operations -/

/-- One argument of `OpCode_SimpleAlu`. -/
def simpleAlu (opcodeBase : Int) : Reader (List Int) := do
  return (← commonAluOpcode env opcodeBase false true).getD []

/-- `OpCode_DecInc`. -/
def decInc (base8bOpcode base16bOpcode : Int) : Reader (List Int) := do
  let (reg, lastIxyD) ← getRegister env
  match reg with
  | .memIX | .memIY | .ixh | .ixl | .iyh | .iyl =>
    let (prefixByte, reg) := reg.indexed.getD (0, reg)
    pure ([prefixByte, base8bOpcode + 8 * reg.value] ++ if reg = .memHL then [lastIxyD.getD 0] else [])
  | .b | .c | .d | .e | .h | .l | .memHL | .a => pure [base8bOpcode + 8 * reg.value]
  | .ix | .iy => pure [reg.value, base16bOpcode + Z80Reg.hl.value - Z80Reg.bc.value]
  | .bc | .de | .hl | .sp => pure [base16bOpcode + reg.value - Z80Reg.bc.value]
  | _ => pure []

/-- One argument of `OpCode_BIT`, `OpCode_RES` and `OpCode_SET`. -/
def bitArgument (base : Int) (canHaveDstRegForIxy : Bool) : Reader (List Int) := do
  let bit ← getByteNoMem env
  if ← comma then
    if bit ≤ 7 then return (← opCode_CbFamily env (8 * bit + base) canHaveDstRegForIxy).1
    else pure []
  else pure []

/-- One argument of `OpCode_RLC` and `OpCode_RRC`. -/
def cbArgument (baseOpcode : Int) : Reader (List Int) := do
  return (← opCode_CbFamily env baseOpcode).1

/-! ### Exchanges and the stack -/

/-- The operand `(sp)`. -/
def memSp : Reader Bool := do
  match ← openBracket env with
  | .none => pure false
  | bt =>
    let (reg, _) ← getRegister env
    if reg = .sp then closeBracket bt else pure false

/-- The first operand of `EX`, where `sp` stands for `(sp)`. -/
def exFirst : Reader Z80Reg := do
  let (reg1, _) ← getRegister env
  match reg1 with
  | .sp => pure .unk
  | .unk => return if ← memSp env then .sp else .unk
  | reg1 => pure reg1

/-- The second operand of `EX`: `(sp)` changes places with the first one. -/
def exSecond (reg1 : Z80Reg) : Reader (Z80Reg × Z80Reg) := do
  let (reg2, _) ← getRegister env
  match reg2 with
  | .af => do
    let p ← ParseFn.peek
    skip (if cur p = '\'' then 1 else 0)
    pure (reg1, .af)
  | .unk => return if ← memSp env then (.sp, reg1) else (reg1, .unk)
  | reg2 => pure (reg1, reg2)

/-- `OpCode_EX` behind its operands; without a comma there is no second one. -/
def exchange (reg1 : Z80Reg) (reg2 : Option Z80Reg) : Reader (List Int) :=
  let needsComma (e : Z80Reg → List Int) : Reader (List Int) :=
    match reg2 with
    | none => do
      ParseFn.report [.error "[EX] Comma expected" none .pass3]
      pure []
    | some reg2 => pure (e reg2)
  match reg1 with
  | .af => pure (if env.isI8080 ∨ (reg2.any (· ≠ .af)) then [] else [0x08])
  | .de => needsComma fun reg2 => if reg2 = .hl then [0xEB] else []
  | .hl => needsComma fun reg2 => if reg2 = .de then [0xEB] else []
  | .sp => needsComma fun reg2 =>
    match reg2 with
    | .hl => [0xE3]
    | .ix | .iy => [reg2.value, 0xE3]
    | _ => []
  | _ => pure []

/-- `OpCode_EX`. -/
def ex : Reader (List Int) := do
  let reg1 ← exFirst env
  if ← comma then
    let (reg1, reg2) ← exSecond env reg1
    exchange env reg1 (some reg2)
  else exchange env reg1 none

/-- `OpCode_POPone`. -/
def popOne (r16 : Z80Reg) : List Int :=
  match r16 with
  | .af => [0xF1]
  | .bc => [0xC1]
  | .de => [0xD1]
  | .hl => [0xE1]
  | .ix | .iy => [r16.value, 0xE1]
  | _ => []

/-- One argument of `OpCode_POPnormal`. -/
def popArgument : Reader (List Int) := do
  let (reg, _) ← getRegister env
  pure (popOne reg)

/-- The registers of `OpCode_POPreverse`, the last one first; `rn` is how many more there may be. -/
def popRegisters : Nat → List Z80Reg → Reader (List Z80Reg)
  | 0, regs => pure regs
  | rn + 1, regs => do
    let (reg, _) ← getRegister env
    if getRegister_r16Low reg = .unk ∨ rn = 0 then pure (reg :: regs)
    else if ← relaxedMaComma env then popRegisters rn (reg :: regs)
    else pure (reg :: regs)

/-- `OpCode_POPreverse`. -/
def popReverse : Reader (List (List Int)) := do
  -- `MAX_POP_REGS`
  return (← popRegisters env 30 []).map popOne

/-- One argument of `OpCode_PUSH`. -/
def pushArgument : Reader (List Int) := do
  let (reg, _) ← getRegister env
  match reg with
  | .af => pure [0xF5]
  | .bc => pure [0xC5]
  | .de => pure [0xD5]
  | .hl => pure [0xE5]
  | .ix | .iy => pure [reg.value, 0xE5]
  | .unk =>
    if env.isNextEnabled = 0 then pure []
    else
      let imm16 ← getWordNoMem env
      -- the operand is big-endian
      pure [0xED, 0x8A, highByte imm16, lowByte imm16]
  | _ => pure []

/-! ### Ports and modes -/

/-- `GetIoPort`. -/
def getIoPort : Reader Int := do
  let oldP ← ParseFn.peek
  match ← parseExpressionMemAccess env with
  | (0, _) =>
    ParseFn.report [.error "Operand expected" (some oldP) .ifFirst]
    pure 0
  | (result, val) =>
    if env.memoryBrackets = 2 ∧ result ≠ 2 then
      ParseFn.report [.error "Port address must use square brackets" (some oldP) .pass3]
      pure 0
    else
      ParseFn.report (check8 val)
      pure (lowByte val)

/-- The port `(c)`, which the i8080 does not have. -/
def ioC : Reader Bool := if env.isI8080 then pure false else needIoC env

/-- The numbers of `in reg,(c)`. -/
def inC (reg : Z80Reg) : List Int :=
  match reg with
  | .b | .c | .d | .e | .h | .l | .a => [0xED, 0x40 + reg.value * 8]
  | .f => [0xED, 0x70]
  | _ => []

/-- `OpCode_IN` behind its register. -/
def inPort (reg : Z80Reg) : Reader (List Int) := do
  if ← ioC env then pure (inC reg)
  else
    let port ← getIoPort env
    pure (if reg = .a then [0xDB, port] else [])

/-- One argument of `OpCode_IN`. -/
def inArgument : Reader (List Int) := do
  let (reg, _) ← getRegister env
  match reg with
  | .unk => inPort env .f
  | reg => if ← comma then inPort env reg else pure []

/-- `OpCode_OUT` behind the port `(c)`. -/
def outC : Reader (List Int) := do
  let (reg, _) ← getRegister env
  match reg with
  | .b | .c | .d | .e | .h | .l | .a => pure [0xED, 0x41 + 8 * reg.value]
  | .unk =>
    if (← getByteNoMem env) = 0 then
      -- `W_OUT0`
      ParseFn.report [.warning
        "'out (c),0' is unstable, on CMOS based chips it does \x60out (c),255\x60" none .pass3]
      pure [0xED, 0x71]
    else pure []
  | _ => pure []

/-- One argument of `OpCode_OUT`. -/
def outArgument : Reader (List Int) := do
  if ← ioC env then
    if ← comma then outC env else pure []
  else
    let port ← getIoPort env
    if ← comma then
      let (reg, _) ← getRegister env
      pure (if reg = .a then [0xD3, port] else [])
    else pure []

/-- `OpCode_IM`. -/
def im : Reader (List Int) := do
  let mode ← getByteNoMem env
  pure (if mode = 0 then [0xED, 0x46] else if mode = 1 then [0xED, 0x56]
    else if mode = 2 then [0xED, 0x5E] else [])

/-! ### The R800 -/

/-- The operand behind an optional first one, which is always the same register. -/
def behindFirst (first : Z80Reg) : Reader Z80Reg := do
  let (reg, _) ← getRegister env
  if reg = first then
    if ← comma then return (← getRegister env).1 else pure reg
  else pure reg

/-- `OpCode_MULUB`. -/
def mulub : Reader (List Int) := do
  match ← behindFirst env .a with
  | .b => pure [0xED, 0xC1]
  | .c => pure [0xED, 0xC9]
  | .d => pure [0xED, 0xD1]
  | .e => pure [0xED, 0xD9]
  | _ => pure []

/-- `OpCode_MULUW`. -/
def muluw : Reader (List Int) := do
  match ← behindFirst env .hl with
  | .bc => pure [0xED, 0xC3]
  | .sp => pure [0xED, 0xF3]
  | _ => pure []

/-! ### The Z80N -/

/-- The instructions that the Z80N adds. -/
def nextOnly (x : Reader (Option (List Int))) : Reader (Option (List Int)) :=
  if env.isNextEnabled < 1 then do
    ParseFn.report [.error "Z80N instructions are currently disabled" (some env.bp) .suppress]
    pure none
  else x

/-- `OpCode_Z80N_BarrelShifts`. -/
def barrelShift (mainOpcode : Int) : Reader (Option (List Int)) :=
  nextOnly env do
    let deB : Reader Bool := do
      if (← getRegister env).1 = .de then
        if ← comma then return (← getRegister env).1 = .b else pure false
      else pure false
    if ← deB then pure (some [0xED, mainOpcode])
    else
      ParseFn.report [.error "Z80N barrel shifts exist only with \"DE,B\" arguments" (some env.bp) .suppress]
      pure (some [])

/-- `OpCode_Next_MIRROR` and `OpCode_Next_SWAPNIB`. -/
def onlyA (name : String) (opcode : Int) : Reader (Option (List Int)) :=
  nextOnly env do
    let (reg, _) ← getRegister env
    if reg = .unk ∨ reg = .a then pure (some [0xED, opcode])
    else
      ParseFn.report [.error ("[" ++ name ++ "] Illegal operand (can be only register A)") (some env.line)
        .pass3]
      pure none

/-- `OpCode_Next_PIXELAD` and `OpCode_Next_PIXELDN`. -/
def optionalHl (opcode : Int) : Reader (Option (List Int)) :=
  nextOnly env do
    let oldLp ← ParseFn.peek
    let (reg, _) ← getRegister env
    if reg ≠ .hl then seek oldLp
    pure (some [0xED, opcode])

/-- `OpCode_Next_MUL`. -/
def mul : Reader (Option (List Int)) :=
  nextOnly env do
    let (r1, _) ← getRegister env
    let implicit : Reader Bool := do
      blanks
      if cur (← ParseFn.peek) = '\x00' then return !(← noFakes env) else pure false
    let deE : Reader Bool := do
      match r1 with
      | .de => pure true
      | .d => if ← comma then return (← getRegister env).1 = .e else pure false
      | .unk => implicit
      | _ => pure false
    if ← deE then pure (some [0xED, 0x30])
    else
      ParseFn.report [.error "Z80N MUL exist only with \"D,E\" arguments" (some env.bp) .suppress]
      pure none

/-- One argument of `OpCode_Next_NEXTREG`. -/
def nextreg : Reader (Option (List Int)) := do
  let (reg, _) ← getRegister env
  if reg ≠ .unk then
    ParseFn.report [.error "[NEXTREG] first operand should be register number" (some env.line) .suppress]
    pure none
  else
    let number ← getByteNoMem env
    if ← comma then
      let (reg, _) ← getRegister env
      match reg with
      | .a => pure (some [0xED, 0x92, number])
      | .unk => return some [0xED, 0x91, number, ← getByteNoMem env]
      | _ => pure (some [])
    else
      ParseFn.report [.error "[NEXTREG] Comma expected" none .pass3]
      pure none

/-- `OpCode_Next_TEST`. -/
def testImm : Reader (Option (List Int)) :=
  nextOnly env do return some [0xED, 0x27, ← getByteNoMem env]

/-- The codes of the CSpect emulator. -/
def cspectOnly (name : String) (skip : Bool) (x : Reader (Option (List Int))) :
    Reader (Option (List Int)) :=
  if env.isNextEnabled < 2 then do
    ParseFn.report [.error ("[" ++ name.toUpper ++ "] fake instruction \"" ++ name ++
      "\" must be specifically enabled by --zxnext=cspect option") none .pass3]
    if skip then skipToEol
    pure none
  else x

/-- `OpCode_Next_SETBRK` and `OpCode_Next_CLRBRK`. -/
def breakpoint (name : String) (opcode : Int) : Reader (Option (List Int)) :=
  cspectOnly env name true do
    let type ← getByte env
    let syntaxError : Reader (Option (List Int)) := do
      ParseFn.report [.error ("[" ++ name.toUpper ++ "] syntax: " ++ name.toUpper ++
        " <type>, <start_address>, <end_address>") none .pass3]
      pure none
    if ← comma then
      let startad ← getWord env
      if ← comma then
        let endad ← getWord env
        pure (some [0xED, opcode, type, lowByte startad, highByte startad, lowByte endad, highByte endad])
      else syntaxError
    else syntaxError

/-! ### The LR35902 -/

/-- One argument of `OpCode_LR35902_LDD` and `OpCode_LR35902_LDI`. -/
def ldHlStep (store load : Int) : Reader (List Int) := do
  let (r1, _) ← getRegister env
  let r2 ← if ← comma then (do return (← getRegister env).1) else pure .unk
  pure (if r1 = .memHL ∧ r2 = .a then [store] else if r1 = .a ∧ r2 = .memHL then [load] else [])

/-- The operands of `LDH`: the result of `ParseExpressionMemAccess` where they are combined well. -/
def ldhOperands : Reader (Nat × Aint × Bool) := do
  let (r1, _) ← getRegister env
  let (pemaRes, a8) ← if r1 = .unk then parseExpressionMemAccess env else pure (0, -1)
  let comma_ok ← if r1 = .a ∨ 0 < pemaRes then comma else pure false
  let r2 ← if comma_ok then (do return (← getRegister env).1) else pure .f
  if r2 = .unk ∧ r1 = .a then
    let (pemaRes, a8) ← parseExpressionMemAccess env
    pure (pemaRes, a8, false)
  else pure (if r2 = .a then pemaRes else 0, a8, r2 = .a)

/-- One argument of `OpCode_LR35902_LDH`. -/
def ldh : Reader (List Int) := do
  let (pemaRes, a8, storesA) ← ldhOperands env
  if pemaRes = 2 then
    let a8 := if 0xFF00 ≤ a8.toInt ∧ a8.toInt ≤ 0xFFFF then a8 - 0xFF00 else a8
    ParseFn.report (check8 a8)
    pure [if storesA then 0xE0 else 0xF0, lowByte a8]
  else
    let lp ← ParseFn.peek
    ParseFn.report [.error "[LDH] only valid combinations: \x60ldh a,(a8)\x60 or \x60ldh (a8),a\x60" (some lp)
      .suppress]
    pure []

/-- The byte of `OpCode_LR35902_STOP` behind its opcode. -/
def stopByte : Reader (List Int) := do
  blanks
  if cur (← ParseFn.peek) = '\x00' then pure [0x00] else return [← getByteNoMem env]

end

end Z80

end Sjasmplus
