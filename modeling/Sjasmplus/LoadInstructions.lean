import Sjasmplus.Device
import Sjasmplus.Registers

/-!
# Load instructions (`z80.cpp`)

`LD`, `LDI` and `LDD` with their fake forms.  One argument of an instruction is a reader that returns the
numbers the source writes into its array `e` up to the end marker; it returns no list where the source
leaves the loop over the arguments without emitting.
-/

namespace Sjasmplus

open Parsing ParseFn

namespace Z80

/-! ### Emission -/

/-- `BYTES_END_MARKER`. -/
def bytesEndMarker : Int := -1

/-- `INSTRUCTION_START_MARKER`. -/
def instructionStartMarker : Int := -2

/-- The bytes that the loop of `EmitBytes` emits: a marker behind a byte is dropped. -/
def emitted : List Int → List Byte
  | [] => []
  | [byte] => if byte = bytesEndMarker then [] else [BitVec.ofInt 8 byte]
  | byte :: next :: rest =>
    if byte = bytesEndMarker then []
    else BitVec.ofInt 8 byte ::
      if next = instructionStartMarker then emitted rest else emitted (next :: rest)

section

variable (env : InstructionEnv)

/-- `EmitBytes`. -/
def emitBytes (e : List Int) : Reader (List Byte) :=
  if e.headD bytesEndMarker = bytesEndMarker then do
    ParseFn.report [.error "Illegal instruction" (some env.line) .ifFirst]
    skipToEol
    pure []
  else pure (emitted e)

/-- One argument, emitted. -/
def emitArgument (argument : Reader (Option (List Int))) : Reader (Option (List Byte)) := do
  match ← argument with
  | none => pure none
  | some e => some <$> emitBytes env e

/-- The numbers `e` behind a condition, and otherwise none. -/
def emitIf (condition : Reader Bool) (e : List Int) : Reader (List Int) := do
  return if ← condition then e else []

/-- `noFakes(false)`. -/
def fakesDisabled : Bool := env.isI8080 || env.isLR35902 || !env.fakeEnabled

/-- `noFakes`. -/
def noFakes : Reader Bool := do
  ParseFn.report (if fakesDisabled env then
      [.error (if env.isLR35902 then "Fake instructions are not implemented in Sharp LR35902 mode"
        else if env.isI8080 then "Fake instructions are not implemented in i8080 mode"
        else "Fake instructions are not enabled") (some env.bp) .suppress]
    else if env.fakeWarning then [.warningById .fake (some env.bp) .pass3] else [])
  pure (fakesDisabled env)

/-- The numbers `e` of a fake instruction. -/
def fake (e : List Int) : Reader (List Int) := do
  return if ← noFakes env then [] else e

/-- `noFakes()` where fakes are known to be enabled, so that it only warns. -/
def warnFake (e : List Int) : Reader (List Int) := do
  let _ ← noFakes env
  pure e

/-- `checkLowMemory`. -/
def checkLowMemory (b : Aint) : List Event :=
  if highByte b ≠ 0 ∨ env.expr.relocationType ≠ .off then []
  else [.warningById .readLowMem (some (toString (lowByte b)).toList) .pass3]

/-! ### Loads between registers -/

/-- The destination in `LD_simple_r_r`: `prefix1`, `r1` and `eightBit`. -/
structure LdDestination where
  prefix1 : Int
  r1 : Z80Reg
  eightBit : Bool
deriving DecidableEq, Repr

def ldDestination (r1 : Z80Reg) : Option LdDestination :=
  match r1 with
  | .ixh | .ixl | .iyh | .iyl | .memIX | .memIY =>
    r1.indexed.map fun (prefix1, r1) => ⟨prefix1, r1, true⟩
  | .i | .r | .a | .memHL | .b | .c | .d | .e | .h | .l | .memHLI | .memHLD => some ⟨0, r1, true⟩
  | .iy | .ix => some ⟨r1.value, .hl, false⟩
  | .bc | .de | .hl | .sp => some ⟨0, r1, false⟩
  | _ => none

/-- What `LD_simple_r_r` finds out about its operands. -/
inductive LdSource
  /-- The operands are dealt with. -/
  | resolved (e : List Int)
  /-- The source is read once more. -/
  | other
  | register (prefix2 : Int) (r2 : Z80Reg)

/-- The cases of `LD_simple_r_r` from the register `A` on. -/
def ldSource8 (dst : LdDestination) (prefix2 : Int) (r2 : Z80Reg) : LdSource :=
  if dst.eightBit = false then .resolved []
  else if dst.r1 = .memHLI ∨ dst.r1 = .memHLD then .resolved (if r2 = .a then [dst.r1.value] else [])
  else .register prefix2 r2

/-- The cases of `LD_simple_r_r` from `(hl)` on. -/
def ldSourceMemory (dst : LdDestination) (prefix2 : Int) : LdSource :=
  if dst.r1 = .memHL ∨ dst.prefix1 ≠ 0 then .resolved []
  else if dst.r1 = .bc ∨ dst.r1 = .de ∨ (dst.r1 = .hl ∧ prefix2 ≠ 0) then .other
  else ldSource8 dst prefix2 .memHL

/-- The cases of `LD_simple_r_r` from `BC` and `DE` on. -/
def ldSource16 (dst : LdDestination) (prefix2 : Int) (r2 : Z80Reg) : LdSource :=
  if dst.eightBit = false then .register prefix2 r2
  else if dst.r1 = .memHL then .other
  else .resolved []

/-- The `switch` over the source in `LD_simple_r_r`. -/
def ldSource (dst : LdDestination) (r2 : Z80Reg) : LdSource :=
  match r2 with
  | .ixh | .ixl | .iyh | .iyl =>
    if dst.eightBit = false ∨ dst.r1 = .memHL then .resolved []
    else (r2.indexed.map fun (prefix2, r2) => LdSource.register prefix2 r2).getD .other
  | .i | .r =>
    .resolved (if dst.r1 = .a then [0xED, if r2 = .i then 0x57 else 0x5F] else [])
  | .memIX | .memIY => ldSourceMemory dst ((r2.indexed.map Prod.fst).getD 0)
  | .memHL => ldSourceMemory dst 0
  | .a | .b | .c | .d | .e | .h | .l => ldSource8 dst 0 r2
  | .iy | .ix => ldSource16 dst r2.value .hl
  | .bc | .de => ldSource16 dst 0 r2
  | .hl =>
    if dst.r1 = .memHL ∧ dst.prefix1 ≠ 0 then .other
    else if dst.eightBit = false then .register 0 r2
    else .resolved []
  | .sp => if env.isLR35902 ∧ dst.r1 = .hl then .other else .resolved []
  | .af | .f => .resolved []
  | .memHLI | .memHLD => .resolved (if dst.r1 = .a then [r2.value + 0x08] else [])
  | .unk => .other

/-- A prefix byte, where there is one. -/
def prefixed (prefixByte : Int) (e : List Int) : List Int :=
  if prefixByte ≠ 0 then prefixByte :: e else e

/-- The end of `LD_simple_r_r`. -/
def ldRegisters (dst : LdDestination) (prefix2 : Int) (r2 : Z80Reg) (lastIxyD : Int) :
    Reader (List Int) :=
  if dst.r1 = .i ∨ dst.r1 = .r then
    pure (if r2 = .a then [0xED, if dst.r1 = .i then 0x47 else 0x4F] else [])
  else if dst.r1 = .sp then pure (if r2 = .hl then prefixed prefix2 [0xF9] else [])
  else if dst.eightBit = false then
    -- all `ld r16,r16` are fakes
    if dst.prefix1 ≠ prefix2 ∧ dst.r1 = r2 then
      fake env (prefixed prefix2 [0xE5] ++ instructionStartMarker :: prefixed dst.prefix1 [0xE1])
    else
      let prefix1 := if prefix2 ≠ 0 then prefix2 else dst.prefix1
      fake env (prefixed prefix1
          [(getRegister_r16High r2).value + (getRegister_r16High dst.r1).value * 8 + 0x40] ++
        instructionStartMarker :: prefixed prefix1
          [(getRegister_r16Low r2).value + (getRegister_r16Low dst.r1).value * 8 + 0x40])
  else if dst.prefix1 ≠ prefix2 ∧ (dst.r1 = .h ∨ dst.r1 = .l) ∧ (r2 = .h ∨ r2 = .l) then pure []
  else
    -- at most one of the prefixes is there, or both are the same
    let prefixByte := if prefix2 ≠ 0 then prefix2 else dst.prefix1
    pure (prefixed prefixByte [r2.value + dst.r1.value * 8 + 0x40] ++
      if prefixByte ≠ 0 ∧ (dst.r1 = .memHL ∨ r2 = .memHL) then [lastIxyD] else [])

/-- `LD_simple_r_r`: the numbers where it resolves the operands; and otherwise the last displacement that
it leaves in `GetRegister_lastIxyD`, with `lp` where the source operand starts. -/
def ld_simple_r_r (reg1 : Z80Reg) (lastIxyD : Option Int) : Reader (Except (Option Int) (List Int)) :=
  match ldDestination reg1 with
  | none => pure (.error lastIxyD)
  | some dst => do
    if ← comma then
      let olp ← ParseFn.peek
      let (r2, d) ← getRegister env
      let lastIxyD := d.or lastIxyD
      match ldSource env dst r2 with
      | .resolved e => pure (.ok e)
      | .other =>
        seek olp
        pure (.error lastIxyD)
      | .register prefix2 r2 => return .ok (← ldRegisters env dst prefix2 r2 (lastIxyD.getD 0))
    else pure (.ok [])

/-! ### `LD` -/

/-- `ld a,(mem8)`, in the brackets `bt`. -/
def ldAMemory (bt : EBracketType) (b : Aint) : Reader (List Int) :=
  if env.isLR35902 then
    pure (if 0xFF00 ≤ b.toInt ∧ b.toInt ≤ 0xFFFF then [0xF0, lowByte b]
      else [0xFA, lowByte b, highByte b])
  else do
    ParseFn.report (if bt = .round then checkLowMemory env b else [])
    pure [0x3A, lowByte b, highByte b]

/-- `ld a,imm8` and `ld a,(mem8)`. -/
def ldAValue (bt : EBracketType) : Reader (List Int) := do
  match ← parseExpressionMemAccess env with
  | (1, b) =>
    ParseFn.report (check8 b)
    pure [0x06 + 8 * Z80Reg.a.value, lowByte b]
  | (2, b) =>
    ParseFn.report (check16 b)
    ldAMemory env bt b
  | _ => pure []

/-- `OpCode_LD` behind the destination `a`. -/
def ldA : Reader (List Int) := do
  let old ← ParseFn.peek
  match ← openBracket env with
  | .none => ldAValue env .none
  | bt =>
    let (reg2, _) ← getRegister env
    match reg2 with
    | .unk =>
      -- `--lp`
      let p ← ParseFn.peek
      seek (old.drop (old.length - p.length - 1))
      ldAValue env bt
    | .bc | .de => emitIf (closeBracket bt) [reg2.value - 6]
    | .c => if env.isLR35902 then emitIf (closeBracket bt) [0xF2] else pure []
    | _ => pure []

/-- `OpCode_LD` behind the destination `(hl)`. -/
def ldMemHL : Reader (List Int) := do
  let (reg2, _) ← getRegister env
  match reg2 with
  | .bc | .de => fake env [0x70 + (getRegister_r16Low reg2).value, instructionStartMarker, 0x23,
      instructionStartMarker, 0x70 + (getRegister_r16High reg2).value, instructionStartMarker, 0x2B]
  | .unk => return [0x36, ← getByteNoMem env]
  | _ => pure []

/-- The displacement behind `d` has to be one too. -/
def nextDisplacement (d : Int) (e : List Int) : Reader (List Int) :=
  if d = 127 then do
    ParseFn.report [.error "Offset out of range" none .ifFirst]
    pure []
  else pure e

/-- `OpCode_LD` behind the destination `(ix+d)` or `(iy+d)`. -/
def ldMemIndexed (prefix1 lastIxyD : Int) : Reader (List Int) := do
  let (reg2, _) ← getRegister env
  match reg2 with
  | .bc | .de | .hl =>
    if ← noFakes env then pure []
    else nextDisplacement lastIxyD [prefix1, 0x70 + (getRegister_r16Low reg2).value, lastIxyD,
      instructionStartMarker, prefix1, 0x70 + (getRegister_r16High reg2).value, lastIxyD + 1]
  | .unk => return [prefix1, 0x36, lastIxyD, ← getByteNoMem env]
  | _ => pure []

/-- `ld hl,sp+r8`. -/
def ldHlSp : Reader (List Int) := do
  blanks
  let lp ← ParseFn.peek
  if cur lp ≠ '\x00' ∧ cur lp ≠ ',' then
    if cur lp ≠ '+' ∧ cur lp ≠ '-' then
      ParseFn.report [.error "[LD] \x60ld hl,sp+r8\x60 expects + or - after sp, found" (some lp) .pass3]
      pure []
    else return [0xF8, ← getByteNoMem env true]
  else pure [0xF8, 0]

/-- `ld r16,imm16` and `ld r16,(mem16)`. -/
def ldR16Value (reg1 : Z80Reg) : Reader (List Int) := do
  let old ← ParseFn.peek
  match ← parseExpressionMemAccess env with
  | (1, b) =>
    ParseFn.report (check16 b)
    pure [reg1.value - 0x0F, lowByte b, highByte b]
  | (2, b) =>
    if env.isLR35902 then pure []
    else
      ParseFn.report (check16 b)
      let lp ← ParseFn.peek
      if reg1 ≠ .hl ∧ env.isI8080 then pure []
      else
        -- `lp[-1]`
        ParseFn.report (if cur (old.drop (old.length - lp.length - 1)) = ')' then checkLowMemory env b else [])
        pure (if reg1 = .hl then [0x2A, lowByte b, highByte b]
          else [0xED, reg1.value + 0x3B, lowByte b, highByte b])
  | _ => pure []

/-- `OpCode_LD` behind the destinations `bc`, `de`, `hl` and `sp`. -/
def ldR16 (reg1 : Z80Reg) : Reader (List Int) := do
  let (reg2, lastIxyD) ← getRegister env
  match reg2 with
  | .memHL => fake env [reg1.value + 0x3E, instructionStartMarker, 0x23, instructionStartMarker,
      reg1.value + 0x36, instructionStartMarker, 0x2B]
  | .memIX | .memIY =>
    let prefix2 := (reg2.indexed.map Prod.fst).getD 0
    let d := lastIxyD.getD 0
    if reg1 = .sp then pure []
    else if ← noFakes env then pure []
    else nextDisplacement d [prefix2, reg1.value + 0x3E, d, instructionStartMarker, prefix2,
      reg1.value + 0x36, d + 1]
  | .sp => if env.isLR35902 ∧ reg1 = .hl then ldHlSp env else pure []
  | .unk => ldR16Value env reg1
  | _ => pure []

/-- `OpCode_LD` behind the destinations `ix` and `iy`. -/
def ldIndex (reg1 : Z80Reg) : Reader (List Int) := do
  let old ← ParseFn.peek
  match ← parseExpressionMemAccess env with
  | (0, _) => pure []
  | (pemaRes, b) =>
    ParseFn.report (check16 b)
    let lp ← ParseFn.peek
    ParseFn.report (if pemaRes = 2 ∧ cur (old.drop (old.length - lp.length - 1)) = ')' then checkLowMemory env b
      else [])
    pure [reg1.value, if pemaRes = 1 then 0x21 else 0x2A, lowByte b, highByte b]

/-- `LD_LR35902`. -/
def ld_LR35902 (r2 : Z80Reg) (a16 : Aint) : List Int :=
  if r2 = .a ∧ 0xFF00 ≤ a16.toInt ∧ a16.toInt ≤ 0xFFFF then [0xE0, lowByte a16]
  else if r2 = .sp then [0x08, lowByte a16, highByte a16]
  else if r2 = .a then [0xEA, lowByte a16, highByte a16]
  else []

/-- `ld (reg1),reg2`, and `ld (b),reg2` where there is no register in the brackets. -/
def ldToMemory (reg1 reg2 : Z80Reg) (b : Aint) : List Int :=
  match reg1 with
  | .c => if env.isLR35902 ∧ reg2 = .a then [0xE2] else []
  | .bc | .de => if reg2 = .a then [reg1.value - 14] else []
  | .unk =>
    if env.isLR35902 then ld_LR35902 reg2 b
    else
      match reg2 with
      | .a | .hl => [if reg2 = .a then 0x32 else 0x22, lowByte b, highByte b]
      | .bc | .de | .sp =>
        if env.isI8080 then [] else [0xED, 0x33 + reg2.value, lowByte b, highByte b]
      | .ix | .iy => [reg2.value, 0x22, lowByte b, highByte b]
      | _ => []
  | _ => []

/-- The address in brackets, where there is no register. -/
def ldAddress (reg1 : Z80Reg) : Reader Aint := if reg1 = .unk then getWord env else pure 0

/-- The end of the brackets, and the comma. -/
def closeAndComma (bt : EBracketType) : Reader Bool := do
  if ← closeBracket bt then comma else pure false

/-- `OpCode_LD` with a destination that is no register. -/
def ldMemory : Reader (List Int) := do
  match ← openBracket env with
  | .none => pure []
  | bt =>
    let (reg1, _) ← getRegister env
    let b ← ldAddress env reg1
    if ← closeAndComma bt then
      let (reg2, _) ← getRegister env
      pure (ldToMemory env reg1 reg2 b)
    else pure []

/-- `OpCode_LD` behind `LD_simple_r_r`. -/
def ldOther (reg1 : Z80Reg) (lastIxyD : Option Int) : Reader (List Int) :=
  match reg1 with
  | .a => ldA env
  | .b | .c | .d | .e | .h | .l => do return [0x06 + 8 * reg1.value, ← getByteNoMem env]
  | .memHL => ldMemHL env
  | .memIX => ldMemIndexed env 0xDD (lastIxyD.getD 0)
  | .memIY => ldMemIndexed env 0xFD (lastIxyD.getD 0)
  | .ixh | .ixl | .iyh | .iyl => do
    let (prefix1, r1) := reg1.indexed.getD (0, reg1)
    return [prefix1, 0x06 + 8 * r1.value, ← getByteNoMem env]
  | .bc | .de | .hl | .sp => ldR16 env reg1
  | .ix | .iy => ldIndex env reg1
  | .unk => ldMemory env
  | _ => pure []

/-- `OpCode_LD` behind a register. -/
def ldRegister (reg1 : Z80Reg) (lastIxyD : Option Int) : Reader (List Int) := do
  match ← ld_simple_r_r env reg1 lastIxyD with
  | .ok e => pure e
  | .error lastIxyD => ldOther env reg1 lastIxyD

/-- One argument of `OpCode_LD`. -/
def ld : Reader (List Int) := do
  let (reg1, lastIxyD) ← getRegister env
  if reg1 = .unk then ldOther env .unk lastIxyD else ldRegister env reg1 lastIxyD

/-! ### `LDI` and `LDD` -/

section Step

variable (pairStep hlStep : Int)

/-- Behind `a`: memory at a register, which is stepped. -/
def stepA : Reader (List Int) := do
  if ← comma then
    match ← openBracket env with
    | .none => pure []
    | bt =>
      let _ ← noFakes env
      let (reg, _) ← getRegister env
      match reg with
      | .bc | .de => emitIf (closeBracket bt) [reg.value - 6, instructionStartMarker, reg.value + pairStep]
      | .hl => emitIf (closeBracket bt) [0x7E, instructionStartMarker, hlStep]
      | .ix | .iy =>
        let d ← z80GetIDxoffset env
        emitIf (closeBracket bt)
          [reg.value, 0x7E, d, instructionStartMarker, reg.value, hlStep]
      | _ => pure []
  else pure []

/-- An 8-bit register or a byte into memory at `hl`. -/
def stepMemHL (reg2 : Z80Reg) : Reader (List Int) :=
  match reg2 with
  | .a | .b | .c | .d | .e | .h | .l =>
    warnFake env [0x70 + reg2.value, instructionStartMarker, hlStep]
  | .unk => do
    let _ ← noFakes env
    return [0x36, ← getByteNoMem env, instructionStartMarker, hlStep]
  | _ => pure []

/-- An 8-bit register or a byte into memory at an index register. -/
def stepMemIndexed (prefix1 lastIxyD : Int) (reg2 : Z80Reg) : Reader (List Int) :=
  match reg2 with
  | .a | .b | .c | .d | .e | .h | .l =>
    warnFake env [prefix1, 0x70 + reg2.value, lastIxyD, instructionStartMarker, prefix1, hlStep]
  | .unk => do
    let _ ← noFakes env
    return [prefix1, 0x36, lastIxyD, ← getByteNoMem env, instructionStartMarker, prefix1, hlStep]
  | _ => pure []

/-- `(bc),a` and `(de),a`, or else the regular instruction. -/
def stepDefault (regular : List Int) : Reader (List Int) := do
  match ← openBracket env with
  | .none => pure regular
  | bt =>
    let (reg, _) ← getRegister env
    if ← closeAndComma bt then
      match reg with
      | .bc | .de =>
        let (reg2, _) ← getRegister env
        if reg2 = .a then
          warnFake env [reg.value - 14, instructionStartMarker, reg.value + pairStep]
        else pure []
      | _ => pure []
    else pure []

end Step

/-- `ldi` into an 8-bit register. -/
def ldiR8 (reg : Z80Reg) : Reader (List Int) := do
  if ← comma then
    match ← openBracket env with
    | .none => pure []
    | bt =>
      let _ ← noFakes env
      let (reg2, _) ← getRegister env
      match reg2 with
      | .hl => emitIf (closeBracket bt) [0x46 + reg.value * 8, instructionStartMarker, 0x23]
      | .ix | .iy =>
        let d ← z80GetIDxoffset env
        emitIf (closeBracket bt)
          [reg2.value, 0x46 + reg.value * 8, d, instructionStartMarker, reg2.value, 0x23]
      | _ => pure []
  else pure []

/-- `ldi` into a register pair. -/
def ldiR16 (reg : Z80Reg) : Reader (List Int) := do
  if ← comma then
    let (reg2, lastIxyD) ← getRegister env
    match reg2 with
    | .memHL =>
      if reg = .hl then pure []
      else warnFake env [0x3E + reg.value, instructionStartMarker, 0x23, instructionStartMarker,
        0x36 + reg.value, instructionStartMarker, 0x23]
    | .memIX | .memIY =>
      let prefix2 := (reg2.indexed.map Prod.fst).getD 0
      let d := lastIxyD.getD 0
      warnFake env [prefix2, 0x3E + reg.value, d, instructionStartMarker, prefix2, 0x23,
        instructionStartMarker, prefix2, 0x36 + reg.value, d, instructionStartMarker, prefix2, 0x23]
    | _ => pure []
  else pure []

/-- `ldi` into memory at `hl`. -/
def ldiMemHL : Reader (List Int) := do
  if ← comma then
    let (reg2, _) ← getRegister env
    match reg2 with
    | .bc | .de =>
      warnFake env [0x70 + (getRegister_r16Low reg2).value, instructionStartMarker, 0x23,
        instructionStartMarker, 0x70 + (getRegister_r16High reg2).value, instructionStartMarker, 0x23]
    | reg2 => stepMemHL env 0x23 reg2
  else pure []

/-- `ldi` into memory at an index register. -/
def ldiMemIndexed (prefix1 : Int) (lastIxyD : Option Int) : Reader (List Int) := do
  if ← comma then
    let (reg2, d) ← getRegister env
    let d := (d.or lastIxyD).getD 0
    match reg2 with
    | .bc | .de | .hl =>
      warnFake env [prefix1, 0x70 + (getRegister_r16Low reg2).value, d, instructionStartMarker, prefix1,
        0x23, instructionStartMarker, prefix1, 0x70 + (getRegister_r16High reg2).value, d,
        instructionStartMarker, prefix1, 0x23]
    | reg2 => stepMemIndexed env 0x23 prefix1 d reg2
  else pure []

/-- One argument of `OpCode_LDI`. -/
def ldi : Reader (List Int) := do
  let (reg, lastIxyD) ← getRegister env
  match reg with
  | .a => stepA env (-13) 0x23
  | .b | .c | .d | .e | .h | .l => ldiR8 env reg
  | .bc | .de | .hl => ldiR16 env reg
  | .memHL => ldiMemHL env
  | .memIX => ldiMemIndexed env 0xDD lastIxyD
  | .memIY => ldiMemIndexed env 0xFD lastIxyD
  | _ => stepDefault env (-13) [0xED, 0xA0]

/-- `ldd` into an 8-bit register. -/
def lddR8 (reg : Z80Reg) : Reader (List Int) := do
  if ← comma then
    let (reg2, lastIxyD) ← getRegister env
    match reg2 with
    | .memHL => warnFake env [0x46 + reg.value * 8, instructionStartMarker, 0x2B]
    | .memIX | .memIY =>
      let prefix2 := (reg2.indexed.map Prod.fst).getD 0
      warnFake env [prefix2, 0x46 + reg.value * 8, lastIxyD.getD 0, instructionStartMarker, prefix2,
        0x2B]
    | _ => pure []
  else pure []

/-- `ldd` into memory at `hl`. -/
def lddMemHL : Reader (List Int) := do
  if ← comma then
    let (reg2, _) ← getRegister env
    stepMemHL env 0x2B reg2
  else pure []

/-- `ldd` into memory at an index register. -/
def lddMemIndexed (prefix1 : Int) (lastIxyD : Option Int) : Reader (List Int) := do
  if ← comma then
    let (reg2, d) ← getRegister env
    stepMemIndexed env 0x2B prefix1 ((d.or lastIxyD).getD 0) reg2
  else pure []

/-- One argument of `OpCode_LDD`. -/
def ldd : Reader (List Int) := do
  let (reg, lastIxyD) ← getRegister env
  match reg with
  | .a => stepA env (-5) 0x2B
  | .b | .c | .d | .e | .h | .l => lddR8 env reg
  | .memHL => lddMemHL env
  | .memIX => lddMemIndexed env 0xDD lastIxyD
  | .memIY => lddMemIndexed env 0xFD lastIxyD
  | _ => stepDefault env (-5) [0xED, 0xA8]

end

end Z80

end Sjasmplus
