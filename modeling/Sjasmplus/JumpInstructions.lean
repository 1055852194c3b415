import Sjasmplus.ArithmeticInstructions

/-!
# Jumps, calls and returns (`z80.cpp`)

Conditions and addresses, and the instructions with them.  The address of a jump may be a temporary label
without its underscore (`getAddress`).
-/

namespace Sjasmplus

open Parsing ParseFn

namespace Z80

/-- `Z80Cond`. -/
inductive Z80Cond
  | nz | z | nc | c | po | pe | p | m
deriving DecidableEq, Repr

def Z80Cond.value : Z80Cond → Int
  | nz => 0x00
  | z => 0x08
  | nc => 0x10
  | c => 0x18
  | po => 0x20
  | pe => 0x28
  | p => 0x30
  | m => 0x38

/-! ### Conditions -/

/-- The conditions of one letter. -/
def cond1 (p0 : Nat) : Option Z80Cond :=
  match Char.ofNat p0 with
  | 'z' => some .z
  | 'c' => some .c
  | 'p' => some .p
  | 'm' => some .m
  | 's' => some .m
  | _ => none

/-- The conditions of two letters. -/
def cond2 (p0 p1 : Nat) : Option Z80Cond :=
  match Char.ofNat p0, Char.ofNat p1 with
  | 'n', 'z' => some .nz
  | 'n', 'c' => some .nc
  | 'n', 's' => some .p
  | 'p', 'o' => some .po
  | 'p', 'e' => some .pe
  | _, _ => none

/-- A condition that is found is consumed with its `n` letters. -/
def takeCond (cond : Option Z80Cond) (n : Nat) (p : Text) : Option Z80Cond × Text :=
  (cond, if cond.isSome then p.drop n else p)

/-- `getz80cond_Z80`. -/
def getz80cond_Z80 : Reader (Option Z80Cond) :=
  scan fun p =>
    let p := skipBlanks p
    let p0 := cur p
    let p1 := cur p.tail
    if p0 = '\x00' then (none, p)
    else if islabchar p1 = false then takeCond (cond1 (lower20 p0)) 1 p
    -- different case of the letters
    else if (p0.toNat ^^^ p1.toNat) &&& 0x20 ≠ 0 then (none, p)
    else if islabchar (cur p.tail.tail) then (none, p)
    else takeCond (cond2 (lower20 p0) (lower20 p1)) 2 p

section

variable (env : InstructionEnv)

/-- `getz80cond`. -/
def getz80cond : Reader (Option Z80Cond) :=
  if env.isLR35902 then do
    let pp ← ParseFn.peek
    match ← getz80cond_Z80 with
    | some .nz => pure (some .nz)
    | some .z => pure (some .z)
    | some .nc => pure (some .nc)
    | some .c => pure (some .c)
    | _ =>
      seek pp
      pure none
  else getz80cond_Z80

/-! ### Addresses -/

/-- `GetAddress`: no address where there is an error. -/
def getAddress : Reader (Option Aint) := do
  match ← attempt (getTemporaryLabel env.expr false) with
  | some label => pure (some (label.elim 0 TemporaryLabel.value))
  | none =>
    match ← attempt (parseExpression env) with
    | some ad => pure (some ad)
    | none =>
      ParseFn.report [.error "Operand expected" none .ifFirst]
      pure none

/-- An opcode with the address behind it; without an opcode the instruction is illegal. -/
def withAddress (opcode : Option Int) : Reader (List Int) := do
  let ad := (← getAddress env).getD 0
  ParseFn.report (check16 ad)
  pure (opcode.elim [] fun opcode => [opcode, lowByte ad, highByte ad])

/-- The opcode of a condition, which needs a comma behind it. -/
def condOpcode (name : String) (opcode : Int) : Reader (Option Int) := do
  if ← comma then pure (some opcode)
  else
    ParseFn.report [.error ("[" ++ name ++ " cc] Comma expected") (some env.bp) .pass3]
    pure none

/-! ### `CALL` -/

/-- One argument of `OpCode_CALL`. -/
def call : Reader (List Int) := do
  match ← getz80cond env with
  | none => withAddress env (some 0xCD)
  | some cc => withAddress env (← condOpcode env "CALL" (0xC4 + cc.value))

/-! ### `JP` -/

/-- `NeedIoC`: the port `(c)`. -/
def needIoC : Reader Bool := do
  blanks
  let old_p ← ParseFn.peek
  let result ← do
    match ← openBracket env with
    | .none => pure false
    | bt =>
      let (reg, _) ← getRegister env
      if reg = .c then closeBracket bt else pure false
  if result then pure true
  else
    seek old_p
    pure false

/-- The jump to an address, where there is no register; a round bracket belongs to its expression. -/
def jpAddress (bt : EBracketType) (expLp : Text) : Reader (List Int) :=
  match bt with
  | .square => withAddress env none
  | .round => do
    seek expLp
    withAddress env (some 0xC3)
  | _ => withAddress env (some 0xC3)

/-- The optional bracket behind the register of a jump. -/
def jpClose (bt : EBracketType) : Reader Bool :=
  if bt = .none then pure true else closeBracket bt

/-- `JP` without a condition. -/
def jpPlain : Reader (List Int) := do
  let expLp ← ParseFn.peek
  if ← (if env.isNextEnabled ≠ 0 then needIoC env else pure false) then pure [0xED, 0x98]
  else
    let bt ← openBracket env
    let (reg, _) ← getRegister env
    match reg with
    | .hl => emitIf (jpClose bt) [0xE9]
    | .ix | .iy => emitIf (jpClose bt) [reg.value, 0xE9]
    | .memHL | .memIX | .memIY | .unk => jpAddress env bt expLp
    | _ => pure []

/-- One argument of `OpCode_JP`. -/
def jp : Reader (List Int) := do
  match ← getz80cond env with
  | none => jpPlain env
  | some cc => withAddress env (← condOpcode env "JP" (0xC2 + cc.value))

/-! ### Relative jumps -/

/-- A number with its sign. -/
def withSign (val : Aint) : String := (if 0 ≤ val.toInt then "+" else "") ++ toString val.toInt

/-- The distance of a relative jump, 0 with an error where it is too far. -/
def relative (name : String) (jmp : Aint) : Reader Int :=
  if jmp.toInt < -128 ∨ 127 < jmp.toInt then do
    ParseFn.report [.error ("[" ++ name ++ "] Target out of range (" ++ withSign jmp ++ ")") none .pass3]
    pure 0
  else pure (lowByte jmp)

/-- One argument of `OpCode_DJNZ`. -/
def djnz : Reader (List Int) := do
  let nad := (← getAddress env).getD (env.expr.curAddress + 2)
  return [0x10, ← relative "DJNZ" (nad - env.expr.curAddress - 2)]

/-- The relative jump behind its condition. -/
def jrTarget (opcode : Option Int) : Reader (List Int) := do
  let jrad := (← getAddress env).elim 0 fun ad => ad - (env.expr.curAddress + 2)
  let d ← relative "JR" jrad
  pure (opcode.elim [] fun opcode => [opcode, d])

/-- One argument of `OpCode_JR`. -/
def jr : Reader (Option (List Int)) := do
  match ← getz80cond env with
  | none => some <$> jrTarget env (some 0x18)
  | some cc =>
    if cc.value ≤ Z80Cond.c.value then
      some <$> (do jrTarget env (← condOpcode env "JR" (0x20 + cc.value)))
    else
      ParseFn.report [.error "[JR] Illegal condition" (some env.bp) .pass3]
      skipToEol
      pure none

/-! ### `RET` and `RST` -/

/-- `OpCode_RET`. -/
def ret : Reader (List Int) := do
  match ← getz80cond env with
  | none => pure [0xC9]
  | some cc => pure [0xC0 + cc.value]

/-- One argument of `OpCode_RST`. -/
def rst : Reader (Option (List Int)) := do
  let e ← getByteNoMem env
  -- some bit is set which should be not
  if e.toNat &&& 0xC7 ≠ 0 then
    ParseFn.report [.error "[RST] Illegal operand" (some env.line) .pass3]
    skipToEol
    pure none
  else pure (some [0xC7 + e])

end

end Z80

end Sjasmplus
