import Mathlib.Tactic.IntervalCases
import Sjasmplus.Lib.Codec
import Sjasmplus.Lib.Z80

/-!
# The instruction set of the Z80

`Instruction` has every instruction of the Z80 with its operands: the documented ones, the halves of the
index registers, `SLL`, and the rotations and bit operations behind an index prefix that also copy their
result to a register.  The multiplications of the R800 are part of it.  The instructions of the Z80N
belong to level 1 of the set, and the codes that the CSpect emulator adds to level 2.

`instruction next` reads one instruction of the set of level `next` by the fields `x`, `y` and `z` of its
opcode.
-/

namespace Z80Cpu

open Codec

/-! ### Instructions -/

/-- The conditions of jumps, calls and returns. -/
inductive Cond
  | nz | z | nc | c | po | pe | p | m
deriving DecidableEq, Repr

/-- The 8-bit operations with the accumulator. -/
inductive Alu
  | add | adc | sub | sbc | and | xor | or | cp
deriving DecidableEq, Repr

/-- What `PUSH` and `POP` move. -/
inductive Stacked
  | pair (p : Pair)
  | af
deriving DecidableEq, Repr

/-- The instructions without operands, and the loads of `I` and `R`. -/
inductive Plain
  | nop | rlca | rrca | rla | rra | daa | cpl | scf | ccf | halt
  | exAf | exx | exDeHl | di | ei | ret
  | ldIA | ldRA | ldAI | ldAR | neg | retn | reti | rrd | rld
  | ldi | cpi | ini | outi | ldd | cpd | ind | outd
  | ldir | cpir | inir | otir | lddr | cpdr | indr | otdr
deriving DecidableEq, Repr

/-- The instructions of the Z80N without operands. -/
inductive NextPlain
  | swapnib | mirror | bsla | bsra | bsrl | bsrf | brlc | mul
  | outinb | pixeldn | pixelad | setae | jpC
  | ldix | ldws | lddx | ldirx | ldpirx | lddrx
deriving DecidableEq, Repr

/-- The instructions with their operands.  Places in memory at `BC`, `DE` and `HL` have no
displacement; `copy` is the register that takes the result too. -/
inductive Instruction
  | plain (op : Plain)
  | ld (dst src : Loc)
  | ldImm (dst : Loc) (n : BitVec 8)
  /-- `LD A,(nn)` -/
  | loadA (address : BitVec 16)
  /-- `LD (nn),A` -/
  | storeA (address : BitVec 16)
  | ldWide (dst : Wide) (n : BitVec 16)
  /-- `LD dst,(nn)` -/
  | loadWide (dst : Wide) (address : BitVec 16)
  /-- `LD (nn),src` -/
  | storeWide (address : BitVec 16) (src : Wide)
  /-- `LD SP,src` -/
  | ldSp (src : Pair)
  | push (p : Stacked)
  | pop (p : Stacked)
  /-- `EX (SP),p` -/
  | exSp (p : Pair)
  | alu (op : Alu) (src : Loc)
  | aluImm (op : Alu) (n : BitVec 8)
  | inc (dst : Loc)
  | dec (dst : Loc)
  | incWide (dst : Wide)
  | decWide (dst : Wide)
  | add (dst : Pair) (src : Wide)
  | adcHl (src : Wide)
  | sbcHl (src : Wide)
  | rotate (op : Rotation) (dst : Loc) (copy : Option Reg)
  | bit (n : Nat) (src : Loc)
  | res (n : Nat) (dst : Loc) (copy : Option Reg)
  | set (n : Nat) (dst : Loc) (copy : Option Reg)
  | jp (address : BitVec 16)
  | jpIf (cond : Cond) (address : BitVec 16)
  /-- `JP (p)` -/
  | jpPair (p : Pair)
  | jr (d : BitVec 8)
  | jrIf (cond : Cond) (d : BitVec 8)
  | djnz (d : BitVec 8)
  | call (address : BitVec 16)
  | callIf (cond : Cond) (address : BitVec 16)
  | retIf (cond : Cond)
  /-- The call of address `8 * n`. -/
  | rst (n : Nat)
  /-- `IN A,(n)` -/
  | inA (n : BitVec 8)
  /-- `OUT (n),A` -/
  | outA (n : BitVec 8)
  /-- `IN dst,(C)`; without a register only the flags are set. -/
  | inC (dst : Option Reg)
  /-- `OUT (C),src`; without a register the value is 0. -/
  | outC (src : Option Reg)
  | im (mode : Nat)
  | mulub (src : Reg)
  | muluw (src : Wide)
  | next (op : NextPlain)
  /-- `ADD dst,A` -/
  | addA (dst : Pair)
  | addImm (dst : Pair) (n : BitVec 16)
  | pushImm (n : BitVec 16)
  | nextreg (number n : BitVec 8)
  | nextregA (number : BitVec 8)
  | test (n : BitVec 8)
  | exit
  | break
  | setbrk (type : BitVec 8) (first last : BitVec 16)
  | clrbrk (type : BitVec 8) (first last : BitVec 16)
deriving DecidableEq, Repr

/-! ### Fields of opcodes -/

def condOf : Nat → Option Cond
  | 0 => some .nz
  | 1 => some .z
  | 2 => some .nc
  | 3 => some .c
  | 4 => some .po
  | 5 => some .pe
  | 6 => some .p
  | 7 => some .m
  | _ => none

def aluOf : Nat → Option Alu
  | 0 => some .add
  | 1 => some .adc
  | 2 => some .sub
  | 3 => some .sbc
  | 4 => some .and
  | 5 => some .xor
  | 6 => some .or
  | 7 => some .cp
  | _ => none

/-- The operand of `PUSH` and `POP` with a number. -/
def stackedOf (p : Pair) : Nat → Option Stacked
  | 0 => some (.pair .bc)
  | 1 => some (.pair .de)
  | 2 => some (.pair p)
  | 3 => some .af
  | _ => none

/-- The operations on the accumulator and the flags. -/
def accumulatorOf : Nat → Option Plain
  | 0 => some .rlca
  | 1 => some .rrca
  | 2 => some .rla
  | 3 => some .rra
  | 4 => some .daa
  | 5 => some .cpl
  | 6 => some .scf
  | 7 => some .ccf
  | _ => none

/-- The transfers and searches of blocks behind `ED`. -/
def blockOf (y z : Nat) : Option Plain :=
  match y, z with
  | 4, 0 => some .ldi
  | 4, 1 => some .cpi
  | 4, 2 => some .ini
  | 4, 3 => some .outi
  | 5, 0 => some .ldd
  | 5, 1 => some .cpd
  | 5, 2 => some .ind
  | 5, 3 => some .outd
  | 6, 0 => some .ldir
  | 6, 1 => some .cpir
  | 6, 2 => some .inir
  | 6, 3 => some .otir
  | 7, 0 => some .lddr
  | 7, 1 => some .cpdr
  | 7, 2 => some .indr
  | 7, 3 => some .otdr
  | _, _ => none

/-- The loads of `I` and `R` and the rotations of digits behind `ED`. -/
def digitsOf : Nat → Option Plain
  | 0 => some .ldIA
  | 1 => some .ldRA
  | 2 => some .ldAI
  | 3 => some .ldAR
  | 4 => some .rrd
  | 5 => some .rld
  | _ => none

/-- The opcodes of the Z80N without operands. -/
def nextPlainOf : Nat → Option NextPlain
  | 0x23 => some .swapnib
  | 0x24 => some .mirror
  | 0x28 => some .bsla
  | 0x29 => some .bsra
  | 0x2A => some .bsrl
  | 0x2B => some .bsrf
  | 0x2C => some .brlc
  | 0x30 => some .mul
  | 0x90 => some .outinb
  | 0x93 => some .pixeldn
  | 0x94 => some .pixelad
  | 0x95 => some .setae
  | 0x98 => some .jpC
  | 0xA4 => some .ldix
  | 0xA5 => some .ldws
  | 0xAC => some .lddx
  | 0xB4 => some .ldirx
  | 0xB7 => some .ldpirx
  | 0xBC => some .lddrx
  | _ => none

/-! ### Reading instructions -/

abbrev ByteDecoder := Decoder (BitVec 8)

def ofOption {α : Type} (o : Option α) : ByteDecoder α := fun bytes => o.map fun a => (a, bytes)

/-- A word, its low byte first. -/
def wordItem : ByteDecoder (BitVec 16) := do
  let low ← item
  let high ← item
  pure (word high low)

section

variable (p : Pair)

/-- Memory at `HL`, or at an index register with the displacement behind the opcode. -/
def memItem : ByteDecoder Loc :=
  if p = .hl then pure (.mem .hl 0) else do return .mem p (← item)

/-- The 8-bit operand with a number in an opcode. -/
def locItem (n : Nat) : ByteDecoder Loc :=
  if n = 6 then memItem p else do return .reg (← ofOption (regOf p n))

/-- A load between registers, or between a register and memory: next to memory, `H` and `L` are not
replaced. -/
def ldItem (y z : Nat) : ByteDecoder Instruction :=
  if y = 6 ∧ z = 6 then pure (.plain .halt)
  else if y = 6 then do return .ld (← memItem p) (.reg (← ofOption (regOf .hl z)))
  else if z = 6 then do
    let dst ← ofOption (regOf .hl y)
    return .ld (.reg dst) (← memItem p)
  else do return .ld (.reg (← ofOption (regOf p y))) (.reg (← ofOption (regOf p z)))

/-- The opcodes below `40`. -/
def lowItem (y z : Nat) : ByteDecoder Instruction :=
  match z with
  | 0 => match y with
    | 0 => pure (.plain .nop)
    | 1 => pure (.plain .exAf)
    | 2 => do return .djnz (← item)
    | 3 => do return .jr (← item)
    | y => do return .jrIf (← ofOption (condOf (y - 4))) (← item)
  | 1 => do
    let wide ← ofOption (wideOf p (y / 2))
    if y % 2 = 0 then return .ldWide wide (← wordItem) else pure (.add p wide)
  | 2 => match y with
    | 0 => pure (.ld (.mem .bc 0) (.reg .a))
    | 1 => pure (.ld (.reg .a) (.mem .bc 0))
    | 2 => pure (.ld (.mem .de 0) (.reg .a))
    | 3 => pure (.ld (.reg .a) (.mem .de 0))
    | 4 => do return .storeWide (← wordItem) (.pair p)
    | 5 => do return .loadWide (.pair p) (← wordItem)
    | 6 => do return .storeA (← wordItem)
    | _ => do return .loadA (← wordItem)
  | 3 => do
    let wide ← ofOption (wideOf p (y / 2))
    pure (if y % 2 = 0 then .incWide wide else .decWide wide)
  | 4 => do return .inc (← locItem p y)
  | 5 => do return .dec (← locItem p y)
  | 6 => do
    let dst ← locItem p y
    return .ldImm dst (← item)
  | _ => do return .plain (← ofOption (accumulatorOf y))

/-- The opcodes from `C0` on. -/
def highItem (y z : Nat) : ByteDecoder Instruction :=
  match z with
  | 0 => do return .retIf (← ofOption (condOf y))
  | 1 => match y with
    | 1 => pure (.plain .ret)
    | 3 => pure (.plain .exx)
    | 5 => pure (.jpPair p)
    | 7 => pure (.ldSp p)
    | y => do return .pop (← ofOption (stackedOf p (y / 2)))
  | 2 => do
    let cond ← ofOption (condOf y)
    return .jpIf cond (← wordItem)
  | 3 => match y with
    | 0 => do return .jp (← wordItem)
    | 2 => do return .outA (← item)
    | 3 => do return .inA (← item)
    | 4 => pure (.exSp p)
    | 5 => pure (.plain .exDeHl)
    | 6 => pure (.plain .di)
    | 7 => pure (.plain .ei)
    | _ => failure
  | 4 => do
    let cond ← ofOption (condOf y)
    return .callIf cond (← wordItem)
  | 5 =>
    if y = 1 then do return .call (← wordItem)
    else if y % 2 = 0 then do return .push (← ofOption (stackedOf p (y / 2)))
    else failure
  | 6 => do
    let op ← ofOption (aluOf y)
    return .aluImm op (← item)
  | _ => pure (.rst y)

/-- The opcodes without a prefix, or behind an index prefix. -/
def mainItem (op : BitVec 8) : ByteDecoder Instruction :=
  let y := op.toNat / 8 % 8
  let z := op.toNat % 8
  match op.toNat / 64 with
  | 0 => lowItem p y z
  | 1 => ldItem p y z
  | 2 => do
    let op ← ofOption (aluOf y)
    return .alu op (← locItem p z)
  | _ => highItem p y z

/-- The operation behind `CB` on an operand. -/
def cbOperation (op : BitVec 8) (loc : Loc) (copy : Option Reg) : ByteDecoder Instruction :=
  let y := op.toNat / 8 % 8
  match op.toNat / 64 with
  | 0 => do return .rotate (← ofOption (rotationOf y)) loc copy
  | 1 => pure (.bit y loc)
  | 2 => pure (.res y loc copy)
  | _ => pure (.set y loc copy)

/-- The opcodes behind an index prefix and `CB`: the displacement is in front of the opcode. -/
def indexCbItem : ByteDecoder Instruction := do
  let d ← item
  let op ← item
  cbOperation op (.mem p d) (regOf .hl (op.toNat % 8))

end

section

variable (next : Nat)

/-- The opcodes behind `CB`. -/
def cbItem : ByteDecoder Instruction := do
  let op ← item
  let loc ← locItem .hl (op.toNat % 8)
  cbOperation op loc none

/-- The opcodes from `40` to `7F` behind `ED`. -/
def edItem (y z : Nat) : ByteDecoder Instruction :=
  match z with
  | 0 => pure (.inC (regOf .hl y))
  | 1 => pure (.outC (regOf .hl y))
  | 2 => do
    let wide ← ofOption (wideOf .hl (y / 2))
    pure (if y % 2 = 0 then .sbcHl wide else .adcHl wide)
  | 3 => do
    let wide ← ofOption (wideOf .hl (y / 2))
    let address ← wordItem
    pure (if y % 2 = 0 then .storeWide address wide else .loadWide wide address)
  | 4 => pure (.plain .neg)
  | 5 => pure (.plain (if y = 1 then .reti else .retn))
  | 6 => pure (.im (if y % 4 < 2 then 0 else y % 4 - 1))
  | _ => do return .plain (← ofOption (digitsOf y))

/-- The multiplications. -/
def mulItem (op : BitVec 8) : ByteDecoder Instruction :=
  match op.toNat with
  | 0xC1 => pure (.mulub (.high .bc))
  | 0xC9 => pure (.mulub (.low .bc))
  | 0xD1 => pure (.mulub (.high .de))
  | 0xD9 => pure (.mulub (.low .de))
  | 0xC3 => pure (.muluw (.pair .bc))
  | 0xF3 => pure (.muluw .sp)
  | _ => failure

/-- The opcodes of the Z80N behind `ED`. -/
def nextItem (op : BitVec 8) : ByteDecoder Instruction :=
  match op.toNat with
  | 0x27 => do return .test (← item)
  | 0x31 => pure (.addA .hl)
  | 0x32 => pure (.addA .de)
  | 0x33 => pure (.addA .bc)
  | 0x34 => do return .addImm .hl (← wordItem)
  | 0x35 => do return .addImm .de (← wordItem)
  | 0x36 => do return .addImm .bc (← wordItem)
  | 0x8A => do
    -- the only word with its high byte first
    let high ← item
    let low ← item
    pure (.pushImm (word high low))
  | 0x91 => do
    let number ← item
    return .nextreg number (← item)
  | 0x92 => do return .nextregA (← item)
  | op => do return .next (← ofOption (nextPlainOf op))

/-- The break points of the emulator. -/
def breakItem (make : BitVec 8 → BitVec 16 → BitVec 16 → Instruction) : ByteDecoder Instruction := do
  let type ← item
  let first ← wordItem
  return make type first (← wordItem)

/-- The opcodes behind `ED` that the Z80 does not have. -/
def extendedItem (op : BitVec 8) : ByteDecoder Instruction :=
  if 0xC0 ≤ op.toNat then mulItem op
  else if op.toNat < 0x04 then
    if next < 2 then failure
    else if op.toNat = 1 then breakItem .setbrk
    else if op.toNat = 2 then breakItem .clrbrk
    else failure
  else if next < 1 then failure
  else nextItem op

/-- The opcodes behind `ED`. -/
def edPrefixItem : ByteDecoder Instruction := do
  let op ← item
  let y := op.toNat / 8 % 8
  let z := op.toNat % 8
  if op.toNat / 64 = 1 then edItem y z
  else
    match if op.toNat / 64 = 2 then blockOf y z else none with
    | some plain => pure (.plain plain)
    | none => extendedItem next op

/-- The opcodes behind an index prefix. -/
def indexItem (p : Pair) (emulator : Instruction) : ByteDecoder Instruction := do
  let op ← item
  if op = 0xCB then indexCbItem p
  else if op = 0xED ∨ op = 0xDD ∨ op = 0xFD then failure
  else if op = 0x00 ∧ 2 ≤ next then pure emulator
  else mainItem p op

/-- One instruction. -/
def instruction : ByteDecoder Instruction := do
  let op ← item
  if op = 0xCB then cbItem
  else if op = 0xED then edPrefixItem next
  else if op = 0xDD then indexItem next .ix .exit
  else if op = 0xFD then indexItem next .iy .break
  else mainItem .hl op

end

/-! ### Opcodes that are never missing -/

theorem exists_reads_regOf {n : Nat} (hn : n < 8) (hmem : n ≠ 6) :
    ∃ reg, Reads (ofOption (regOf .hl n)) [] reg := by
  interval_cases n <;> first | exact absurd rfl hmem | exact ⟨_, fun _ => rfl⟩

theorem exists_reads_locItem {n : Nat} (hn : n < 8) : ∃ loc, Reads (locItem .hl n) [] loc := by
  by_cases hmem : n = 6
  · subst hmem
    exact ⟨_, fun _ => rfl⟩
  · obtain ⟨reg, hreg⟩ := exists_reads_regOf hn hmem
    refine ⟨.reg reg, ?_⟩
    rw [locItem, if_neg hmem]
    exact hreg.bind_pure _

theorem exists_reads_cbOperation (op : BitVec 8) (loc : Loc) (copy : Option Reg) :
    ∃ instr, Reads (cbOperation op loc copy) [] instr := by
  have hrotation : ∀ y < 8, ∃ rotation, Reads (ofOption (rotationOf y)) [] rotation := by
    intro y hy
    interval_cases y <;> exact ⟨_, fun _ => rfl⟩
  obtain ⟨rotation, hrotation⟩ := hrotation (op.toNat / 8 % 8) (Nat.mod_lt _ (by decide))
  simp only [cbOperation]
  split
  · exact ⟨_, hrotation.bind_pure _⟩
  all_goals exact ⟨_, reads_pure _⟩

/-- Every opcode behind `CB` is an instruction. -/
theorem exists_reads_cbItem (op : BitVec 8) : ∃ instr, Reads cbItem [op] instr := by
  obtain ⟨loc, hloc⟩ := exists_reads_locItem (Nat.mod_lt op.toNat (show 0 < 8 by decide))
  obtain ⟨instr, hinstr⟩ := exists_reads_cbOperation op loc none
  exact ⟨instr, Reads.item_bind (hloc.bind hinstr)⟩

theorem exists_reads_cb (next : Nat) (op : BitVec 8) :
    ∃ instr, Reads (instruction next) [0xCB, op] instr := by
  obtain ⟨instr, hinstr⟩ := exists_reads_cbItem op
  exact ⟨instr, Reads.item_bind hinstr⟩

/-- Every opcode behind an index prefix, `CB` and a displacement is an instruction. -/
theorem exists_reads_indexCb (next : Nat) {first : BitVec 8} (hfirst : first = 0xDD ∨ first = 0xFD)
    (d op : BitVec 8) : ∃ instr, Reads (instruction next) [first, 0xCB, d, op] instr := by
  have hitem : ∀ p, ∃ instr, Reads (indexCbItem p) [d, op] instr := by
    intro p
    obtain ⟨instr, hinstr⟩ := exists_reads_cbOperation op (.mem p d) (regOf .hl (op.toNat % 8))
    exact ⟨instr, Reads.item_bind (Reads.item_bind hinstr)⟩
  rcases hfirst with rfl | rfl
  · obtain ⟨instr, hinstr⟩ := hitem .ix
    exact ⟨instr, Reads.item_bind (Reads.item_bind hinstr)⟩
  · obtain ⟨instr, hinstr⟩ := hitem .iy
    exact ⟨instr, Reads.item_bind (Reads.item_bind hinstr)⟩

/-- No instruction is read off nothing. -/
theorem not_reads_nil (next : Nat) (instr : Instruction) : ¬Reads (instruction next) [] instr :=
  not_reads_item_bind _ instr

/-! ### Levels -/

/-- What has an instruction has one for the other reader. -/
def Covers {α : Type} (r r' : ByteDecoder α) : Prop :=
  ∀ bytes a, Reads r bytes a → ∃ a', Reads r' bytes a'

theorem Covers.refl {α : Type} (r : ByteDecoder α) : Covers r r := fun _ a h => ⟨a, h⟩

theorem covers_failure {α : Type} (r : ByteDecoder α) : Covers failure r := fun bytes a h =>
  absurd h (not_reads_failure bytes a)

theorem covers_pure {α : Type} (a b : α) : Covers (pure a) (pure b) := by
  intro bytes a' hreads
  have hrun : some (a, bytes ++ []) = some (a', []) := hreads []
  simp only [List.append_nil, Option.some.injEq, Prod.mk.injEq] at hrun
  obtain ⟨-, rfl⟩ := hrun
  exact ⟨b, reads_pure b⟩

theorem Covers.item_bind {α : Type} {f f' : BitVec 8 → ByteDecoder α} (h : ∀ op, Covers (f op) (f' op)) :
    Covers (item >>= f) (item >>= f') := by
  intro bytes a hreads
  obtain ⟨op, rest, rfl, hrest⟩ := reads_item_bind.mp hreads
  obtain ⟨a', ha'⟩ := h op rest a hrest
  exact ⟨a', ha'.item_bind⟩

section

variable {next next' : Nat} (hle : next ≤ next')

include hle

theorem covers_extendedItem (op : BitVec 8) : Covers (extendedItem next op) (extendedItem next' op) := by
  unfold extendedItem
  split_ifs
  any_goals exact Covers.refl _
  any_goals exact covers_failure _
  all_goals omega

theorem covers_edPrefixItem : Covers (edPrefixItem next) (edPrefixItem next') := by
  refine Covers.item_bind fun op => ?_
  dsimp only
  split_ifs
  any_goals exact Covers.refl _
  all_goals
    split
    · exact Covers.refl _
    · exact covers_extendedItem hle op

/-- Behind an index prefix only the meaning of `00` differs. -/
theorem covers_indexItem (p : Pair) (emulator : Instruction) :
    Covers (indexItem next p emulator) (indexItem next' p emulator) := by
  refine Covers.item_bind fun op => ?_
  split_ifs with _ _ hexit hexit' hexit'
  any_goals exact Covers.refl _
  · exact absurd ⟨hexit.1, hexit.2.trans hle⟩ hexit'
  · -- without the emulator this is `NOP`
    obtain ⟨rfl, -⟩ := hexit'
    exact covers_pure (.plain .nop) emulator

/-- A higher level has more instructions. -/
theorem covers_instruction : Covers (instruction next) (instruction next') := by
  refine Covers.item_bind fun op => ?_
  split_ifs
  · exact Covers.refl _
  · exact covers_edPrefixItem hle
  · exact covers_indexItem hle .ix .exit
  · exact covers_indexItem hle .iy .break
  · exact Covers.refl _

end

end Z80Cpu
