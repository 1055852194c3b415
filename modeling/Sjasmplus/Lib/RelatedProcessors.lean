import Sjasmplus.Lib.Z80Instructions

/-!
# The instruction sets of the i8080 and of the Sharp LR35902

The i8080 has the instructions of the Z80 without a prefix, except those that the Z80 added.  The
LR35902 has other instructions at some opcodes, and none at some.

`IsCode` says that bytes are instructions of a processor, one after the other.
-/

namespace Z80Cpu

open Codec

/-! ### The i8080 -/

/-- The opcodes without an instruction of the i8080. -/
def i8080Missing : List (BitVec 8) :=
  [0x08, 0x10, 0x18, 0x20, 0x28, 0x30, 0x38, 0xCB, 0xD9, 0xDD, 0xED, 0xFD]

/-- One instruction of the i8080, in the terms of the Z80. -/
def i8080Instruction : ByteDecoder Instruction := do
  let op ← item
  if op ∈ i8080Missing then failure else mainItem .hl op

/-! ### The LR35902 -/

/-- The instructions of the LR35902. -/
inductive SharpInstruction
  /-- An instruction of the Z80 with the same opcode. -/
  | common (instr : Instruction)
  /-- `LD (nn),SP` -/
  | storeSp (address : BitVec 16)
  | stop (n : BitVec 8)
  /-- `LD (HL+),A` -/
  | storeInc
  /-- `LD A,(HL+)` -/
  | loadInc
  /-- `LD (HL-),A` -/
  | storeDec
  /-- `LD A,(HL-)` -/
  | loadDec
  | swap (dst : Loc)
  /-- `LDH (n),A` -/
  | storeHigh (n : BitVec 8)
  /-- `LDH A,(n)` -/
  | loadHigh (n : BitVec 8)
  /-- `LD (C),A` -/
  | storeHighC
  /-- `LD A,(C)` -/
  | loadHighC
  /-- `LD (nn),A` -/
  | storeA (address : BitVec 16)
  /-- `LD A,(nn)` -/
  | loadA (address : BitVec 16)
  /-- `ADD SP,d` -/
  | addSp (d : BitVec 8)
  /-- `LD HL,SP+d` -/
  | ldHlSp (d : BitVec 8)
  | reti
deriving DecidableEq, Repr

/-- The opcodes without an instruction of the LR35902. -/
def sharpMissing : List (BitVec 8) :=
  [0xD3, 0xDB, 0xDD, 0xE3, 0xE4, 0xEB, 0xEC, 0xED, 0xF4, 0xFC, 0xFD]

/-- The opcodes behind `CB`: exchanges of digits are in the place of `SLL`. -/
def sharpCbItem : ByteDecoder SharpInstruction := do
  match ← cbItem with
  | .rotate .sll dst _ => pure (.swap dst)
  | instr => pure (.common instr)

/-- The opcodes without a prefix. -/
def sharpItem (op : BitVec 8) : ByteDecoder SharpInstruction :=
  match op.toNat with
  | 0x08 => do return .storeSp (← wordItem)
  | 0x10 => do return .stop (← item)
  | 0x22 => pure .storeInc
  | 0x2A => pure .loadInc
  | 0x32 => pure .storeDec
  | 0x3A => pure .loadDec
  | 0xD9 => pure .reti
  | 0xE0 => do return .storeHigh (← item)
  | 0xE2 => pure .storeHighC
  | 0xE8 => do return .addSp (← item)
  | 0xEA => do return .storeA (← wordItem)
  | 0xF0 => do return .loadHigh (← item)
  | 0xF2 => pure .loadHighC
  | 0xF8 => do return .ldHlSp (← item)
  | 0xFA => do return .loadA (← wordItem)
  | _ => if op ∈ sharpMissing then failure else do return .common (← mainItem .hl op)

/-- One instruction of the LR35902. -/
def sharpInstruction : ByteDecoder SharpInstruction := do
  let op ← item
  if op = 0xCB then sharpCbItem else sharpItem op

/-- Every opcode behind `CB` is an instruction. -/
theorem exists_reads_sharpCb (op : BitVec 8) : ∃ instr, Reads sharpInstruction [0xCB, op] instr := by
  obtain ⟨instr, hinstr⟩ := exists_reads_cbItem op
  have hitem : ∃ sharp, Reads sharpCbItem [op] sharp := by
    cases instr with
    | rotate rotation dst copy => cases rotation <;> exact ⟨_, hinstr.bind (reads_pure _)⟩
    | _ => exact ⟨_, hinstr.bind (reads_pure _)⟩
  obtain ⟨sharp, hsharp⟩ := hitem
  exact ⟨sharp, Reads.item_bind hsharp⟩

/-! ### Code -/

/-- The processors; `next` is the level of the extensions of the Z80N. -/
inductive Processor
  | i8080
  | lr35902
  | z80 (next : Nat)
deriving DecidableEq, Repr

/-- The bytes are instructions of the processor, one after the other. -/
def IsCode : Processor → List (BitVec 8) → Prop
  | .i8080 => Readable i8080Instruction
  | .lr35902 => Readable sharpInstruction
  | .z80 next => Readable (instruction next)

theorem isCode_nil (processor : Processor) : IsCode processor [] := by
  cases processor <;> exact readable_nil _

theorem IsCode.append {processor : Processor} {bytes bytes' : List (BitVec 8)}
    (h : IsCode processor bytes) (h' : IsCode processor bytes') : IsCode processor (bytes ++ bytes') := by
  cases processor <;> exact Readable.append h h'

/-- A program for a level of extensions is one for a higher level. -/
theorem IsCode.of_le {next next' : Nat} (hle : next ≤ next') {bytes : List (BitVec 8)}
    (h : IsCode (.z80 next) bytes) : IsCode (.z80 next') bytes :=
  Readable.mono (covers_instruction hle) h

/-! ### Disassembling -/

/-- The bytes are instructions up to their end. -/
def disassembles : Processor → List (BitVec 8) → Bool
  | .i8080, bytes => (readAll i8080Instruction bytes).isSome
  | .lr35902, bytes => (readAll sharpInstruction bytes).isSome
  | .z80 next, bytes => (readAll (instruction next) bytes).isSome

/-- Code is read back instruction by instruction. -/
theorem IsCode.disassembles {processor : Processor} {bytes : List (BitVec 8)}
    (h : IsCode processor bytes) :
    disassembles processor bytes = true := by
  cases processor with
  | i8080 =>
    obtain ⟨instrs, h⟩ := h
    have hnil : ∀ instr, ¬Reads i8080Instruction [] instr := not_reads_item_bind _
    show (readAll i8080Instruction bytes).isSome = true
    rw [h.readAll_eq hnil, Option.isSome_some]
  | lr35902 =>
    obtain ⟨instrs, h⟩ := h
    have hnil : ∀ instr, ¬Reads sharpInstruction [] instr := not_reads_item_bind _
    show (readAll sharpInstruction bytes).isSome = true
    rw [h.readAll_eq hnil, Option.isSome_some]
  | z80 next =>
    obtain ⟨instrs, h⟩ := h
    show (readAll (instruction next) bytes).isSome = true
    rw [h.readAll_eq (not_reads_nil next), Option.isSome_some]

/-- The LR35902 has no instruction at the missing opcodes. -/
theorem run_sharpInstruction_missing {op : BitVec 8} (hop : op ∈ sharpMissing) (rest : List (BitVec 8)) :
    sharpInstruction.run (op :: rest) = none := by
  simp only [sharpMissing, List.mem_cons, List.not_mem_nil, or_false] at hop
  rcases hop with rfl | rfl | rfl | rfl | rfl | rfl | rfl | rfl | rfl | rfl | rfl <;> rfl

/-- Code with a missing opcode behind it is no program of the LR35902, whatever follows. -/
theorem IsCode.disassembles_missing {bytes : List (BitVec 8)} (h : IsCode .lr35902 bytes) {op : BitVec 8}
    (hop : op ∈ sharpMissing) (rest : List (BitVec 8)) :
    Z80Cpu.disassembles .lr35902 (bytes ++ op :: rest) = false := by
  obtain ⟨instrs, h⟩ := h
  have hnil : ∀ instr, ¬Reads sharpInstruction [] instr := not_reads_item_bind _
  show (readAll sharpInstruction (bytes ++ op :: rest)).isSome = false
  rw [h.readAll_append_eq_none hnil (run_sharpInstruction_missing hop rest), Option.isSome_none]

end Z80Cpu
