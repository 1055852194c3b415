import Sjasmplus.Device
import Sjasmplus.Lib.Crc

/-!
# CRC-32C (`crc32c.cpp`)

`crc32c_append_sw` runs over its input in three loops: single bytes up to a multiple of four of the
address, blocks of twelve bytes through twelve tables, and the bytes that are left.  Each loop leaves
what still has to be fed to the CRC register unchanged, so the whole is the CRC with the Castagnoli
polynomial, at every address (`appendSw_eq`).
-/

namespace Sjasmplus

namespace Crc32c

/-- `POLY`. -/
def poly : BitVec 32 := 0x82f63b78

/-- The body of the innermost loop of `crc32_init`. -/
def shift (res : BitVec 32) : BitVec 32 :=
  if res &&& 1 = 1 then poly ^^^ (res >>> 1) else res >>> 1

/-- `table[t][i]`, as `crc32_init` computes it. -/
def table (t : Nat) (i : Byte) : BitVec 32 := (shift^[8])^[t + 1] (i.setWidth 32)

/-- `*(uint32_t *)next` over four bytes. -/
def word (b₀ b₁ b₂ b₃ : Byte) : BitVec 32 :=
  b₀.setWidth 32 ||| b₁.setWidth 32 <<< 8 ||| b₂.setWidth 32 <<< 16 ||| b₃.setWidth 32 <<< 24

/-- The body of the loops over single bytes. -/
def byteStep (crc : BitVec 32) (byte : Byte) : BitVec 32 :=
  table 0 ((crc ^^^ byte.setWidth 32).setWidth 8) ^^^ (crc >>> 8)

/-- The body of the loop over blocks, for the three words of a block. -/
def blockStep (crc first high high2 : BitVec 32) : BitVec 32 :=
  let crc := crc ^^^ first
  table 11 (crc.setWidth 8) ^^^ table 10 ((crc >>> 8).setWidth 8)
    ^^^ table 9 ((crc >>> 16).setWidth 8) ^^^ table 8 ((crc >>> 24).setWidth 8)
    ^^^ table 7 (high.setWidth 8) ^^^ table 6 ((high >>> 8).setWidth 8)
    ^^^ table 5 ((high >>> 16).setWidth 8) ^^^ table 4 ((high >>> 24).setWidth 8)
    ^^^ table 3 (high2.setWidth 8) ^^^ table 2 ((high2 >>> 8).setWidth 8)
    ^^^ table 1 ((high2 >>> 16).setWidth 8) ^^^ table 0 ((high2 >>> 24).setWidth 8)

/-- The first loop: bytes up to an aligned address. -/
def alignLoop (address : Nat) (crc : BitVec 32) : List Byte → BitVec 32 × List Byte
  | [] => (crc, [])
  | byte :: input =>
    if address % 4 ≠ 0 then alignLoop (address + 1) (byteStep crc byte) input
    else (crc, byte :: input)

/-- The second loop: blocks of twelve bytes. -/
def blockLoop (crc : BitVec 32) : List Byte → BitVec 32 × List Byte
  | b₀ :: b₁ :: b₂ :: b₃ :: b₄ :: b₅ :: b₆ :: b₇ :: b₈ :: b₉ :: b₁₀ :: b₁₁ :: input =>
    blockLoop
      (blockStep crc (word b₀ b₁ b₂ b₃) (word b₄ b₅ b₆ b₇) (word b₈ b₉ b₁₀ b₁₁)) input
  | input => (crc, input)

/-- `crc32c_append_sw`; `address` is where the input lies. -/
def appendSw (address : Nat) (crci : BitVec 32) (input : List Byte) : BitVec 32 :=
  let (crc, input) := alignLoop address (crci ^^^ 0xffffffff) input
  let (crc, input) := blockLoop crc input
  input.foldl byteStep crc ^^^ 0xffffffff

/-- CRC-32C of a list of bytes, behind the checksum `crci` of what came before. -/
def checksum (crci : BitVec 32) (input : List Byte) : BitVec 32 :=
  Crc.feed poly (crci ^^^ 0xffffffff) input ^^^ 0xffffffff

/-! ### The tables -/

theorem shift_eq (res : BitVec 32) : shift res = Crc.step poly res := by
  unfold shift Crc.step
  have hbit : res &&& 1 = 1 ↔ res.getLsbD 0 = true := by
    show res &&& 1#32 = 1#32 ↔ _
    rw [BitVec.and_one_eq_setWidth_ofBool_getLsbD]
    cases res.getLsbD 0 <;> decide
  simp only [hbit]

theorem table_eq (t : Nat) (i : Byte) : table t i = Crc.table poly t i := by
  have hround : ∀ r, (shift^[8])^[t + 1] r = Crc.steps poly (8 * (t + 1)) r := by
    intro r
    rw [← Function.iterate_mul, Crc.steps]
    exact congrArg (fun f : BitVec 32 → BitVec 32 => f^[8 * (t + 1)] r) (funext shift_eq)
  exact hround _

/-! ### The loops -/

theorem byteStep_eq (crc : BitVec 32) (byte : Byte) :
    byteStep crc byte = Crc.feedByte poly crc byte := by
  rw [byteStep, table_eq, Crc.feedByte_eq_table poly crc byte (by decide), BitVec.setWidth_xor,
    BitVec.setWidth_setWidth_of_le _ (by decide), BitVec.setWidth_eq]

theorem foldl_byteStep (crc : BitVec 32) (input : List Byte) :
    input.foldl byteStep crc = Crc.feed poly crc input := by
  have : byteStep = Crc.feedByte poly := funext fun c => funext (byteStep_eq c)
  rw [this, Crc.feed]

theorem feed_alignLoop (address : Nat) (crc : BitVec 32) (input : List Byte) :
    Crc.feed poly (alignLoop address crc input).1 (alignLoop address crc input).2
      = Crc.feed poly crc input := by
  induction input generalizing address crc with
  | nil => rfl
  | cons byte input ih =>
    unfold alignLoop
    by_cases h : address % 4 ≠ 0
    · rw [if_pos h, ih, byteStep_eq, Crc.feed_cons]
    · rw [if_neg h]

/-- The bytes of a word. -/
theorem setWidth_word (b₀ b₁ b₂ b₃ : Byte) :
    (word b₀ b₁ b₂ b₃).setWidth 8 = b₀ ∧ (word b₀ b₁ b₂ b₃ >>> 8).setWidth 8 = b₁ ∧
      (word b₀ b₁ b₂ b₃ >>> 16).setWidth 8 = b₂ ∧ (word b₀ b₁ b₂ b₃ >>> 24).setWidth 8 = b₃ := by
  unfold word
  refine ⟨?_, ?_, ?_, ?_⟩ <;> ext i hi <;> simp <;> grind

/-- A register of four bytes goes through the tables in four steps. -/
theorem steps_word (n : Nat) (r : BitVec 32) :
    Crc.steps poly (8 * (n + 4)) r
      = table (n + 3) (r.setWidth 8) ^^^ table (n + 2) ((r >>> 8).setWidth 8)
        ^^^ table (n + 1) ((r >>> 16).setWidth 8) ^^^ table n ((r >>> 24).setWidth 8) := by
  have hout : r >>> 32 = 0#32 := BitVec.ushiftRight_eq_zero (Nat.le_refl _)
  have hzero := Crc.steps_zero_register poly (8 * n)
  rw [Crc.steps_eq_table, Crc.steps_eq_table, Crc.steps_eq_table, Crc.steps_eq_table,
    ← BitVec.shiftRight_add, ← BitVec.shiftRight_add, ← BitVec.shiftRight_add, hout, hzero,
    BitVec.xor_zero]
  simp only [table_eq]
  ac_rfl

theorem blockStep_eq (crc : BitVec 32) (b₀ b₁ b₂ b₃ b₄ b₅ b₆ b₇ b₈ b₉ b₁₀ b₁₁ : Byte) :
    blockStep crc (word b₀ b₁ b₂ b₃) (word b₄ b₅ b₆ b₇) (word b₈ b₉ b₁₀ b₁₁)
      = Crc.feed poly crc [b₀, b₁, b₂, b₃, b₄, b₅, b₆, b₇, b₈, b₉, b₁₀, b₁₁] := by
  obtain ⟨h₀, h₁, h₂, h₃⟩ := setWidth_word b₀ b₁ b₂ b₃
  obtain ⟨h₄, h₅, h₆, h₇⟩ := setWidth_word b₄ b₅ b₆ b₇
  obtain ⟨h₈, h₉, h₁₀, h₁₁⟩ := setWidth_word b₈ b₉ b₁₀ b₁₁
  rw [Crc.feed_eq_xor]
  simp only [Crc.feed_zero_cons, Crc.feed_nil, List.length_cons, List.length_nil, BitVec.xor_zero]
  show _ = Crc.steps poly (8 * (8 + 4)) crc ^^^ _
  rw [steps_word]
  simp only [blockStep, BitVec.ushiftRight_xor_distrib, BitVec.setWidth_xor, table_eq,
    Crc.table_xor, h₀, h₁, h₂, h₃, h₄, h₅, h₆, h₇, h₈, h₉, h₁₀, h₁₁, Nat.reduceAdd]
  generalize Crc.table poly = T
  ac_rfl

theorem feed_blockLoop (crc : BitVec 32) (input : List Byte) :
    Crc.feed poly (blockLoop crc input).1 (blockLoop crc input).2 = Crc.feed poly crc input := by
  fun_induction blockLoop crc input with
  | case1 crc b₀ b₁ b₂ b₃ b₄ b₅ b₆ b₇ b₈ b₉ b₁₀ b₁₁ input ih =>
    rw [ih, blockStep_eq, ← Crc.feed_append]
    rfl
  | case2 => rfl

/-- The three loops together compute CRC-32C, whatever the address of the input. -/
theorem appendSw_eq (address : Nat) (crci : BitVec 32) (input : List Byte) :
    appendSw address crci input = checksum crci input := by
  unfold appendSw checksum
  dsimp only
  rw [foldl_byteStep, feed_blockLoop, feed_alignLoop]

/-! ### The checksum -/

@[simp] theorem checksum_nil (crci : BitVec 32) : checksum crci [] = crci := by
  unfold checksum
  rw [Crc.feed_nil, BitVec.xor_assoc, BitVec.xor_self, BitVec.xor_zero]

/-- The checksum may be computed in parts. -/
theorem checksum_append (crci : BitVec 32) (xs ys : List Byte) :
    checksum crci (xs ++ ys) = checksum (checksum crci xs) ys := by
  unfold checksum
  rw [Crc.feed_append, BitVec.xor_assoc _ (0xffffffff : BitVec 32), BitVec.xor_self,
    BitVec.xor_zero]

/-- Behind the same bytes, two inputs have one checksum exactly when the polynomial divides their
difference. -/
theorem checksum_eq_iff (crci : BitVec 32) {xs ys : List Byte} (h : xs.length = ys.length) :
    checksum crci xs = checksum crci ys ↔ Crc.feed poly 0#32 (Crc.xorBytes xs ys) = 0#32 := by
  rw [← Crc.feed_eq_iff poly (crci ^^^ 0xffffffff) h]
  exact BitVec.xor_left_inj _

end Crc32c

end Sjasmplus
