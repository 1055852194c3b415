import Mathlib.Data.BitVec
import Mathlib.Logic.Function.Basic

/-!
# Instructions of the Z80

The machine has the accumulator, the register pairs with their halves, the stack pointer, the carry
flag and 64 KiB of memory.  `decode` reads one instruction from its bytes by the fields of the opcode:
loads of bytes, 16-bit increments and arithmetic, the stack, `EX DE,HL`, `OR` and the rotations, with
and without an index prefix.  `exec` runs bytes from the first to the last.

The other flags are left out, since none of these instructions reads them.
-/

namespace Z80Cpu

/-! ### Bytes and words -/

def word (high low : BitVec 8) : BitVec 16 := BitVec.ofNat 16 (256 * high.toNat + low.toNat)

def high (w : BitVec 16) : BitVec 8 := BitVec.ofNat 8 (w.toNat / 256)

def low (w : BitVec 16) : BitVec 8 := BitVec.ofNat 8 w.toNat

theorem toNat_word (x y : BitVec 8) : (word x y).toNat = 256 * x.toNat + y.toNat := by
  rw [word, BitVec.toNat_ofNat, Nat.mod_eq_of_lt]
  omega

@[simp] theorem high_word (x y : BitVec 8) : high (word x y) = x := by
  apply BitVec.eq_of_toNat_eq
  rw [high, toNat_word, BitVec.toNat_ofNat]
  omega

@[simp] theorem low_word (x y : BitVec 8) : low (word x y) = y := by
  apply BitVec.eq_of_toNat_eq
  rw [low, toNat_word, BitVec.toNat_ofNat]
  omega

@[simp] theorem word_high_low (w : BitVec 16) : word (high w) (low w) = w := by
  apply BitVec.eq_of_toNat_eq
  rw [toNat_word, high, low, BitVec.toNat_ofNat, BitVec.toNat_ofNat]
  omega

/-! ### Shifts -/

/-- A shift to the left with the bit that comes in, and the bit that goes out. -/
def shiftLeft {n : Nat} (x : BitVec n) (bit : Bool) : BitVec n × Bool :=
  (BitVec.ofNat n (2 * x.toNat + bit.toNat), 2 ^ n ≤ 2 * x.toNat + bit.toNat)

/-- A shift to the right. -/
def shiftRight {n : Nat} (x : BitVec n) (bit : Bool) : BitVec n × Bool :=
  (BitVec.ofNat n (x.toNat / 2 + 2 ^ (n - 1) * bit.toNat), x.toNat % 2 = 1)

/-- The sign of a number. -/
def top {n : Nat} (x : BitVec n) : Bool := 2 ^ (n - 1) ≤ x.toNat

/-- **Shifting the low byte and then the high byte to the left** shifts the word. -/
theorem shiftLeft_word (x y : BitVec 8) (bit : Bool) :
    shiftLeft (word x y) bit = (word (shiftLeft x (shiftLeft y bit).2).1 (shiftLeft y bit).1,
      (shiftLeft x (shiftLeft y bit).2).2) := by
  have hbit : bit.toNat ≤ 1 := Bool.toNat_le bit
  by_cases hcarry : 2 ^ 8 ≤ 2 * y.toNat + bit.toNat
  · simp only [shiftLeft, decide_eq_true hcarry, Bool.toNat_true]
    refine Prod.ext (BitVec.eq_of_toNat_eq ?_) ?_
    · simp only [toNat_word, BitVec.toNat_ofNat]
      omega
    · simp only [toNat_word, decide_eq_decide]
      omega
  · simp only [shiftLeft, decide_eq_false hcarry, Bool.toNat_false]
    refine Prod.ext (BitVec.eq_of_toNat_eq ?_) ?_
    · simp only [toNat_word, BitVec.toNat_ofNat]
      omega
    · simp only [toNat_word, decide_eq_decide]
      omega

/-- **Shifting the high byte and then the low byte to the right** shifts the word. -/
theorem shiftRight_word (x y : BitVec 8) (bit : Bool) :
    shiftRight (word x y) bit = (word (shiftRight x bit).1 (shiftRight y (shiftRight x bit).2).1,
      (shiftRight y (shiftRight x bit).2).2) := by
  have hbit : bit.toNat ≤ 1 := Bool.toNat_le bit
  by_cases hodd : x.toNat % 2 = 1
  · simp only [shiftRight, decide_eq_true hodd, Bool.toNat_true]
    refine Prod.ext (BitVec.eq_of_toNat_eq ?_) ?_
    · simp only [toNat_word, BitVec.toNat_ofNat]
      omega
    · simp only [toNat_word, decide_eq_decide]
      omega
  · simp only [shiftRight, decide_eq_false hodd, Bool.toNat_false]
    refine Prod.ext (BitVec.eq_of_toNat_eq ?_) ?_
    · simp only [toNat_word, BitVec.toNat_ofNat]
      omega
    · simp only [toNat_word, decide_eq_decide]
      omega

theorem top_word (x y : BitVec 8) : top (word x y) = top x := by
  simp only [top, toNat_word, decide_eq_decide]
  omega

/-! ### Machine -/

/-- The register pairs that have halves. -/
inductive Pair
  | bc | de | hl | ix | iy
deriving DecidableEq, Repr

/-- The 8-bit registers of general use. -/
inductive Reg
  | a
  | high (p : Pair)
  | low (p : Pair)
deriving DecidableEq, Repr

/-- The 16-bit operands. -/
inductive Wide
  | pair (p : Pair)
  | sp
deriving DecidableEq, Repr

/-- The registers that only a few other instructions reach. -/
structure Alternate where
  af : BitVec 16
  bc : BitVec 16
  de : BitVec 16
  hl : BitVec 16
  i : BitVec 8

structure State where
  a : BitVec 8
  pairs : Pair → BitVec 16
  sp : BitVec 16
  carry : Bool
  memory : BitVec 16 → BitVec 8
  alternate : Alternate

namespace State

variable (s : State)

def setPair (p : Pair) (w : BitVec 16) : State := { s with pairs := Function.update s.pairs p w }

def get : Reg → BitVec 8
  | .a => s.a
  | .high p => high (s.pairs p)
  | .low p => low (s.pairs p)

def set (v : BitVec 8) : Reg → State
  | .a => { s with a := v }
  | .high p => s.setPair p (word v (low (s.pairs p)))
  | .low p => s.setPair p (word (high (s.pairs p)) v)

def getWide : Wide → BitVec 16
  | .pair p => s.pairs p
  | .sp => s.sp

def setWide (w : BitVec 16) : Wide → State
  | .pair p => s.setPair p w
  | .sp => { s with sp := w }

def store (address : BitVec 16) (v : BitVec 8) : State :=
  { s with memory := Function.update s.memory address v }

/-- The word at an address, its low byte first. -/
def loadWord (address : BitVec 16) : BitVec 16 :=
  word (s.memory (address + 1)) (s.memory address)

def storeWord (address w : BitVec 16) : State :=
  (s.store address (low w)).store (address + 1) (high w)

end State

/-- What an 8-bit load may name: a register, or memory at a pair with a signed displacement. -/
inductive Loc
  | reg (r : Reg)
  | mem (p : Pair) (d : BitVec 8)
deriving DecidableEq, Repr

namespace Loc

/-- The address of a place in memory. -/
def address (s : State) (p : Pair) (d : BitVec 8) : BitVec 16 := s.pairs p + d.signExtend 16

def read (s : State) : Loc → BitVec 8
  | reg r => s.get r
  | mem p d => s.memory (address s p d)

def write (s : State) (v : BitVec 8) : Loc → State
  | reg r => s.set v r
  | mem p d => s.store (address s p d) v

end Loc

inductive Rotation
  | rlc | rrc | rl | rr | sla | sra | sll | srl
deriving DecidableEq, Repr

/-- The result of a rotation, and the bit that it shifts out. -/
def Rotation.apply (carry : Bool) (x : BitVec 8) : Rotation → BitVec 8 × Bool
  | rlc => shiftLeft x (top x)
  | rrc => shiftRight x (x.toNat % 2 = 1)
  | rl => shiftLeft x carry
  | rr => shiftRight x carry
  | sla => shiftLeft x false
  | sra => shiftRight x (top x)
  | sll => shiftLeft x true
  | srl => shiftRight x false

/-- The instructions. -/
inductive Instr
  | ld (dst src : Loc)
  | ldImm (dst : Loc) (n : BitVec 8)
  | inc (r : Wide)
  | dec (r : Wide)
  | push (p : Pair)
  | pop (p : Pair)
  | exDeHl
  | add (p : Pair) (r : Wide)
  | adcHl (r : Wide)
  | sbcHl (r : Wide)
  | or (src : Loc)
  | rotate (op : Rotation) (r : Reg)
deriving DecidableEq, Repr

/-- What an instruction does. -/
def Instr.step (s : State) : Instr → State
  | ld dst src => dst.write s (src.read s)
  | ldImm dst n => dst.write s n
  | inc r => s.setWide (s.getWide r + 1) r
  | dec r => s.setWide (s.getWide r - 1) r
  | push p =>
    { (s.store (s.sp - 1) (high (s.pairs p))).store (s.sp - 2) (low (s.pairs p)) with
      sp := s.sp - 2 }
  | pop p => { s.setPair p (s.loadWord s.sp) with sp := s.sp + 2 }
  | exDeHl => (s.setPair .de (s.pairs .hl)).setPair .hl (s.pairs .de)
  | add p r =>
    { s.setPair p (s.pairs p + s.getWide r) with
      carry := 2 ^ 16 ≤ (s.pairs p).toNat + (s.getWide r).toNat }
  | adcHl r =>
    { s.setPair .hl (s.pairs .hl + s.getWide r + BitVec.ofNat 16 s.carry.toNat) with
      carry := 2 ^ 16 ≤ (s.pairs .hl).toNat + (s.getWide r).toNat + s.carry.toNat }
  | sbcHl r =>
    { s.setPair .hl (s.pairs .hl - s.getWide r - BitVec.ofNat 16 s.carry.toNat) with
      carry := (s.pairs .hl).toNat < (s.getWide r).toNat + s.carry.toNat }
  | or src => { s with a := s.a ||| src.read s, carry := false }
  | rotate op r =>
    { s.set (op.apply s.carry (s.get r)).1 r with carry := (op.apply s.carry (s.get r)).2 }

/-! ### Bytes of instructions -/

section Decode

variable (p : Pair)

/-- The register with a number in an opcode, where `HL` may be replaced by an index register; there is
none with number 6. -/
def regOf : Nat → Option Reg
  | 0 => some (.high .bc)
  | 1 => some (.low .bc)
  | 2 => some (.high .de)
  | 3 => some (.low .de)
  | 4 => some (.high p)
  | 5 => some (.low p)
  | 7 => some .a
  | _ => none

/-- The 16-bit operand with a number. -/
def wideOf : Nat → Option Wide
  | 0 => some (.pair .bc)
  | 1 => some (.pair .de)
  | 2 => some (.pair p)
  | 3 => some .sp
  | _ => none

def rotationOf : Nat → Option Rotation
  | 0 => some .rlc
  | 1 => some .rrc
  | 2 => some .rl
  | 3 => some .rr
  | 4 => some .sla
  | 5 => some .sra
  | 6 => some .sll
  | 7 => some .srl
  | _ => none

/-- Memory at `HL`, or at an index register with the displacement behind the opcode. -/
def memOf : List (BitVec 8) → Option (Loc × List (BitVec 8))
  | [] => if p = .hl then some (.mem .hl 0, []) else none
  | d :: rest => if p = .hl then some (.mem .hl 0, d :: rest) else some (.mem p d, rest)

/-- A load between registers, or between a register and memory: next to memory, `H` and `L` are not
replaced. -/
def decodeLd (y z : Nat) (rest : List (BitVec 8)) : Option (Instr × List (BitVec 8)) :=
  match y, z with
  | 6, 6 => none
  | 6, z => do
    let (loc, rest) ← memOf p rest
    let r ← regOf .hl z
    pure (.ld loc (.reg r), rest)
  | y, 6 => do
    let (loc, rest) ← memOf p rest
    let r ← regOf .hl y
    pure (.ld (.reg r) loc, rest)
  | y, z => do
    let dst ← regOf p y
    let src ← regOf p z
    pure (.ld (.reg dst) (.reg src), rest)

/-- The byte behind an opcode. -/
def immediate : Loc → List (BitVec 8) → Option (Instr × List (BitVec 8))
  | _, [] => none
  | loc, n :: rest => some (.ldImm loc n, rest)

/-- The accumulator and memory at `BC` or `DE`. -/
def decodeLdA (y : Nat) (rest : List (BitVec 8)) : Option (Instr × List (BitVec 8)) :=
  match y with
  | 0 => some (.ld (.mem .bc 0) (.reg .a), rest)
  | 1 => some (.ld (.reg .a) (.mem .bc 0), rest)
  | 2 => some (.ld (.mem .de 0) (.reg .a), rest)
  | 3 => some (.ld (.reg .a) (.mem .de 0), rest)
  | _ => none

/-- The opcodes behind `CB`. -/
def decodeCb : List (BitVec 8) → Option (Instr × List (BitVec 8))
  | [] => none
  | op :: rest => do
    let rotation ← rotationOf (op.toNat / 8)
    let r ← regOf .hl (op.toNat % 8)
    pure (.rotate rotation r, rest)

/-- The opcodes behind `ED`. -/
def decodeEd : List (BitVec 8) → Option (Instr × List (BitVec 8))
  | [] => none
  | op :: rest =>
    if op.toNat / 64 = 1 ∧ op.toNat % 8 = 2 then do
      let r ← wideOf .hl (op.toNat / 16 % 4)
      pure (if op.toNat / 8 % 2 = 0 then .sbcHl r else .adcHl r, rest)
    else none

/-- The opcodes in a block of 64, by their fields. -/
def decodeFields (x y z : Nat) (rest : List (BitVec 8)) : Option (Instr × List (BitVec 8)) :=
  match x, z with
  | 0, 1 => if y % 2 = 1 then (wideOf p (y / 2)).map fun r => (.add p r, rest) else none
  | 0, 2 => decodeLdA y rest
  | 0, 3 => (wideOf p (y / 2)).map fun r => (if y % 2 = 0 then .inc r else .dec r, rest)
  | 0, 6 =>
    if y = 6 then (memOf p rest).bind fun (loc, rest) => immediate loc rest
    else (regOf p y).bind fun r => immediate (.reg r) rest
  | 1, z => decodeLd p y z rest
  | 2, z =>
    if y = 6 then
      if z = 6 then (memOf p rest).map fun (loc, rest) => (.or loc, rest)
      else (regOf p z).map fun r => (.or (.reg r), rest)
    else none
  | 3, 1 => match y, wideOf p (y / 2) with
    | 0, some (.pair q) | 2, some (.pair q) | 4, some (.pair q) => some (.pop q, rest)
    | _, _ => none
  | 3, 5 => match y, wideOf p (y / 2) with
    | 0, some (.pair q) | 2, some (.pair q) | 4, some (.pair q) => some (.push q, rest)
    | _, _ => none
  | 3, 3 => if y = 5 then some (.exDeHl, rest) else none
  | _, _ => none

/-- The opcodes behind an index prefix, or without one. -/
def decodeMain : List (BitVec 8) → Option (Instr × List (BitVec 8))
  | [] => none
  | op :: rest => decodeFields p (op.toNat / 64) (op.toNat / 8 % 8) (op.toNat % 8) rest

end Decode

/-- One instruction from its bytes. -/
def decode : List (BitVec 8) → Option (Instr × List (BitVec 8))
  | [] => none
  | op :: rest =>
    if op = 0xCB then decodeCb rest
    else if op = 0xED then decodeEd rest
    else if op = 0xDD then decodeMain .ix rest
    else if op = 0xFD then decodeMain .iy rest
    else decodeMain .hl (op :: rest)

/-- All instructions of some bytes.  Every one takes a byte at least. -/
def decodeAll : Nat → List (BitVec 8) → Option (List Instr)
  | _, [] => some []
  | 0, _ :: _ => none
  | fuel + 1, bytes => do
    let (instr, rest) ← decode bytes
    let instrs ← decodeAll fuel rest
    pure (instr :: instrs)

def instrs (bytes : List (BitVec 8)) : Option (List Instr) := decodeAll bytes.length bytes

/-- Instructions one after the other. -/
def run (s : State) (instrs : List Instr) : State := instrs.foldl Instr.step s

/-- Run bytes from the first to the last. -/
def exec (bytes : List (BitVec 8)) (s : State) : Option State := (instrs bytes).map (run s)

/-! ### Registers and memory -/

section Lemmas

variable (s : State)

@[simp] theorem pairs_setPair_self (p : Pair) (w : BitVec 16) : (s.setPair p w).pairs p = w :=
  Function.update_self ..

theorem pairs_setPair_of_ne {p q : Pair} (h : q ≠ p) (w : BitVec 16) :
    (s.setPair p w).pairs q = s.pairs q := Function.update_of_ne h ..

@[simp] theorem setPair_setPair (p : Pair) (w w' : BitVec 16) :
    (s.setPair p w).setPair p w' = s.setPair p w' := by
  simp [State.setPair]

@[simp] theorem setPair_pairs (p : Pair) : s.setPair p (s.pairs p) = s := by
  simp [State.setPair]

theorem setPair_comm {p q : Pair} (h : p ≠ q) (w w' : BitVec 16) :
    (s.setPair p w).setPair q w' = (s.setPair q w').setPair p w := by
  simp [State.setPair, Function.update_comm h]

@[simp] theorem memory_setPair (p : Pair) (w : BitVec 16) : (s.setPair p w).memory = s.memory := rfl

@[simp] theorem pairs_store (address : BitVec 16) (v : BitVec 8) :
    (s.store address v).pairs = s.pairs := rfl

@[simp] theorem address_zero (p : Pair) : Loc.address s p 0 = s.pairs p := by
  rw [Loc.address]
  exact BitVec.add_zero _

theorem run_cons (instr : Instr) (instrs : List Instr) :
    run s (instr :: instrs) = run (instr.step s) instrs := rfl

@[simp] theorem run_nil : run s [] = s := rfl

/-- The displacement behind `d`, as long as it is one. -/
theorem signExtend_succ {d : BitVec 8} (h : d ≠ 127) :
    (d + 1).signExtend 16 = d.signExtend 16 + 1 := by
  have hd : d.toNat ≠ 127 := fun hd => h (BitVec.eq_of_toNat_eq hd)
  apply BitVec.eq_of_toInt_eq
  rw [BitVec.toInt_signExtend_of_le (by decide), BitVec.toInt_add, BitVec.toInt_add,
    BitVec.toInt_signExtend_of_le (by decide)]
  have hone : (1 : BitVec 8).toInt = 1 := rfl
  have hone' : (1 : BitVec 16).toInt = 1 := rfl
  have hbound : d.toInt ≠ 127 ∧ -128 ≤ d.toInt ∧ d.toInt ≤ 127 := by
    have hlt := d.isLt
    rw [BitVec.toInt_eq_toNat_cond]
    split_ifs <;> omega
  rw [hone, hone', Int.bmod_eq_of_le (by omega) (by omega), Int.bmod_eq_of_le (by omega) (by omega)]

/-! ### Words through bytes -/

/-- **A copy of a pair** by its halves. -/
theorem run_copyPair (dst src : Pair) : run s [.ld (.reg (.high dst)) (.reg (.high src)),
    .ld (.reg (.low dst)) (.reg (.low src))] = s.setPair dst (s.pairs src) := by
  simp only [run_cons, run_nil, Instr.step, Loc.write, Loc.read, State.get, State.set,
    pairs_setPair_self, setPair_setPair, high_word]
  by_cases h : src = dst
  · subst h
    simp
  · rw [pairs_setPair_of_ne s h, word_high_low]

theorem succ_ne (address : BitVec 16) : address + 1 ≠ address := by
  intro h
  have htoNat := congrArg BitVec.toNat h
  rw [BitVec.toNat_add] at htoNat
  have hone : (1 : BitVec 16).toNat = 1 := rfl
  have hlt := address.isLt
  omega

/-- A word that is stored is read again. -/
@[simp] theorem loadWord_storeWord (address w : BitVec 16) :
    (s.storeWord address w).loadWord address = w := by
  rw [State.loadWord, State.storeWord, State.store, State.store]
  dsimp only
  rw [Function.update_self, Function.update_of_ne (succ_ne address).symm, Function.update_self,
    word_high_low]

/-- `PUSH` stores the word below the stack pointer. -/
theorem step_push (p : Pair) : (Instr.push p).step s
    = { s.storeWord (s.sp - 2) (s.pairs p) with sp := s.sp - 2 } := by
  have hbelow : s.sp - 2 + 1 = s.sp - 1 := by
    rw [sub_add]
    rfl
  have hne : s.sp - 1 ≠ s.sp - 2 := hbelow ▸ succ_ne _
  rw [Instr.step, State.storeWord, hbelow]
  simp only [State.store]
  rw [Function.update_comm hne]

/-- **A copy of a pair** through the stack, which leaves the word below the stack pointer. -/
theorem run_pushPop (dst src : Pair) :
    run s [.push src, .pop dst]
      = (s.storeWord (s.sp - 2) (s.pairs src)).setPair dst (s.pairs src) := by
  have hload : State.loadWord { s.storeWord (s.sp - 2) (s.pairs src) with sp := s.sp - 2 } (s.sp - 2)
      = s.pairs src := loadWord_storeWord s _ _
  rw [run_cons, run_cons, run_nil, step_push, Instr.step]
  dsimp only
  rw [hload, sub_add_cancel]
  rfl

/-- A load of a word at an address that moves by `next`, and the pair with the address moves too. -/
theorem run_loadWordInc {dst p : Pair} (h : p ≠ dst) (d : BitVec 8) :
    run s [.ld (.reg (.low dst)) (.mem p d), .inc (.pair p), .ld (.reg (.high dst)) (.mem p d),
      .inc (.pair p)]
      = (s.setPair dst (s.loadWord (Loc.address s p d))).setPair p (s.pairs p + 2) := by
  have hnext : s.pairs p + 1 + d.signExtend 16 = s.pairs p + d.signExtend 16 + 1 :=
    add_right_comm _ _ _
  have htwo : s.pairs p + 1 + 1 = s.pairs p + 2 := by rw [add_assoc]; rfl
  simp only [run_cons, run_nil, Instr.step, Loc.write, Loc.read, State.set, State.getWide,
    State.setWide, Loc.address, pairs_setPair_self, pairs_setPair_of_ne _ h,
    pairs_setPair_of_ne _ h.symm, memory_setPair, low_word, hnext, htwo]
  rw [setPair_comm _ h, setPair_setPair, setPair_setPair]
  rfl

/-- **A load of a word** from memory at a pair, which is as before behind it. -/
theorem run_loadWord {dst p : Pair} (h : p ≠ dst) :
    run s [.ld (.reg (.low dst)) (.mem p 0), .inc (.pair p), .ld (.reg (.high dst)) (.mem p 0),
      .dec (.pair p)] = s.setPair dst (s.loadWord (s.pairs p)) := by
  simp only [run_cons, run_nil, Instr.step, Loc.write, Loc.read, State.set, State.getWide,
    State.setWide, address_zero, pairs_setPair_self, pairs_setPair_of_ne _ h,
    pairs_setPair_of_ne _ h.symm, memory_setPair, low_word, add_sub_cancel_right]
  rw [setPair_comm _ h, setPair_setPair, setPair_setPair, setPair_comm _ h.symm, setPair_pairs]
  rfl

/-- **A load of a word** with two displacements. -/
theorem run_loadWordIndexed {dst p : Pair} (h : p ≠ dst) {d : BitVec 8} (hd : d ≠ 127) :
    run s [.ld (.reg (.low dst)) (.mem p d), .ld (.reg (.high dst)) (.mem p (d + 1))]
      = s.setPair dst (s.loadWord (Loc.address s p d)) := by
  simp only [run_cons, run_nil, Instr.step, Loc.write, Loc.read, State.set, Loc.address,
    pairs_setPair_self, pairs_setPair_of_ne _ h, memory_setPair, low_word, signExtend_succ hd,
    setPair_setPair, ← add_assoc]
  rfl

/-- **A store of a word**, and the pair with the address moves. -/
theorem run_storeWordInc {src p : Pair} (h : src ≠ p) (d : BitVec 8) :
    run s [.ld (.mem p d) (.reg (.low src)), .inc (.pair p), .ld (.mem p d) (.reg (.high src)),
      .inc (.pair p)]
      = (s.storeWord (Loc.address s p d) (s.pairs src)).setPair p (s.pairs p + 2) := by
  have hnext : s.pairs p + 1 + d.signExtend 16 = s.pairs p + d.signExtend 16 + 1 :=
    add_right_comm _ _ _
  have htwo : s.pairs p + 1 + 1 = s.pairs p + 2 := by rw [add_assoc]; rfl
  simp only [run_cons, run_nil, Instr.step, Loc.write, Loc.read, State.get, State.getWide,
    State.setWide, Loc.address, pairs_store, pairs_setPair_self, pairs_setPair_of_ne _ h, hnext, htwo]
  simp only [State.setPair, State.store, State.storeWord, Function.update_idem]

/-- **A store of a word** to memory at a pair, which is as before behind it. -/
theorem run_storeWord {src p : Pair} (h : src ≠ p) :
    run s [.ld (.mem p 0) (.reg (.low src)), .inc (.pair p), .ld (.mem p 0) (.reg (.high src)),
      .dec (.pair p)] = s.storeWord (s.pairs p) (s.pairs src) := by
  simp only [run_cons, run_nil, Instr.step, Loc.write, Loc.read, State.get, State.getWide,
    State.setWide, address_zero, pairs_store, pairs_setPair_self, pairs_setPair_of_ne _ h,
    add_sub_cancel_right]
  simp only [State.setPair, State.store, State.storeWord, Function.update_idem,
    Function.update_eq_self]

/-- **A store of a word** with two displacements. -/
theorem run_storeWordIndexed (src p : Pair) {d : BitVec 8} (hd : d ≠ 127) :
    run s [.ld (.mem p d) (.reg (.low src)), .ld (.mem p (d + 1)) (.reg (.high src))]
      = s.storeWord (Loc.address s p d) (s.pairs src) := by
  simp only [run_cons, run_nil, Instr.step, Loc.write, Loc.read, State.get, Loc.address, pairs_store,
    signExtend_succ hd, ← add_assoc]
  rfl

/-! ### Bytes and a pair with their address -/

/-- The register is a half of the pair. -/
def Reg.within (p : Pair) : Reg → Bool
  | .a => false
  | .high q | .low q => q = p

theorem pairs_set_of_not_within {r : Reg} {p : Pair} (h : r.within p = false) (v : BitVec 8) :
    (s.set v r).pairs p = s.pairs p := by
  cases r with
  | a => rfl
  | high q | low q =>
    exact pairs_setPair_of_ne s (fun hpq => by simp [Reg.within, hpq] at h) _

/-- **A load of a byte**, and the pair with the address moves. -/
theorem run_loadByteInc {r : Reg} {p : Pair} (h : r.within p = false) (d : BitVec 8) :
    run s [.ld (.reg r) (.mem p d), .inc (.pair p)]
      = (s.set (s.memory (Loc.address s p d)) r).setPair p (s.pairs p + 1) := by
  simp only [run_cons, run_nil, Instr.step, Loc.write, Loc.read, State.getWide, State.setWide,
    pairs_set_of_not_within s h]

theorem run_loadByteDec {r : Reg} {p : Pair} (h : r.within p = false) (d : BitVec 8) :
    run s [.ld (.reg r) (.mem p d), .dec (.pair p)]
      = (s.set (s.memory (Loc.address s p d)) r).setPair p (s.pairs p - 1) := by
  simp only [run_cons, run_nil, Instr.step, Loc.write, Loc.read, State.getWide, State.setWide,
    pairs_set_of_not_within s h]

/-- **A store of a byte tells its displacement**, in a state whose memory holds other bytes. -/
theorem displacement_of_store {p : Pair} {d d' n : BitVec 8}
    (h : ∀ s : State, (s.store (Loc.address s p d) n).memory = (s.store (Loc.address s p d') n).memory) :
    d = d' := by
  have hother : n + 1 ≠ n := by
    intro hn
    have htoNat := congrArg BitVec.toNat hn
    rw [BitVec.toNat_add] at htoNat
    have hone : (1 : BitVec 8).toNat = 1 := rfl
    omega
  have haddress : d.signExtend 16 = d'.signExtend 16 := by
    by_contra hne
    have hmemory := congrFun (h ⟨0, fun _ => 0, 0, false, fun _ => n + 1, ⟨0, 0, 0, 0, 0⟩⟩)
      (d.signExtend 16)
    simp only [State.store, Loc.address, zero_add] at hmemory
    rw [Function.update_self, Function.update_of_ne hne] at hmemory
    exact hother hmemory.symm
  apply BitVec.eq_of_toInt_eq
  have htoInt := congrArg BitVec.toInt haddress
  rwa [BitVec.toInt_signExtend_of_le (by decide), BitVec.toInt_signExtend_of_le (by decide)] at htoInt

/-! ### Arithmetic in `DE` -/

/-- The arithmetic that `HL` has instructions for. -/
inductive Arith
  | add | adc | sbc
deriving DecidableEq, Repr

namespace Arith

/-- The result, and the carry or borrow. -/
def apply (carry : Bool) (x y : BitVec 16) : Arith → BitVec 16 × Bool
  | add => (x + y, 2 ^ 16 ≤ x.toNat + y.toNat)
  | adc => (x + y + BitVec.ofNat 16 carry.toNat, 2 ^ 16 ≤ x.toNat + y.toNat + carry.toNat)
  | sbc => (x - y - BitVec.ofNat 16 carry.toNat, x.toNat < y.toNat + carry.toNat)

def instr (r : Wide) : Arith → Instr
  | add => .add .hl r
  | adc => .adcHl r
  | sbc => .sbcHl r

end Arith

/-- A pair with a new value, and the carry. -/
def State.setResult (p : Pair) (result : BitVec 16 × Bool) : State :=
  { s.setPair p result.1 with carry := result.2 }

theorem step_instr (op : Arith) (r : Wide) : (op.instr r).step s
    = s.setResult .hl (op.apply s.carry (s.pairs .hl) (s.getWide r)) := by
  cases op <;> rfl

/-- The operand where `EX DE,HL` puts it. -/
def Wide.exchange : Wide → Wide
  | .pair .de => .pair .hl
  | .pair .hl => .pair .de
  | r => r

/-- **Arithmetic in `DE`** between two exchanges with `HL`. -/
theorem run_exchange (op : Arith) (r : Wide) :
    run s [.exDeHl, op.instr r.exchange, .exDeHl]
      = s.setResult .de (op.apply s.carry (s.pairs .de) (s.getWide r)) := by
  set t := Instr.exDeHl.step s with ht
  have hhl : t.pairs .hl = s.pairs .de := pairs_setPair_self _ _ _
  have hr : t.getWide r.exchange = s.getWide r := by
    rcases r with p | _
    · cases p <;> rfl
    · rfl
  have hback : ∀ result : BitVec 16 × Bool,
      Instr.exDeHl.step (t.setResult .hl result) = s.setResult .de result := by
    intro result
    simp only [Instr.step, State.setResult, State.setPair, ht]
    congr 1
    funext p
    cases p <;> rfl
  rw [run_cons, ← ht, run_cons, run_cons, run_nil, step_instr, hhl, hr]
  exact hback _

/-- `OR A` clears the carry only. -/
theorem step_orA : (Instr.or (.reg .a)).step s = { s with carry := false } := by
  simp [Instr.step, Loc.read, State.get]

/-- A subtraction without a borrow from before. -/
theorem apply_sbc_false (x y : BitVec 16) :
    Arith.sbc.apply false x y = (x - y, decide (x.toNat < y.toNat)) := by
  simp [Arith.apply]

/-! ### Shifts of pairs -/

/-- **A shift to the left** through the halves of a pair. -/
theorem run_shiftLeft {op : Rotation} {p : Pair} {bit : Bool}
    (h : op.apply s.carry (low (s.pairs p)) = shiftLeft (low (s.pairs p)) bit) :
    run s [.rotate op (.low p), .rotate .rl (.high p)]
      = s.setResult p (shiftLeft (s.pairs p) bit) := by
  have hword := shiftLeft_word (high (s.pairs p)) (low (s.pairs p)) bit
  rw [word_high_low] at hword
  have hsecond : ∀ (carry : Bool) (x : BitVec 8), Rotation.apply carry x .rl = shiftLeft x carry :=
    fun _ _ => rfl
  rw [hword]
  simp only [run_cons, run_nil, Instr.step, State.get, State.set, h, hsecond]
  simp [State.setResult, State.setPair]

/-- **A shift to the right** through the halves of a pair. -/
theorem run_shiftRight {op : Rotation} {p : Pair} {bit : Bool}
    (h : op.apply s.carry (high (s.pairs p)) = shiftRight (high (s.pairs p)) bit) :
    run s [.rotate op (.high p), .rotate .rr (.low p)]
      = s.setResult p (shiftRight (s.pairs p) bit) := by
  have hword := shiftRight_word (high (s.pairs p)) (low (s.pairs p)) bit
  rw [word_high_low] at hword
  have hsecond : ∀ (carry : Bool) (x : BitVec 8), Rotation.apply carry x .rr = shiftRight x carry :=
    fun _ _ => rfl
  rw [hword]
  simp only [run_cons, run_nil, Instr.step, State.get, State.set, h, hsecond]
  simp [State.setResult, State.setPair]

/-- `ADD HL,HL` is a shift to the left. -/
theorem apply_add_self (carry : Bool) (x : BitVec 16) :
    Arith.add.apply carry x x = shiftLeft x false := by
  rw [Arith.apply, shiftLeft, Bool.toNat_false, add_zero, two_mul]
  refine Prod.ext (BitVec.eq_of_toNat_eq ?_) rfl
  rw [BitVec.toNat_add, BitVec.toNat_ofNat]

end Lemmas

end Z80Cpu
