import Mathlib.Data.BitVec
import Mathlib.Logic.Function.Iterate

/-!
# Cyclic redundancy checks

The reflected form of a CRC with a register of `w` bits.  Feeding a byte xors it into the low end of
the register and then makes eight division steps.  Every operation is linear in exclusive or, and the
results here are what follows from it:

* `feed_append`: a checksum may be computed in parts,
* `feed_xor`: two inputs of one length get the same checksum exactly when their difference is a
  multiple of the generator polynomial (`feed_eq_iff`),
* `feedByte_eq_table` and `steps_eq_table`: the table driven forms, a byte or a whole block of bytes
  at a time.

The form with the highest bit first is `feedForward`; `setWidth_wideSteps` takes it out of a register
with more bits than the polynomial.
-/

namespace Crc

variable {w : ℕ} (poly : BitVec w)

/-- One division step: shift out a bit, and subtract the polynomial when it was set. -/
def step (r : BitVec w) : BitVec w := if r.getLsbD 0 then poly ^^^ (r >>> 1) else r >>> 1

/-- `n` division steps. -/
def steps (n : ℕ) (r : BitVec w) : BitVec w := (step poly)^[n] r

def feedByte (r : BitVec w) (byte : BitVec 8) : BitVec w := steps poly 8 (r ^^^ byte.setWidth w)

/-- The register after a list of bytes. -/
def feed (r : BitVec w) (bytes : List (BitVec 8)) : BitVec w := bytes.foldl (feedByte poly) r

/-- The entry of the `t`-th table: a byte followed by `t` zero bytes. -/
def table (t : ℕ) (byte : BitVec 8) : BitVec w := steps poly (8 * (t + 1)) (byte.setWidth w)

/-- Bytewise exclusive or. -/
def xorBytes (xs ys : List (BitVec 8)) : List (BitVec 8) := List.zipWith (· ^^^ ·) xs ys

/-! ### Linearity -/

theorem step_xor (r s : BitVec w) : step poly (r ^^^ s) = step poly r ^^^ step poly s := by
  unfold step
  rw [BitVec.getLsbD_xor, BitVec.ushiftRight_xor_distrib]
  cases r.getLsbD 0 <;> cases s.getLsbD 0
  · rfl
  · show poly ^^^ (r >>> 1 ^^^ s >>> 1) = r >>> 1 ^^^ (poly ^^^ s >>> 1)
    ac_rfl
  · show poly ^^^ (r >>> 1 ^^^ s >>> 1) = poly ^^^ r >>> 1 ^^^ s >>> 1
    ac_rfl
  · -- the polynomial is subtracted on both sides, and cancels
    show r >>> 1 ^^^ s >>> 1 = (poly ^^^ r >>> 1) ^^^ (poly ^^^ s >>> 1)
    calc r >>> 1 ^^^ s >>> 1
        = (poly ^^^ poly) ^^^ (r >>> 1 ^^^ s >>> 1) := by rw [BitVec.xor_self, BitVec.zero_xor]
      _ = (poly ^^^ r >>> 1) ^^^ (poly ^^^ s >>> 1) := by ac_rfl

@[simp] theorem steps_zero (r : BitVec w) : steps poly 0 r = r := rfl

theorem steps_add (m n : ℕ) (r : BitVec w) :
    steps poly (m + n) r = steps poly m (steps poly n r) :=
  Function.iterate_add_apply ..

theorem steps_succ (n : ℕ) (r : BitVec w) : steps poly (n + 1) r = step poly (steps poly n r) :=
  Function.iterate_succ_apply' ..

theorem steps_xor (n : ℕ) (r s : BitVec w) :
    steps poly n (r ^^^ s) = steps poly n r ^^^ steps poly n s := by
  induction n with
  | zero => rfl
  | succ n ih => rw [steps_succ, steps_succ, steps_succ, ih, step_xor]

theorem steps_zero_register (n : ℕ) : steps poly n 0#w = 0#w := by
  have h := steps_xor poly n 0#w 0#w
  rw [BitVec.xor_self] at h
  rw [h, BitVec.xor_self]

theorem feedByte_xor (r s : BitVec w) (a b : BitVec 8) :
    feedByte poly (r ^^^ s) (a ^^^ b) = feedByte poly r a ^^^ feedByte poly s b := by
  unfold feedByte
  rw [← steps_xor, BitVec.setWidth_xor]
  congr 1
  ac_rfl

@[simp] theorem feed_nil (r : BitVec w) : feed poly r [] = r := rfl

@[simp] theorem feed_cons (r : BitVec w) (b : BitVec 8) (bytes : List (BitVec 8)) :
    feed poly r (b :: bytes) = feed poly (feedByte poly r b) bytes := rfl

theorem feed_append (r : BitVec w) (xs ys : List (BitVec 8)) :
    feed poly r (xs ++ ys) = feed poly (feed poly r xs) ys := List.foldl_append

theorem feed_xor (r s : BitVec w) {xs ys : List (BitVec 8)} (h : xs.length = ys.length) :
    feed poly (r ^^^ s) (xorBytes xs ys) = feed poly r xs ^^^ feed poly s ys := by
  induction xs generalizing r s ys with
  | nil =>
    obtain rfl := List.length_eq_zero_iff.mp h.symm
    rfl
  | cons x xs ih =>
    cases ys with
    | nil => cases h
    | cons y ys =>
      show feed poly (feedByte poly (r ^^^ s) (x ^^^ y)) (xorBytes xs ys) = _
      rw [feedByte_xor, ih _ _ (Nat.succ.inj h), feed_cons, feed_cons]

/-- Behind one register, two inputs get the same checksum exactly when their difference leaves no
remainder. -/
theorem feed_eq_iff (r : BitVec w) {xs ys : List (BitVec 8)} (h : xs.length = ys.length) :
    feed poly r xs = feed poly r ys ↔ feed poly 0#w (xorBytes xs ys) = 0#w := by
  have hdiff := feed_xor poly r r h
  rw [BitVec.xor_self] at hdiff
  rw [hdiff]
  exact BitVec.xor_eq_zero_iff.symm

/-! ### Zeros -/

/-- Zero bytes only make steps. -/
theorem feed_replicate_zero (r : BitVec w) (n : ℕ) :
    feed poly r (List.replicate n 0#8) = steps poly (8 * n) r := by
  induction n generalizing r with
  | zero => rfl
  | succ n ih =>
    have hbyte : feedByte poly r 0#8 = steps poly 8 r := by
      rw [feedByte, BitVec.setWidth_zero, BitVec.xor_zero]
    rw [List.replicate_succ, feed_cons, ih, hbyte, ← steps_add, Nat.mul_add_one]

/-- With the highest bit in the polynomial a step loses nothing. -/
theorem step_eq_zero_iff (hpoly : poly.getLsbD (w - 1) = true) (r : BitVec w) :
    step poly r = 0#w ↔ r = 0#w := by
  have hw : 0 < w := by
    by_contra h
    rw [BitVec.getLsbD_of_ge _ _ (by omega)] at hpoly
    cases hpoly
  constructor
  · intro h
    unfold step at h
    by_cases hbit : r.getLsbD 0 = true
    · -- the highest bit of the polynomial is left
      rw [if_pos hbit] at h
      have htop := congrArg (fun r : BitVec w => r.getLsbD (w - 1)) h
      rw [BitVec.getLsbD_xor, hpoly, BitVec.getLsbD_ushiftRight, BitVec.getLsbD_of_ge r _ (by omega),
        BitVec.getLsbD_zero] at htop
      cases htop
    · rw [if_neg hbit] at h
      apply BitVec.eq_of_getLsbD_eq
      intro i _
      rw [BitVec.getLsbD_zero]
      cases i with
      | zero => exact Bool.eq_false_iff.mpr hbit
      | succ i =>
        have hi := congrArg (fun r : BitVec w => r.getLsbD i) h
        rw [BitVec.getLsbD_ushiftRight, BitVec.getLsbD_zero, Nat.add_comm] at hi
        exact hi
  · rintro rfl
    exact steps_zero_register poly 1

theorem steps_eq_zero_iff (hpoly : poly.getLsbD (w - 1) = true) (n : ℕ) (r : BitVec w) :
    steps poly n r = 0#w ↔ r = 0#w := by
  induction n with
  | zero => rfl
  | succ n ih => rw [steps_succ, step_eq_zero_iff poly hpoly, ih]

/-! ### Tables -/

theorem getLsbD_low (r : BitVec w) (i : ℕ) :
    ((r.setWidth 8).setWidth w).getLsbD i = (decide (i < 8) && r.getLsbD i) := by
  by_cases hw : i < w
  · simp [hw]
  · simp [hw, BitVec.getLsbD_of_ge r i (by omega)]

/-- A register without its low byte. -/
def high (r : BitVec w) : BitVec w := (r >>> 8) <<< 8

theorem getLsbD_high (r : BitVec w) (i : ℕ) :
    (high r).getLsbD i = (decide (8 ≤ i) && r.getLsbD i) := by
  unfold high
  by_cases hw : i < w
  · by_cases hi : i < 8
    · simp [hi, Nat.not_le.mpr hi]
    · have : 8 + (i - 8) = i := by omega
      simp [hw, hi, Nat.not_lt.mp hi, this]
  · simp [hw, BitVec.getLsbD_of_ge r i (by omega)]

theorem low_xor_high (r : BitVec w) : r = (r.setWidth 8).setWidth w ^^^ high r := by
  apply BitVec.eq_of_getLsbD_eq
  intro i _
  rw [BitVec.getLsbD_xor, getLsbD_low, getLsbD_high]
  by_cases hi : i < 8
  · simp [hi, Nat.not_le.mpr hi]
  · simp [hi, Nat.not_lt.mp hi]

/-- As long as only zeros leave the register, the steps are shifts. -/
theorem steps_of_low_zero (r : BitVec w) {k : ℕ} (hr : ∀ i, i < k → r.getLsbD i = false) :
    steps poly k r = r >>> k := by
  induction k with
  | zero => rw [steps_zero, BitVec.ushiftRight_zero]
  | succ k ih =>
    rw [steps_succ, ih fun i hi => hr i (by omega)]
    have hbit : (r >>> k).getLsbD 0 = false := by
      rw [BitVec.getLsbD_ushiftRight]
      exact hr _ (by omega)
    rw [step, hbit, BitVec.shiftRight_add]
    rfl

theorem steps_high (r : BitVec w) : steps poly 8 (high r) = r >>> 8 := by
  rw [steps_of_low_zero poly (high r) fun i hi => by
    rw [getLsbD_high, decide_eq_false (by omega), Bool.false_and]]
  apply BitVec.eq_of_getLsbD_eq
  intro i _
  rw [BitVec.getLsbD_ushiftRight, getLsbD_high, BitVec.getLsbD_ushiftRight,
    decide_eq_true (by omega), Bool.true_and]

/-- The low byte of the register goes through a table, the rest moves down. -/
theorem steps_eq_table (n : ℕ) (r : BitVec w) :
    steps poly (8 * (n + 1)) r = table poly n (r.setWidth 8) ^^^ steps poly (8 * n) (r >>> 8) := by
  conv => lhs; rw [low_xor_high r, steps_xor]
  rw [table, Nat.mul_add_one, steps_add poly (8 * n) 8 (high r), steps_high]

theorem table_xor (t : ℕ) (a b : BitVec 8) :
    table poly t (a ^^^ b) = table poly t a ^^^ table poly t b := by
  unfold table
  rw [BitVec.setWidth_xor, steps_xor]

/-- A byte at a time from the first table. -/
theorem feedByte_eq_table (r : BitVec w) (b : BitVec 8) (hw : 8 ≤ w) :
    feedByte poly r b = table poly 0 (r.setWidth 8 ^^^ b) ^^^ r >>> 8 := by
  have hb : (b.setWidth w) >>> 8 = 0#w := by
    apply BitVec.eq_of_getLsbD_eq
    intro i _
    simp
  have hlow : (b.setWidth w).setWidth 8 = b := by
    rw [BitVec.setWidth_setWidth_of_le _ hw, BitVec.setWidth_eq]
  show steps poly (8 * (0 + 1)) (r ^^^ b.setWidth w) = _
  rw [steps_eq_table, BitVec.setWidth_xor, hlow, BitVec.ushiftRight_xor_distrib, hb,
    BitVec.xor_zero]
  rfl

/-- The register and the bytes of a block can be fed apart. -/
theorem feed_eq_xor (r : BitVec w) (bytes : List (BitVec 8)) :
    feed poly r bytes = steps poly (8 * bytes.length) r ^^^ feed poly 0#w bytes := by
  induction bytes generalizing r with
  | nil =>
    rw [feed_nil, feed_nil, BitVec.xor_zero]
    rfl
  | cons b bytes ih =>
    have hbyte : feedByte poly r b = steps poly 8 r ^^^ feedByte poly 0#w b := by
      unfold feedByte
      rw [BitVec.zero_xor, steps_xor]
    rw [feed_cons, feed_cons, ih, ih (feedByte poly 0#w b), hbyte, steps_xor, ← steps_add,
      List.length_cons, Nat.mul_add_one]
    ac_rfl

/-- In an empty register a byte acts through the table for the number of bytes behind it. -/
theorem feed_zero_cons (b : BitVec 8) (bytes : List (BitVec 8)) :
    feed poly 0#w (b :: bytes) = table poly bytes.length b ^^^ feed poly 0#w bytes := by
  rw [feed_cons, feed_eq_xor, feedByte, BitVec.zero_xor, ← steps_add, table, Nat.mul_add_one]

/-! ### The highest bit first -/

/-- One division step at the high end. -/
def stepForward (r : BitVec w) : BitVec w := if r.msb then r <<< 1 ^^^ poly else r <<< 1

/-- Feeding a byte into the high end. -/
def feedByteForward (r : BitVec w) (byte : BitVec 8) : BitVec w :=
  (stepForward poly)^[8] (r ^^^ byte.setWidth w <<< (w - 8))

/-- The register after a list of bytes. -/
def feedForward (r : BitVec w) (bytes : List (BitVec 8)) : BitVec w :=
  bytes.foldl (feedByteForward poly) r

/-- A step in a wider register, where the bits that leave are kept. -/
def wideStep {v : ℕ} (r : BitVec v) : BitVec v :=
  if r.getLsbD (w - 1) then r <<< 1 ^^^ poly.setWidth v else r <<< 1

theorem setWidth_wideStep {v : ℕ} (hw : w ≤ v) (r : BitVec v) :
    (wideStep poly r).setWidth w = stepForward poly (r.setWidth w) := by
  -- without bits there is nothing to compare
  rcases Nat.eq_zero_or_pos w with rfl | hpos
  · exact BitVec.eq_of_zero_length rfl
  have hbit : (r.setWidth w).msb = r.getLsbD (w - 1) := by
    rw [BitVec.msb_eq_getLsbD_last, BitVec.getLsbD_setWidth, decide_eq_true (by omega),
      Bool.true_and]
  have hshift : (r <<< 1).setWidth w = r.setWidth w <<< 1 := BitVec.setWidth_shiftLeft_of_le hw
  unfold wideStep stepForward
  rw [hbit]
  cases r.getLsbD (w - 1)
  · exact hshift
  · show (r <<< 1 ^^^ poly.setWidth v).setWidth w = r.setWidth w <<< 1 ^^^ poly
    rw [BitVec.setWidth_xor, hshift, BitVec.setWidth_setWidth_of_le _ hw, BitVec.setWidth_eq]

theorem setWidth_wideSteps {v : ℕ} (hw : w ≤ v) (n : ℕ) (r : BitVec v) :
    ((wideStep poly)^[n] r).setWidth w = (stepForward poly)^[n] (r.setWidth w) := by
  induction n generalizing r with
  | zero => rfl
  | succ n ih => rw [Function.iterate_succ_apply, ih, setWidth_wideStep poly hw]; rfl

end Crc
