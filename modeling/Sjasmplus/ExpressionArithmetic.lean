import Mathlib.Tactic.Linarith
import Sjasmplus.ExpressionTree

/-!
# The arithmetic of the expression parser

The operations that the parser performs, selected by operator codes and written with bit vectors,
have the values of `UnaryOp.value` and `BinaryOp.value`, written with integers.
-/

namespace Sjasmplus

theorem truth_decide (p : Prop) [Decidable p] : truth (decide p) = if p then -1 else 0 :=
  if_congr decide_eq_true_iff rfl rfl

/-! ### Unary operators -/

/-- The low byte is a remainder. -/
theorem and_255 (x : Aint) : x &&& (255 : Aint) = BitVec.ofNat 32 (x.toNat % 256) := by
  apply BitVec.eq_of_toNat_eq
  have h : x.toNat &&& 255 = x.toNat % 256 := Nat.and_two_pow_sub_one_eq_mod x.toNat 8
  rw [BitVec.toNat_and, BitVec.toNat_ofNat]
  show x.toNat &&& 255 = _
  omega

theorem and_65535 (x : Aint) : x &&& (0xFFFF : Aint) = BitVec.ofNat 32 (x.toNat % 65536) := by
  apply BitVec.eq_of_toNat_eq
  have h : x.toNat &&& 65535 = x.toNat % 65536 := Nat.and_two_pow_sub_one_eq_mod x.toNat 16
  rw [BitVec.toNat_and, BitVec.toNat_ofNat]
  show x.toNat &&& 65535 = _
  omega

/-- The sign bits that the shift brings in are masked out. -/
theorem sshiftRight_8_and_255 (x : Aint) :
    x.sshiftRight 8 &&& (255 : Aint) = BitVec.ofNat 32 (x.toNat / 256 % 256) := by
  have hshift : x.sshiftRight 8 &&& (255 : Aint) = (x >>> 8) &&& (255 : Aint) := by
    ext i hi
    rw [BitVec.getElem_and, BitVec.getElem_and, BitVec.getElem_sshiftRight,
      BitVec.getElem_ushiftRight]
    split_ifs with h
    · rfl
    · have hmask : (255 : Aint)[i] = false := by
        show (255#32)[i] = false
        rw [← BitVec.getLsbD_eq_getElem, BitVec.getLsbD_ofNat, decide_eq_true hi, Bool.true_and]
        exact Nat.testBit_lt_two_pow (Nat.lt_of_lt_of_le (by decide : 255 < 2 ^ 8)
          (Nat.pow_le_pow_right (by decide) (by omega)))
      rw [hmask, Bool.and_false, Bool.and_false]
  rw [hshift, and_255, BitVec.toNat_ushiftRight, Nat.shiftRight_eq_div_pow]

/-- The absolute value wraps at the least number, as its negation does. -/
theorem absolute_eq (x : Aint) : (absolute x).1 = BitVec.ofInt 32 |x.toInt| := by
  show (if x.slt 0 then -x else x) = _
  by_cases h : x.toInt < 0
  · have hslt : x.slt 0 = true := by rw [BitVec.slt, decide_eq_true_eq]; exact h
    rw [if_pos hslt, abs_of_neg h, BitVec.ofInt_neg, BitVec.ofInt_toInt]
  · have hslt : ¬ x.slt 0 = true := by rw [BitVec.slt, decide_eq_true_eq]; exact h
    rw [if_neg hslt, abs_of_nonneg (not_lt.mp h), BitVec.ofInt_toInt]

/-- The `switch` of `ParseExpUnair` computes the unary operators. -/
theorem applyUnary_code (u : UnaryOp) (x : Aint) : (applyUnary u.code x).1 = u.value x := by
  cases u
  case bang => exact truth_decide (x = 0)
  case not => exact truth_decide (x = 0)
  case tilde =>
    show ~~~x = BitVec.ofInt 32 (-x.toInt - 1)
    rw [sub_eq_add_neg, BitVec.ofInt_add, BitVec.ofInt_neg, BitVec.ofInt_toInt,
      BitVec.neg_eq_not_add]
    exact (add_neg_cancel_right (~~~x) 1).symm
  case plus => rfl
  case minus =>
    show ~~~x + 1 = BitVec.ofInt 32 (-x.toInt)
    rw [BitVec.ofInt_neg, BitVec.ofInt_toInt, BitVec.neg_eq_not_add]
    rfl
  case low => exact and_255 x
  case high => exact sshiftRight_8_and_255 x
  case abs => exact absolute_eq x
  case u16 => exact and_65535 x

/-! ### Binary operators -/

/-- A shift to the left is a multiplication. -/
theorem shiftLeft_eq (x y : Aint) :
    x <<< y.toNat = BitVec.ofInt 32 (x.toInt * 2 ^ y.toNat) := by
  have htwo : BitVec.twoPow 32 y.toNat = BitVec.ofInt 32 (2 ^ y.toNat) := by
    apply BitVec.eq_of_toNat_eq
    rw [BitVec.toNat_twoPow, BitVec.toNat_ofInt]
    norm_cast
  rw [BitVec.shiftLeft_eq_mul_twoPow, BitVec.ofInt_mul, BitVec.ofInt_toInt, htwo]

/-- A shift to the right is a division that rounds down. -/
theorem sshiftRight_eq (x y : Aint) :
    x.sshiftRight y.toNat = BitVec.ofInt 32 (x.toInt / 2 ^ y.toNat) := by
  rw [← BitVec.ofInt_toInt (x := x.sshiftRight y.toNat), BitVec.toInt_sshiftRight,
    Int.shiftRight_eq_div_pow]
  norm_cast

theorem ushiftRight_eq (x y : Aint) :
    x >>> y.toNat = BitVec.ofNat 32 (x.toNat / 2 ^ y.toNat) := by
  apply BitVec.eq_of_toNat_eq
  rw [BitVec.toNat_ushiftRight, Nat.shiftRight_eq_div_pow, BitVec.toNat_ofNat,
    Nat.mod_eq_of_lt (Nat.lt_of_le_of_lt (Nat.div_le_self _ _) x.isLt)]

/-- A division rounds towards zero. -/
theorem sdiv_eq (x y : Aint) : x.sdiv y = BitVec.ofInt 32 (x.toInt.tdiv y.toInt) := by
  apply BitVec.eq_of_toInt_eq
  rw [BitVec.toInt_sdiv, BitVec.toInt_ofInt]

theorem srem_eq (x y : Aint) : x.srem y = BitVec.ofInt 32 (x.toInt.tmod y.toInt) := by
  rw [← BitVec.toInt_srem, BitVec.ofInt_toInt]

theorem sub_eq (x y : Aint) : x + -y = BitVec.ofInt 32 (x.toInt - y.toInt) := by
  rw [sub_eq_add_neg, BitVec.ofInt_add, BitVec.ofInt_neg, BitVec.ofInt_toInt, BitVec.ofInt_toInt]

theorem min_eq (x y : Aint) :
    (if x.slt y then x else y) = BitVec.ofInt 32 (min x.toInt y.toInt) := by
  by_cases h : x.toInt < y.toInt
  · rw [min_eq_left h.le, BitVec.ofInt_toInt, if_pos (by simpa [BitVec.slt] using h)]
  · rw [min_eq_right (not_lt.mp h), BitVec.ofInt_toInt, if_neg (by simpa [BitVec.slt] using h)]

theorem max_eq (x y : Aint) :
    (if y.slt x then x else y) = BitVec.ofInt 32 (max x.toInt y.toInt) := by
  by_cases h : y.toInt < x.toInt
  · rw [max_eq_left h.le, BitVec.ofInt_toInt, if_pos (by simpa [BitVec.slt] using h)]
  · rw [max_eq_right (not_lt.mp h), BitVec.ofInt_toInt, if_neg (by simpa [BitVec.slt] using h)]

/-- The `switch` statements of the binary levels compute the binary operators. -/
theorem levelApply_code_fst (b : BinaryOp) (x y : Aint) :
    (levelApply b.rank b.code x y).1 = b.value x y := by
  -- one case for each operator; the comparisons give -1 for true
  cases b
  case logOr =>
    show truth (decide (x ≠ 0) || decide (y ≠ 0)) = _
    rw [← Bool.decide_or]
    exact truth_decide _
  case logAnd =>
    show truth (decide (x ≠ 0) && decide (y ≠ 0)) = _
    rw [← Bool.decide_and]
    exact truth_decide _
  case bitOr => rfl
  case bitOrWord => rfl
  case bitXor => rfl
  case bitXorWord => rfl
  case bitAnd => rfl
  case bitAndWord => rfl
  case eq => exact truth_decide (x = y)
  case eqEq => exact truth_decide (x = y)
  case ne => exact truth_decide (x ≠ y)
  case lt => exact truth_decide (x.toInt < y.toInt)
  case gt => exact truth_decide (y.toInt < x.toInt)
  case le => exact truth_decide (x.toInt ≤ y.toInt)
  case ge => exact truth_decide (y.toInt ≤ x.toInt)
  case min => exact min_eq x y
  case max => exact max_eq x y
  case shl => exact shiftLeft_eq x y
  case shlWord => exact shiftLeft_eq x y
  case shr => exact sshiftRight_eq x y
  case shrWord => exact sshiftRight_eq x y
  case ushr => exact ushiftRight_eq x y
  -- sums and products agree as numbers because both wrap at `2 ^ 32`
  case add =>
    show x + y = BitVec.ofInt 32 (x.toInt + y.toInt)
    rw [BitVec.ofInt_add, BitVec.ofInt_toInt, BitVec.ofInt_toInt]
  case sub => exact sub_eq x y
  case mul =>
    show x * y = BitVec.ofInt 32 (x.toInt * y.toInt)
    rw [BitVec.ofInt_mul, BitVec.ofInt_toInt, BitVec.ofInt_toInt]
  case div => exact if_congr Iff.rfl rfl (sdiv_eq x y)
  case mod => exact if_congr Iff.rfl rfl (srem_eq x y)
  case modWord => exact if_congr Iff.rfl rfl (srem_eq x y)

/-- Where a quotient fits, the only report is the one of a division by zero. -/
theorem divisionReports_of_defined {x y : Aint} (h : ¬ (x = BitVec.intMin 32 ∧ y = -1)) :
    divisionReports x y = if y = 0 then [divisionByZero] else [] := by
  rw [divisionReports, if_neg h]
  rfl

theorem shiftReports_of_defined {y : Aint} (h : y.toNat < 32) : shiftReports y = [] := if_pos h

/-- Only the opposite of a number reports something. -/
theorem applyUnary_code_snd (u : UnaryOp) (x : Aint) :
    (applyUnary u.code x).2 = if u.isOpposite then oppositeReports x else [] := by
  cases u <;> rfl

/-- Where an operation has a value in wrap-around arithmetic, only a division by zero and the opposite of
the number that is subtracted report something. -/
theorem levelApply_code_snd (b : BinaryOp) {x y : Aint}
    (hshift : b.isShift = true → y.toNat < 32)
    (hdiv : b.isDivision = true → ¬ (x = BitVec.intMin 32 ∧ y = -1)) :
    (levelApply b.rank b.code x y).2 = if b.isDivision ∧ y = 0 then [divisionByZero]
      else if b = .sub then oppositeReports y else [] := by
  cases b
  case shl => exact shiftReports_of_defined (hshift rfl)
  case shlWord => exact shiftReports_of_defined (hshift rfl)
  case shr => exact shiftReports_of_defined (hshift rfl)
  case shrWord => exact shiftReports_of_defined (hshift rfl)
  case ushr => exact shiftReports_of_defined (hshift rfl)
  case div => exact (divisionReports_of_defined (hdiv rfl)).trans (by simp [BinaryOp.isDivision])
  case mod => exact (divisionReports_of_defined (hdiv rfl)).trans (by simp [BinaryOp.isDivision])
  case modWord =>
    exact (divisionReports_of_defined (hdiv rfl)).trans (by simp [BinaryOp.isDivision])
  all_goals rfl

end Sjasmplus
