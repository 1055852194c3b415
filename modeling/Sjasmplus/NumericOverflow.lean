import Mathlib.Data.List.Basic
import Sjasmplus.NumericLiteral

/-!
# The overflow of numeric literals (`GetNumericValue_…` of `reader.cpp`)

The two digit loops notice an overflow on the fly.  In a base that is a power of two, the step looks for
bits that the shift will lose, and that finds every overflow.  In base 10 it compares the new value with
the old one, and a value that has wrapped around may still be the greater one.

* `getConstant_overflow_iff` — a literal is read with its value modulo `2^32` and with the overflow error
  exactly when it is due, unless it looks like a prefix, or its decimal value never falls at a wrap.
-/

namespace Sjasmplus

/-! ### The digits as a number -/

/-- The number that digits denote. -/
def digitsNumber (base : Nat) (digits : List Char) : Nat :=
  digits.foldl (fun v c => v * base + getval c) 0

theorem DocumentedLiteral.number_eq (lit : DocumentedLiteral) :
    lit.number = digitsNumber lit.form.base lit.digits :=
  rfl

/-- More digits do not make the number smaller. -/
theorem le_foldl_digits {base : Nat} (hbase : 0 < base) (v : Nat) (digits : List Char) :
    v ≤ digits.foldl (fun v c => v * base + getval c) v := by
  induction digits generalizing v with
  | nil => exact le_refl v
  | cons c digits ih =>
    have hstep : v ≤ v * base + getval c :=
      (Nat.le_mul_of_pos_right v hbase).trans (Nat.le_add_right _ _)
    exact hstep.trans (ih _)

/-! ### Bases that are powers of two -/

/-- A bit of the mask of the bits that a shift loses. -/
theorem getLsbD_mask (shiftBase : Nat) {i : Nat} (hi : i < 32) :
    (BitVec.allOnes 32 <<< (32 - shiftBase)).getLsbD i = decide (32 - shiftBase ≤ i) := by
  rw [BitVec.getLsbD_shiftLeft, BitVec.getLsbD_allOnes]
  by_cases h : 32 - shiftBase ≤ i
  · simp [hi, h, show i - (32 - shiftBase) < 32 by omega]
  · simp [h, Nat.not_le.mp h]

/-- The shift loses no bits of small values. -/
theorem and_mask_eq_zero_iff (val : Aint) (shiftBase : Nat) :
    val &&& (BitVec.allOnes 32 <<< (32 - shiftBase)) = 0 ↔ val.toNat < 2 ^ (32 - shiftBase) := by
  -- bit by bit: the mask has exactly the bits that the shift would lose
  constructor
  · intro hzero
    apply Nat.lt_pow_two_of_testBit
    intro i hi
    by_cases hlt : i < 32
    · have hbit := congrArg (·.getLsbD i) hzero
      rw [BitVec.getLsbD_and, getLsbD_mask shiftBase hlt, decide_eq_true hi, Bool.and_true] at hbit
      exact hbit.trans BitVec.getLsbD_zero
    · exact BitVec.getLsbD_of_ge val i (Nat.le_of_not_lt hlt)
  · intro hlt
    apply BitVec.eq_of_getLsbD_eq
    intro i hi
    refine Eq.trans ?_ BitVec.getLsbD_zero.symm
    rw [BitVec.getLsbD_and, getLsbD_mask shiftBase hi]
    by_cases hlow : 32 - shiftBase ≤ i
    · have hbit : val.getLsbD i = false :=
        Nat.testBit_lt_two_pow (hlt.trans_le (Nat.pow_le_pow_right (by decide) hlow))
      rw [hbit, Bool.false_and]
    · rw [decide_eq_false hlow, Bool.and_false]

/-- The step of a base that is a power of two notices that the number gets too large. -/
theorem twoBasedStep_lost {shiftBase v d : Nat} (h : shiftBase ≤ 32) (hv : v < 2 ^ 32)
    (hd : d < 2 ^ shiftBase) (digit : Aint) :
    (twoBasedStep shiftBase (BitVec.ofNat 32 v) digit).2 = true ↔ 2 ^ 32 ≤ v * 2 ^ shiftBase + d := by
  have hpow : 2 ^ (32 - shiftBase) * 2 ^ shiftBase = 2 ^ 32 := by
    rw [← Nat.pow_add, Nat.sub_add_cancel h]
  have hval : (BitVec.ofNat 32 v).toNat = v := Nat.mod_eq_of_lt hv
  rw [twoBasedStep, decide_eq_true_eq, ne_eq, and_mask_eq_zero_iff, hval, Nat.not_lt, ← hpow]
  constructor
  · intro hle
    exact (Nat.mul_le_mul_right _ hle).trans (Nat.le_add_right _ _)
  · intro hle
    by_contra hlt
    have hnext : (v + 1) * 2 ^ shiftBase ≤ 2 ^ (32 - shiftBase) * 2 ^ shiftBase :=
      Nat.mul_le_mul_right _ (by omega)
    rw [Nat.succ_mul] at hnext
    omega

theorem digitsLost_twoBased {shiftBase v : Nat} (h : shiftBase ≤ 32) (hv : v < 2 ^ 32)
    {digits : List Char} (hdigits : ∀ c ∈ digits, getval c < 2 ^ shiftBase) :
    digitsLost (2 ^ shiftBase) (twoBasedStep shiftBase) v digits = true ↔
      2 ^ 32 ≤ digits.foldl (fun v c => v * 2 ^ shiftBase + getval c) v := by
  -- by induction on the digits: once the number is too large it stays so
  induction digits generalizing v with
  | nil => simpa [digitsLost] using hv
  | cons c digits ih =>
    have hc := hdigits c List.mem_cons_self
    have hrest : ∀ x ∈ digits, getval x < 2 ^ shiftBase :=
      fun x hx => hdigits x (List.mem_cons_of_mem c hx)
    rw [digitsLost, Bool.or_eq_true, twoBasedStep_lost h hv hc, List.foldl_cons]
    constructor
    · rintro (hlost | hlost)
      · exact hlost.trans (le_foldl_digits (Nat.two_pow_pos _) _ _)
      -- the rest starts from the exact value as long as that fits
      · by_cases hsmall : v * 2 ^ shiftBase + getval c < 2 ^ 32
        · exact (ih hsmall hrest).mp hlost
        · exact (Nat.le_of_not_lt hsmall).trans (le_foldl_digits (Nat.two_pow_pos _) _ _)
    · intro hlarge
      by_cases hsmall : v * 2 ^ shiftBase + getval c < 2 ^ 32
      · exact Or.inr ((ih hsmall hrest).mpr hlarge)
      · exact Or.inl (Nat.le_of_not_lt hsmall)

/-! ### Base 10 -/

/-- The step of base 10 notices an overflow when the value falls. -/
theorem intBasedStep_lost (v d : Nat) :
    (intBasedStep 10 (BitVec.ofNat 32 v) (BitVec.ofNat 32 d)).2 = true ↔
      (v * 10 + d) % 2 ^ 32 < v % 2 ^ 32 := by
  have hval : BitVec.ofNat 32 v * BitVec.ofNat 32 10 + BitVec.ofNat 32 d
      = BitVec.ofNat 32 (v * 10 + d) := by
    rw [← BitVec.ofNat_mul, ← BitVec.ofNat_add]
  rw [intBasedStep, hval, BitVec.ult, decide_eq_true_eq, BitVec.toNat_ofNat, BitVec.toNat_ofNat]

/-- A digit in `digits` makes the value fall that 32 bits keep of the number; `v` is the number in front
of the digits. -/
def Falls (v : Nat) (digits : List Char) : Prop :=
  ∃ front c behind, digits = front ++ c :: behind ∧
    let w := front.foldl (fun v c => v * 10 + getval c) v
    (w * 10 + getval c) % 2 ^ 32 < w % 2 ^ 32

theorem falls_cons {v : Nat} {c : Char} {digits : List Char} :
    Falls v (c :: digits) ↔
      (v * 10 + getval c) % 2 ^ 32 < v % 2 ^ 32 ∨ Falls (v * 10 + getval c) digits := by
  constructor
  · rintro ⟨_ | ⟨x, front⟩, c', behind, hdigits, hfall⟩
    · obtain ⟨rfl, -⟩ := List.cons.inj hdigits
      exact Or.inl hfall
    · obtain ⟨rfl, htail⟩ := List.cons.inj hdigits
      exact Or.inr ⟨front, c', behind, htail, hfall⟩
  · rintro (hfall | ⟨front, c', behind, rfl, hfall⟩)
    · exact ⟨[], c, digits, rfl, hfall⟩
    · exact ⟨c :: front, c', behind, rfl, hfall⟩

theorem digitsLost_intBased (v : Nat) (digits : List Char) :
    digitsLost 10 (intBasedStep 10) v digits = true ↔ Falls v digits := by
  induction digits generalizing v with
  | nil =>
    rw [digitsLost]
    apply iff_of_false Bool.false_ne_true
    rintro ⟨front, c, behind, hdigits, -⟩
    exact absurd hdigits.symm (List.append_ne_nil_of_right_ne_nil _ (List.cons_ne_nil _ _))
  | cons c digits ih => rw [digitsLost, Bool.or_eq_true, intBasedStep_lost, ih, falls_cons]

/-- A value that fits never falls. -/
theorem not_falls {v : Nat} {digits : List Char}
    (h : digits.foldl (fun v c => v * 10 + getval c) v < 2 ^ 32) : ¬ Falls v digits := by
  rintro ⟨front, c, behind, rfl, hfall⟩
  rw [List.foldl_append, List.foldl_cons] at h
  have hlarge := le_foldl_digits (show 0 < 10 by decide)
    (front.foldl (fun v c => v * 10 + getval c) v * 10 + getval c) behind
  dsimp only at hfall
  rw [Nat.mod_eq_of_lt (by omega), Nat.mod_eq_of_lt (by omega)] at hfall
  omega

/-! ### Literals -/

/-- Every notation has base 10 or a power of two. -/
theorem LiteralForm.base_cases (form : LiteralForm) :
    (form.base = 10 ∧ form.numberBase = .int 10) ∨
      ∃ shiftBase ≤ 32, form.base = 2 ^ shiftBase ∧ form.base ≠ 10 ∧
        form.numberBase = .shift shiftBase := by
  cases form
  case decimal | decimalD => exact Or.inl ⟨rfl, rfl⟩
  case hexZeroX | hexDollar | hexHash | hexH =>
    exact Or.inr ⟨4, by decide, rfl, by decide, rfl⟩
  case binZeroB | binPercent | binB => exact Or.inr ⟨1, by decide, rfl, by decide, rfl⟩
  case octZeroQ | octQ | octO => exact Or.inr ⟨3, by decide, rfl, by decide, rfl⟩

namespace DocumentedLiteral

/-- `GetConstant` takes the literal, `0b` or `0q`, for a prefix without digits. -/
def LooksLikePrefix (lit : DocumentedLiteral) : Prop :=
  (lit.form = .binB ∨ lit.form = .octQ) ∧ lit.first = '0' ∧ lit.later = []

/-- `GetConstant` reads exactly the literal, with its value modulo `2^32`, and reports an overflow if and
only if the number does not fit into 32 bits. -/
def ReadsAsNumber (lit : DocumentedLiteral) (p : Text) : Prop :=
  getConstant (lit.text ++ p) = ⟨some lit.value, p,
    if 2 ^ 32 ≤ lit.number then [.error "Overflow" (some (lit.text ++ p)) .suppress] else []⟩

/-- The literal is none of the prefixes, and a decimal number that does not fit falls at some digit. -/
def OverflowNoticed (lit : DocumentedLiteral) : Prop :=
  ¬ lit.LooksLikePrefix ∧ (lit.form.base = 10 → 2 ^ 32 ≤ lit.number → Falls 0 lit.digits)

theorem getval_lt_of_mem (lit : DocumentedLiteral) : ∀ c ∈ lit.digits, getval c < lit.form.base := by
  intro c hc
  rcases List.mem_cons.mp hc with rfl | hc
  · exact lit.first_digit.2
  · obtain ⟨d, hd, rfl⟩ := List.mem_map.mp hc
    exact (lit.later_valid d hd).2.2

/-- What the digit loop says of a literal. -/
theorem lost_iff (lit : DocumentedLiteral) :
    lit.lost = true ↔ if lit.form.base = 10 then Falls 0 lit.digits else 2 ^ 32 ≤ lit.number := by
  have hdigits := lit.getval_lt_of_mem
  rw [lost, number_eq, digitsNumber]
  rcases lit.form.base_cases with ⟨hbase, hnumber⟩ | ⟨shiftBase, hle, hbase, hten, hnumber⟩
  · rw [hnumber, hbase, if_pos rfl]
    exact digitsLost_intBased 0 lit.digits
  · rw [hbase] at hdigits
    rw [hnumber, if_neg hten, hbase]
    exact digitsLost_twoBased hle (by decide) hdigits

end DocumentedLiteral

/-- A prefix without digits is no number. -/
theorem getConstant_prefix {x : Char} (hx : x ∈ ['b', 'B', 'q', 'Q']) {p : Text}
    (hp : literalStops p = true) : (getConstant ('0' :: x :: p)).val = none := by
  have halnum : x.isAlphanum = true := List.all_eq_true.mp (by decide) x hx
  have hend : literalEnd ('0' :: x :: p) = p := by
    rw [literalEnd_cons (by decide), literalEnd_cons halnum, literalEnd_of_stops hp]
  -- the two characters are taken for a prefix, which leaves no digits
  have hformat : ∃ shiftBase, literalFormat ('0' :: x :: p) 2 = (.shift shiftBase, p, 0, true) := by
    have hsize : 2 - (('0' :: x :: p).length - p.length) = 0 := by
      rw [List.length_cons, List.length_cons]
      omega
    have hlead : ∃ shiftBase, prefixBase ('0' :: x :: p) x = (some shiftBase, p) := by
      simp only [List.mem_cons, List.not_mem_nil, or_false] at hx
      rcases hx with rfl | rfl | rfl | rfl
      · exact ⟨1, by simp +decide [prefixBase]⟩
      · exact ⟨1, by simp +decide [prefixBase]⟩
      · exact ⟨3, by simp +decide [prefixBase]⟩
      · exact ⟨3, by simp +decide [prefixBase]⟩
    obtain ⟨shiftBase, hlead⟩ := hlead
    refine ⟨shiftBase, ?_⟩
    rw [literalFormat, show charBefore ('0' :: x :: p) 2 = x from rfl, hlead]
    dsimp only
    rw [hsize]
  have hlen : ('0' :: x :: p).length - p.length = 2 := by
    rw [List.length_cons, List.length_cons]
    omega
  obtain ⟨shiftBase, hformat⟩ := hformat
  have hhead : ¬ (cur ('0' :: x :: p) = '#' ∨ cur ('0' :: x :: p) = '$' ∨
      cur ('0' :: x :: p) = '%') := by
    rw [cur_cons]
    decide
  -- no digits are a syntax error in the conversion
  have hnone : getNumericValue p 0 (.shift shiftBase) = (0, some .syntaxError, p) := by
    rw [getNumericValue, getNumericValueTwoBased, if_pos rfl]
  rw [getConstant, Parsing.ParseFn.bind_silent (Parsing.ParseFn.peek_apply _)]
  simp only [if_neg hhead, hend, hlen, hformat, hnone]
  split
  · rfl
  · have hfail : processLastError (some .syntaxError) ('0' :: x :: p) ('0' :: x :: p)
        = ⟨none, '0' :: x :: p, [.error "Syntax error" (some ('0' :: x :: p)) .suppress]⟩ := rfl
    rw [Parsing.ParseFn.bind_none hfail]

/-- A literal that looks like a prefix is not read. -/
theorem getConstant_of_looksLikePrefix {lit : DocumentedLiteral} (h : lit.LooksLikePrefix) {p : Text}
    (hp : literalStops p = true) : (getConstant (lit.text ++ p)).val = none := by
  obtain ⟨hform, hfirst, hlater⟩ := h
  have htext : ∃ x ∈ ['b', 'B', 'q', 'Q'], lit.text = ['0', x] := by
    rw [DocumentedLiteral.text, DocumentedLiteral.digitText, hfirst, hlater]
    rcases hform with hform | hform <;> rw [hform] <;> cases lit.upper
    · exact ⟨'b', by decide, rfl⟩
    · exact ⟨'B', by decide, rfl⟩
    · exact ⟨'q', by decide, rfl⟩
    · exact ⟨'Q', by decide, rfl⟩
  obtain ⟨x, hx, htext⟩ := htext
  rw [htext]
  exact getConstant_prefix hx hp

/-- **The overflow of numeric literals**: in front of anything that cannot continue the number, a literal
is read with its value modulo `2^32` and with the overflow error exactly when its number does not fit, if
and only if it is not taken for a prefix and, in base 10, a number that does not fit falls at a digit. -/
theorem getConstant_overflow_iff (lit : DocumentedLiteral) {p : Text} (hp : literalStops p = true) :
    lit.ReadsAsNumber p ↔ lit.OverflowNoticed := by
  unfold DocumentedLiteral.ReadsAsNumber DocumentedLiteral.OverflowNoticed
  -- what is taken for a prefix has no value at all
  by_cases hlead : lit.LooksLikePrefix
  · apply iff_of_false
    · intro h
      have hval := getConstant_of_looksLikePrefix hlead hp
      rw [h] at hval
      cases hval
    · exact fun h => h.1 hlead
  have hread := NumericLiteral.getConstant_literal
    ⟨lit, fun hform hfirst hlater => hlead ⟨hform, hfirst, hlater⟩⟩ hp
  dsimp only at hread
  rw [hread]
  -- otherwise the digit loop decides, which in base 10 sees a falling value only
  have hlost := lit.lost_iff
  constructor
  · intro h
    refine ⟨hlead, fun hten hlarge => ?_⟩
    rw [if_pos hten] at hlost
    apply hlost.mp
    by_contra hsilent
    rw [if_neg hsilent, if_pos hlarge] at h
    cases h
  · rintro ⟨-, hfalls⟩
    have hsame : lit.lost = true ↔ 2 ^ 32 ≤ lit.number := by
      rw [hlost]
      split_ifs with hten
      · refine ⟨fun h => ?_, hfalls hten⟩
        by_contra hsmall
        rw [lit.number_eq, hten] at hsmall
        exact not_falls (Nat.lt_of_not_le hsmall) h
      · exact Iff.rfl
    simp only [hsame]

/-- The literal `4772185890`: 32 bits keep 477218594 of it, more than of its first nine digits. -/
def wrappedDecimal : DocumentedLiteral where
  form := .decimal
  upper := false
  first := '4'
  later := ['7', '7', '2', '1', '8', '5', '8', '9', '0'].map (none, ·)
  first_digit := by decide
  later_valid := by
    intro d hd
    obtain ⟨c, hc, rfl⟩ := List.mem_map.mp hd
    have hdigit : ['7', '7', '2', '1', '8', '5', '8', '9', '0'].all
        (fun c => c.isAlphanum && decide (getval c < 10)) = true := by decide
    have hc' := List.all_eq_true.mp hdigit c hc
    rw [Bool.and_eq_true, decide_eq_true_eq] at hc'
    exact ⟨fun s hs => absurd hs (Option.not_mem_none s), hc'⟩
  bare_digit := by decide

theorem getConstant_overflow_decimal : literalStops [] = true ∧
    (wrappedDecimal.ReadsAsNumber [] ↔ wrappedDecimal.OverflowNoticed) :=
  ⟨by decide, getConstant_overflow_iff wrappedDecimal (by decide)⟩

/-- The literal does not fit into 32 bits, and no overflow is reported. -/
theorem not_readsAsNumber :
    ¬ ∀ (lit : DocumentedLiteral) (p : Text), literalStops p = true → lit.ReadsAsNumber p := by
  intro h
  have hread := h wrappedDecimal [] (by decide)
  have hlarge : 2 ^ 32 ≤ wrappedDecimal.number := by decide
  have hlost : ¬ wrappedDecimal.lost = true := by decide
  rw [DocumentedLiteral.ReadsAsNumber, if_pos hlarge,
    NumericLiteral.getConstant_literal ⟨wrappedDecimal, by decide⟩ (by decide), if_neg hlost] at hread
  cases hread

end Sjasmplus
