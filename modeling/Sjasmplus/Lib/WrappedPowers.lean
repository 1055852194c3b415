import Mathlib.Data.Nat.Digits.Lemmas

/-!
# The number of digits, and powers that wrap around

A search for the number of digits of `n` in the base `b` goes through the powers of `b` up to the first
one above `n`.  Modulo `m` this is right only as long as the power with that many factors is not reduced
below `n` (`firstAbove_digitCount_iff`).  When `K` is the last exponent in front of the modulus, all
numbers with at most `K` digits are safe, and the others are compared with one reduced power
(`lt_pow_mod_digitCount_iff`).
-/

namespace WrappedPowers

variable {b m n k : Nat}

/-- The number of digits of a number as it is written: zero has one. -/
def digitCount (b n : Nat) : Nat := max 1 (Nat.digits b n).length

theorem digitCount_pos (b n : Nat) : 0 < digitCount b n :=
  Nat.lt_of_lt_of_le Nat.zero_lt_one (le_max_left _ _)

theorem lt_pow_digitCount (hb : 1 < b) (n : Nat) : n < b ^ digitCount b n :=
  (Nat.digits_length_le_iff hb n).mp (le_max_right _ _)

/-- The powers with fewer factors are not above the number. -/
theorem pow_le_of_lt_digitCount (hb : 1 < b) (hk : 0 < k) (hlt : k < digitCount b n) : b ^ k ≤ n := by
  rcases lt_max_iff.mp hlt with hone | hdigits
  · omega
  · exact (Nat.lt_digits_length_iff hb n).mp hdigits

theorem digitCount_le (hb : 1 < b) (hk : 0 < k) (h : n < b ^ k) : digitCount b n ≤ k :=
  max_le hk ((Nat.digits_length_le_iff hb n).mpr h)

/-- The power with this exponent is the first one above `n`, from the base on and modulo `m`. -/
structure FirstAbove (b m n k : Nat) : Prop where
  pos : 0 < k
  above : n < b ^ k % m
  below : ∀ j, 0 < j → j < k → b ^ j % m ≤ n

theorem FirstAbove.unique {j : Nat} (h : FirstAbove b m n j) (h' : FirstAbove b m n k) : j = k := by
  rcases lt_trichotomy j k with hlt | heq | hlt
  · exact absurd (h'.below j h.pos hlt) (Nat.not_le.mpr h.above)
  · exact heq
  · exact absurd (h.below k h'.pos hlt) (Nat.not_le.mpr h'.above)

/-- The search ends when some power is above the number. -/
theorem exists_firstAbove (hk : 0 < k) (habove : n < b ^ k % m) : ∃ j ≤ k, FirstAbove b m n j := by
  have hfound : ∃ j, 0 < j ∧ n < b ^ j % m := ⟨k, hk, habove⟩
  refine ⟨Nat.find hfound, Nat.find_min' hfound ⟨hk, habove⟩, ?_⟩
  constructor
  · exact (Nat.find_spec hfound).1
  · exact (Nat.find_spec hfound).2
  · intro j hj hlt
    by_contra hlow
    exact Nat.find_min hfound hlt ⟨hj, Nat.not_le.mp hlow⟩

/-- The search finds the number of digits when its power is not reduced below the number. -/
theorem firstAbove_digitCount_iff (hb : 1 < b) (hn : n < m) :
    FirstAbove b m n (digitCount b n) ↔ n < b ^ digitCount b n % m := by
  constructor
  · exact fun h => h.above
  · intro habove
    refine ⟨digitCount_pos b n, habove, fun j hj hlt => ?_⟩
    have hpow : b ^ j ≤ n := pow_le_of_lt_digitCount hb hj hlt
    rwa [Nat.mod_eq_of_lt (hpow.trans_lt hn)]

/-- Numbers with fewer digits than the modulus are safe. -/
theorem lt_pow_mod_digitCount_iff {K : Nat} (hb : 1 < b) (hn : n < m) (hlow : b ^ K < m)
    (hhigh : m ≤ b ^ (K + 1)) (hwrap : b ^ K ≤ b ^ (K + 1) % m) :
    n < b ^ digitCount b n % m ↔ n < b ^ (K + 1) % m := by
  have hcount : digitCount b n ≤ K + 1 := digitCount_le hb (Nat.succ_pos K) (hn.trans_le hhigh)
  rcases Nat.le_succ_iff.mp hcount with hfewer | heq
  · have hpow : b ^ digitCount b n ≤ b ^ K := Nat.pow_le_pow_right (by omega) hfewer
    have hdigits : n < b ^ digitCount b n := lt_pow_digitCount hb n
    rw [Nat.mod_eq_of_lt (hpow.trans_lt hlow)]
    exact ⟨fun _ => (hdigits.trans_le hpow).trans_le hwrap, fun _ => hdigits⟩
  · rw [heq]

end WrappedPowers
