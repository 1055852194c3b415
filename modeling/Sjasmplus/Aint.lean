import Mathlib.Data.BitVec
import Sjasmplus.Diagnostics

/-!
# The 32-bit arithmetic of expressions

`aint` is a signed 32-bit integer.  Values are `BitVec 32`, and operations wrap around; the signed
comparisons, divisions and shifts are those of two's complement.  Division of the smallest number by
`-1`, shifts by counts outside `0..31` and the opposite of the smallest number are undefined in the
language of the source: the operators mark them with an `undefined` event.
-/

namespace Sjasmplus

/-- `aint`. -/
abbrev Aint := BitVec 32

/-- A sum without overflow. -/
theorem toInt_add_of_fits {a b : Aint} (hlow : -2 ^ 31 ≤ a.toInt + b.toInt)
    (hhigh : a.toInt + b.toInt < 2 ^ 31) : (a + b).toInt = a.toInt + b.toInt := by
  rw [BitVec.toInt_add, Int.bmod_eq_of_le (by omega) (by omega)]

/-- A small number as an `aint`. -/
theorem toInt_ofNat_of_lt {k : Nat} (h : k < 2 ^ 31) : (BitVec.ofNat 32 k : Aint).toInt = k := by
  rw [BitVec.toInt_ofNat', Int.bmod_eq_of_le (by omega) (by omega)]

theorem toNat_of_nonneg {a : Aint} (h : 0 ≤ a.toInt) : (a.toNat : Int) = a.toInt := by
  rw [BitVec.toInt_eq_toNat_cond] at h ⊢
  split_ifs at h ⊢ <;> omega

/-- The value of a condition in an expression, `-(condition)`. -/
def truth (b : Bool) : Aint := if b then -1 else 0

/-- An operator's result together with what it reports. -/
abbrev Reported (α : Type) := α × List Event

/-! ### Range checks -/

/-- A number in uppercase hexadecimal, as `%X` prints it. -/
def hexUpper (n : Nat) : String := String.ofList ((Nat.toDigits 16 n).map Char.toUpper)

/-- `%0<width>X`. -/
def hexPadded (width n : Nat) : String :=
  String.ofList (List.replicate (width - (Nat.toDigits 16 n).length) '0') ++ hexUpper n

/-- The warning of `check8`, `check16` and `check24` when `val` is outside `low..high`. -/
def checkRange (bits : Nat) (low high : Int) (val : Aint) : List Event :=
  if val.toInt < low ∨ high < val.toInt then
    [.warning ("value 0x" ++ hexUpper val.toNat ++ " is truncated to " ++ toString bits ++
      "bit value: 0x" ++ hexPadded (bits / 4) (val.toNat % 2 ^ bits)) none .pass3]
  else []

def check8 : Aint → List Event := checkRange 8 (-256) 255

def check16 : Aint → List Event := checkRange 16 (-65536) 65535

def check16u : Aint → List Event := checkRange 16 0 65535

def check24 : Aint → List Event := checkRange 24 (-16777216) 16777215

/-! ### Operators with exceptional cases -/

/-- The quotient and the remainder share their exceptional cases: a zero divisor gives 0 and an
error, and the smallest number over `-1` is not defined. -/
def divisionReports (left right : Aint) : List Event :=
  if right = 0 then [.error "Division by zero" none .pass3]
  else if left = BitVec.intMin 32 ∧ right = -1 then [.undefined "INT_MIN divided by -1"]
  else []

/-- The case `'/'` of `ParseExpMul`. -/
def divide (left right : Aint) : Reported Aint :=
  (if right = 0 then 0 else left.sdiv right, divisionReports left right)

/-- The case `'%'` of `ParseExpMul`. -/
def modulo (left right : Aint) : Reported Aint :=
  (if right = 0 then 0 else left.srem right, divisionReports left right)

/-- A shift count outside `0..31` leaves the shift undefined. -/
def shiftReports (right : Aint) : List Event :=
  if right.toNat < 32 then [] else [.undefined "shift count outside 0..31"]

/-- `left <<= right`. -/
def shiftLeft (left right : Aint) : Reported Aint := (left <<< right.toNat, shiftReports right)

/-- `left >>= right`, on the signed type. -/
def shiftRight (left right : Aint) : Reported Aint :=
  (left.sshiftRight right.toNat, shiftReports right)

/-- `>>>`: the shift of the unsigned type. -/
def shiftRightUnsigned (left right : Aint) : Reported Aint :=
  (left >>> right.toNat, shiftReports right)

/-- The opposite of the smallest number does not fit. -/
def oppositeOverflow : Event := .undefined "opposite of INT_MIN"

def oppositeReports (right : Aint) : List Event :=
  if right = BitVec.intMin 32 then [oppositeOverflow] else []

/-- `~right + 1`: the sum overflows where the opposite does. -/
def negate (right : Aint) : Reported Aint := (~~~right + 1, oppositeReports right)

/-- `abs`. -/
def absolute (right : Aint) : Reported Aint :=
  (if right.slt 0 then -right else right, oppositeReports right)

end Sjasmplus
