import Mathlib.Data.List.Basic
import Mathlib.Tactic.IntervalCases

/-!
# Bytes as lines of hexadecimal digits

A text that holds lists of bytes: every list is a line, with a colon in front and two digits for each
byte.  `readLines` reads such a text, and rejects any other one.

* `readLines_printLines` — what was printed is read back;
* `printDigits_add` — a number is printed digit by digit.
-/

namespace HexLines

/-! ### Digits -/

/-- The digit for a number below 16. -/
def digit (k : Nat) : Char := (Nat.digitChar k).toUpper

/-- The number of a digit. -/
def digitValue (c : Char) : Option Nat :=
  if '0' ≤ c ∧ c ≤ '9' then some (c.toNat - '0'.toNat)
  else if 'A' ≤ c ∧ c ≤ 'F' then some (c.toNat - 'A'.toNat + 10)
  else none

/-- The last `width` digits of a number. -/
def printDigits : Nat → Nat → List Char
  | 0, _ => []
  | width + 1, value => printDigits width (value / 16) ++ [digit (value % 16)]

theorem digitValue_digit {k : Nat} (h : k < 16) : digitValue (digit k) = some k := by
  interval_cases k <;> decide

theorem digit_ne_newline {k : Nat} (h : k < 16) : digit k ≠ '\n' := by
  interval_cases k <;> decide

/-- The digits in front of the last ones are those of a quotient. -/
theorem printDigits_add (width width' value : Nat) :
    printDigits (width + width') value
      = printDigits width (value / 16 ^ width') ++ printDigits width' value := by
  induction width' generalizing value with
  | zero => simp [printDigits]
  | succ width' ih =>
    rw [← Nat.add_assoc, printDigits, ih, printDigits, List.append_assoc, Nat.div_div_eq_div_mul,
      Nat.pow_succ']

/-- Only the last digits of a number are printed. -/
theorem printDigits_mod (width value : Nat) :
    printDigits width (value % 16 ^ width) = printDigits width value := by
  induction width generalizing value with
  | zero => rfl
  | succ width ih =>
    have hquotient : value % 16 ^ (width + 1) / 16 = value / 16 % 16 ^ width := by
      rw [Nat.pow_succ', Nat.mod_mul_right_div_self]
    have hdigit : value % 16 ^ (width + 1) % 16 = value % 16 :=
      Nat.mod_mod_of_dvd _ (Dvd.intro_left (16 ^ width) rfl)
    rw [printDigits, printDigits, hquotient, hdigit, ih]

/-! ### Lines -/

/-- A byte is printed with two digits. -/
def printByte (byte : BitVec 8) : List Char := printDigits 2 byte.toNat

def printBytes (bytes : List (BitVec 8)) : List Char := bytes.flatMap printByte

def printLine (bytes : List (BitVec 8)) : List Char := ':' :: (printBytes bytes ++ ['\n'])

/-- Read from the start of a line, or behind some bytes of a line. -/
def readFrom : Option (List (BitVec 8)) → List Char → Option (List (List (BitVec 8)))
  | none, [] => some []
  | none, ':' :: text => readFrom (some []) text
  | some bytes, '\n' :: text => (readFrom none text).map (bytes :: ·)
  | some bytes, high :: low :: text =>
    match digitValue high, digitValue low with
    | some h, some l => readFrom (some (bytes ++ [BitVec.ofNat 8 (16 * h + l)])) text
    | _, _ => none
  | _, _ => none

/-- The lines of a text. -/
def readLines : List Char → Option (List (List (BitVec 8))) := readFrom none

@[simp] theorem printBytes_nil : printBytes [] = [] := rfl

@[simp] theorem printBytes_cons (byte : BitVec 8) (bytes : List (BitVec 8)) :
    printBytes (byte :: bytes) = printByte byte ++ printBytes bytes := rfl

theorem printBytes_append (bytes bytes' : List (BitVec 8)) :
    printBytes (bytes ++ bytes') = printBytes bytes ++ printBytes bytes' := List.flatMap_append

/-- Inside of a line the digits of a byte give the byte. -/
theorem readFrom_printByte (bytes : List (BitVec 8)) (byte : BitVec 8) (text : List Char) :
    readFrom (some bytes) (printByte byte ++ text) = readFrom (some (bytes ++ [byte])) text := by
  have hbyte := byte.isLt
  have hhigh : byte.toNat / 16 % 16 < 16 := Nat.mod_lt _ (by decide)
  have hlow : byte.toNat % 16 < 16 := Nat.mod_lt _ (by decide)
  have hprint : printByte byte ++ text
      = digit (byte.toNat / 16 % 16) :: digit (byte.toNat % 16) :: text := rfl
  have hvalue : BitVec.ofNat 8 (16 * (byte.toNat / 16 % 16) + byte.toNat % 16) = byte := by
    have hsum : 16 * (byte.toNat / 16 % 16) + byte.toNat % 16 = byte.toNat := by omega
    rw [hsum, BitVec.ofNat_toNat, BitVec.setWidth_eq]
  rw [hprint, readFrom, digitValue_digit hhigh, digitValue_digit hlow]
  · exact congrArg (fun b => readFrom (some (bytes ++ [b])) text) hvalue
  · exact digit_ne_newline hhigh

theorem readFrom_printBytes (bytes bytes' : List (BitVec 8)) (text : List Char) :
    readFrom (some bytes) (printBytes bytes' ++ text) = readFrom (some (bytes ++ bytes')) text := by
  induction bytes' generalizing bytes with
  | nil => simp
  | cons byte bytes' ih =>
    rw [printBytes_cons, List.append_assoc, readFrom_printByte, ih, List.append_assoc,
      List.singleton_append]

/-- A printed line is read as one line. -/
theorem readLines_printLine (bytes : List (BitVec 8)) (text : List Char) :
    readLines (printLine bytes ++ text) = (readLines text).map (bytes :: ·) := by
  have hopen : readLines (printLine bytes ++ text)
      = readFrom (some []) (printBytes bytes ++ '\n' :: text) := by
    simp [readLines, printLine, readFrom]
  rw [hopen, readFrom_printBytes, List.nil_append, readFrom, readLines]

/-- What was printed is read back. -/
theorem readLines_printLines (lines : List (List (BitVec 8))) :
    readLines (lines.flatMap printLine) = some lines := by
  induction lines with
  | nil => rfl
  | cons bytes lines ih => rw [List.flatMap_cons, readLines_printLine, ih, Option.map_some]

end HexLines
