import Sjasmplus.ExpressionFuel
import Sjasmplus.NumericLiteral

/-!
# Expression trees, their text and their value

The trees of the documented expression grammar: numeric literals, the unary operators and the binary
operators in their levels.  `ExprTree.text` prints a tree with single blanks between the tokens and
parentheses only where precedence and left associativity require them.  `ExprTree.value` is its
value, computed with integers and wrapped to 32 bits; it says nothing about how the parser computes.
-/

namespace Sjasmplus

open Parsing

/-! ### Operators -/

/-- The unary operators; `not` is the word for `!`. -/
inductive UnaryOp
  | bang | not | tilde | plus | minus | low | high | abs | u16
deriving DecidableEq, Repr

/-- The binary operators, from the weakest level; the `…Word` operators are written as words. -/
inductive BinaryOp
  | logOr
  | logAnd
  | bitOr | bitOrWord
  | bitXor | bitXorWord
  | bitAnd | bitAndWord
  | eq | eqEq | ne
  | lt | gt | le | ge
  | min | max
  | shl | shr | ushr | shlWord | shrWord
  | add | sub
  | mul | div | mod | modWord
deriving DecidableEq, Repr

def UnaryOp.text : UnaryOp → Text
  | bang => ['!']
  | not => ['n', 'o', 't']
  | tilde => ['~']
  | plus => ['+']
  | minus => ['-']
  | low => ['l', 'o', 'w']
  | high => ['h', 'i', 'g', 'h']
  | abs => ['a', 'b', 's']
  | u16 => ['u', '1', '6']

namespace BinaryOp

def text : BinaryOp → Text
  | logOr => ['|', '|']
  | logAnd => ['&', '&']
  | bitOr => ['|']
  | bitOrWord => ['o', 'r']
  | bitXor => ['^']
  | bitXorWord => ['x', 'o', 'r']
  | bitAnd => ['&']
  | bitAndWord => ['a', 'n', 'd']
  | eq => ['=']
  | eqEq => ['=', '=']
  | ne => ['!', '=']
  | lt => ['<']
  | gt => ['>']
  | le => ['<', '=']
  | ge => ['>', '=']
  | min => ['<', '?']
  | max => ['>', '?']
  | shl => ['<', '<']
  | shr => ['>', '>']
  | ushr => ['>', '>', '>']
  | shlWord => ['s', 'h', 'l']
  | shrWord => ['s', 'h', 'r']
  | add => ['+']
  | sub => ['-']
  | mul => ['*']
  | div => ['/']
  | mod => ['%']
  | modWord => ['m', 'o', 'd']

/-- The level of the operator, 0 for the tightest. -/
def rank : BinaryOp → Nat
  | logOr => 10
  | logAnd => 9
  | bitOr | bitOrWord => 8
  | bitXor | bitXorWord => 7
  | bitAnd | bitAndWord => 6
  | eq | eqEq | ne => 5
  | lt | gt | le | ge => 4
  | min | max => 3
  | shl | shr | ushr | shlWord | shrWord => 2
  | add | sub => 1
  | mul | div | mod | modWord => 0

def isShift : BinaryOp → Bool
  | shl | shr | ushr | shlWord | shrWord => true
  | _ => false

def isDivision : BinaryOp → Bool
  | div | mod | modWord => true
  | _ => false

end BinaryOp

/-- The operator takes the opposite of its operand. -/
def UnaryOp.isOpposite : UnaryOp → Bool
  | minus | abs => true
  | _ => false

/-- The code that `ParseExpUnair` gives the operator. -/
def UnaryOp.code : UnaryOp → Nat
  | bang | not => '!'.toNat
  | tilde => '~'.toNat
  | plus => '+'.toNat
  | minus => '-'.toNat
  | low => 'l'.toNat
  | high => 'h'.toNat
  | abs => 'a'.toNat
  | u16 => 'u'.toNat

/-- The code that the operator's level gives it: the sum of its characters. -/
def BinaryOp.code : BinaryOp → Nat
  | logOr => '|'.toNat + '|'.toNat
  | logAnd => '&'.toNat + '&'.toNat
  | bitOr | bitOrWord => '|'.toNat
  | bitXor | bitXorWord => '^'.toNat
  | bitAnd | bitAndWord => '&'.toNat
  | eq => '='.toNat
  | eqEq => '='.toNat + '='.toNat
  | ne => '!'.toNat + '='.toNat
  | lt => '<'.toNat
  | gt => '>'.toNat
  | le => '<'.toNat + '='.toNat
  | ge => '>'.toNat + '='.toNat
  | min => '<'.toNat + '?'.toNat
  | max => '>'.toNat + '?'.toNat
  | shl | shlWord => '<'.toNat + '<'.toNat
  | shr | shrWord => '>'.toNat + '>'.toNat
  | ushr => '>'.toNat + '>'.toNat + '>'.toNat
  | add => '+'.toNat
  | sub => '-'.toNat
  | mul => '*'.toNat
  | div => '/'.toNat
  | mod | modWord => '%'.toNat

/-! ### Values -/

/-- The value of a unary operator in 32-bit wrap-around arithmetic. -/
def UnaryOp.value (x : Aint) : UnaryOp → Aint
  | bang | not => if x = 0 then -1 else 0
  | tilde => BitVec.ofInt 32 (-x.toInt - 1)
  | plus => x
  | minus => BitVec.ofInt 32 (-x.toInt)
  | low => BitVec.ofNat 32 (x.toNat % 256)
  | high => BitVec.ofNat 32 (x.toNat / 256 % 256)
  | abs => BitVec.ofInt 32 |x.toInt|
  | u16 => BitVec.ofNat 32 (x.toNat % 65536)

/-- The value of a binary operator in 32-bit wrap-around arithmetic: conditions are -1 or 0, and
division by zero gives 0. -/
def BinaryOp.value (x y : Aint) : BinaryOp → Aint
  | logOr => if x ≠ 0 ∨ y ≠ 0 then -1 else 0
  | logAnd => if x ≠ 0 ∧ y ≠ 0 then -1 else 0
  | bitOr | bitOrWord => x ||| y
  | bitXor | bitXorWord => x ^^^ y
  | bitAnd | bitAndWord => x &&& y
  | eq | eqEq => if x = y then -1 else 0
  | ne => if x ≠ y then -1 else 0
  | lt => if x.toInt < y.toInt then -1 else 0
  | gt => if y.toInt < x.toInt then -1 else 0
  | le => if x.toInt ≤ y.toInt then -1 else 0
  | ge => if y.toInt ≤ x.toInt then -1 else 0
  | min => BitVec.ofInt 32 (Min.min x.toInt y.toInt)
  | max => BitVec.ofInt 32 (Max.max x.toInt y.toInt)
  | shl | shlWord => BitVec.ofInt 32 (x.toInt * 2 ^ y.toNat)
  | shr | shrWord => BitVec.ofInt 32 (x.toInt / 2 ^ y.toNat)
  | ushr => BitVec.ofNat 32 (x.toNat / 2 ^ y.toNat)
  | add => BitVec.ofInt 32 (x.toInt + y.toInt)
  | sub => BitVec.ofInt 32 (x.toInt - y.toInt)
  | mul => BitVec.ofInt 32 (x.toInt * y.toInt)
  | div => if y = 0 then 0 else BitVec.ofInt 32 (x.toInt.tdiv y.toInt)
  | mod | modWord => if y = 0 then 0 else BitVec.ofInt 32 (x.toInt.tmod y.toInt)

/-- The error that a division by zero reports. -/
def divisionByZero : Event := .error "Division by zero" none .pass3

/-- The meaning of the operators over atoms of given values. -/
def arithmetic {A : Type} (atom : A → Aint) : Meaning A UnaryOp BinaryOp Aint Event where
  atom := atom
  unary u x := (u.value x, [])
  binary b x y := (b.value x y, if b.isDivision ∧ y = 0 then [divisionByZero] else [])

/-! ### Trees -/

/-- Expression trees over atoms `A`. -/
abbrev ExprTree (A : Type) := Expr A UnaryOp BinaryOp

/-- The characters of a token. -/
def tokenText {A : Type} (atomText : A → Text) : Token A UnaryOp BinaryOp → Text
  | .openParen => ['(']
  | .closeParen => [')']
  | .atom a => atomText a
  | .unary u => u.text
  | .binary b => b.text

namespace ExprTree

variable {A : Type}

/-- The text of a tree: its tokens with single blanks between them. -/
def text (atomText : A → Text) (e : ExprTree A) : Text :=
  List.intercalate [' '] ((e.tokens BinaryOp.rank 11).map (tokenText atomText))

/-- The value of a tree. -/
def value (atomValue : A → Aint) (e : ExprTree A) : Aint := (e.eval (arithmetic atomValue)).1

/-- The errors of a tree, one for each division by zero. -/
def errors (atomValue : A → Aint) (e : ExprTree A) : List Event :=
  (e.eval (arithmetic atomValue)).2

/-- Every operation has a value in wrap-around arithmetic: shift counts are in `0..31` and the smallest
number is not divided by -1. -/
def Defined (atomValue : A → Aint) : ExprTree A → Prop
  | .atom _ => True
  | .unary _ e => Defined atomValue e
  | .binary b l r =>
    Defined atomValue l ∧ Defined atomValue r ∧
      (b.isShift = true → (value atomValue r).toNat < 32) ∧
      (b.isDivision = true →
        ¬ (value atomValue l = BitVec.intMin 32 ∧ value atomValue r = -1))

end ExprTree

end Sjasmplus
