import Mathlib.Data.List.DropRight
import Sjasmplus.Defines
import Sjasmplus.Lib.Guardian
import Sjasmplus.Lib.WrappedPowers
import Sjasmplus.ReadLine

/-!
# The listing (`ListFile` of `sjio.cpp`, `InitPass` of `sjasm.cpp`)

A line of the listing starts with a header of 24 characters: the number of the source line, the include
level, the address and up to four bytes.  `InitPass` takes the width of the numbers from `maxlin`, the
largest line number of the passes before, which `#line` (`ParseCppLineDirective` of `parser.cpp`) lets a
source choose.
-/

namespace Sjasmplus

open Program WrappedPowers

/-- `ELstType`. -/
inductive ELstType
  | all | active | mcOnly
deriving DecidableEq, Repr

/-- What the listing and `#line` only read: `pass == LASTPASS`, whether there is a listing file, the
options, whether lines are collected or come from a script, and the names of files.
`getDelimitedStringEx` gives the name with its messages, and `getInputFile` the path of the file. -/
structure ListingContext where
  isLastPass : Bool
  hasListingFile : Bool
  isListingSuspended : Bool
  listingType : ELstType
  lijst : Bool
  extraErrorWarningPrefix : Bool
  getDelimitedStringEx : Text → Text × List Event
  getInputFile : Text → Text

/-- What the listing works with.  `filename` and `pos` are the top of `sourcePosStack`.
`substitutedLine` is nothing when it points to `line`, and an item of `listEmittedBytes` is nothing for
the `...` in the place of bytes that are not listed. -/
structure ListingState where
  maxlin : UInt32
  reglenwidth : Nat
  filename : Text
  pos : TextFilePos
  lp : Text
  line : Text
  substitutedLine : Option Text
  eolComment : Option Text
  includeLevel : Nat
  listmacro : Bool
  donotlist : Bool
  compiledCurrentLine : Int
  lastListedLine : Int
  listEmittedBytes : List (Option (BitVec 8))
  listAddress : Nat
  curAddress : Nat
  defineTable : DefineTable
  listing : List Text
  log : List Event

abbrev ListingProgram := Program ListingState

/-! ### The width of line numbers -/

/-- A turn of the loop in `InitPass`, where `maxpow10` is a number of 32 bits. -/
def widthTurn (maxpow10 : UInt32) : ListingProgram (UInt32 ⊕ Unit) := do
  modify fun s => { s with reglenwidth := s.reglenwidth + 1 }
  -- the test for an overflow
  if maxpow10 * 10 < 10 then exit
  else do
    let s ← get
    pure (if maxpow10 * 10 ≤ s.maxlin then .inl (maxpow10 * 10) else .inr ())

/-- The width of line numbers in `InitPass`.  The loop never goes on for so many turns. -/
def initReglenwidth : ListingProgram Unit := do
  modify fun s => { s with reglenwidth := 0 }
  loop widthTurn 32 1

/-! ### Lines of the listing -/

/-- `%*u` and `%04X`: a number in at least so many columns. -/
def padded (fill : Char) (width base n : Nat) : Text :=
  let digits := (Nat.toDigits base n).map Char.toUpper
  List.replicate (width - digits.length) fill ++ digits

/-- A text goes to a buffer, as far as this is long. -/
def overlay (n : Nat) (text buffer : Text) : Text :=
  buffer.take n ++ text.take (buffer.length - n) ++ buffer.drop (n + text.length)

/-- The buffer of the header before anything is written, but the mark of macros and of machine code. -/
def blankHeader (type : ELstType) (s : ListingState) : Text :=
  let buffer := List.replicate 24 ' '
  let buffer := if s.listmacro then buffer.set 23 '>' else buffer
  if type = .mcOnly then buffer.set 23 '\x7b' else buffer

/-- `linenumber`: with five digits, the first one is not right yet. -/
def headerNumber (s : ListingState) : Nat :=
  s.pos.line % 10000 + if 5 ≤ s.reglenwidth ∧ 10000 ≤ s.pos.line then 10000 else 0

/-- `digit`: the first one of five digits, or a later character for larger numbers. -/
def headerDigit (s : ListingState) : Nat :=
  if 5 ≤ s.reglenwidth then min (s.pos.line / 10000 + 48) 126 else 32

/-- The header of a line in `PrepareListLine`, with the address in it. -/
def listHeader (type : ELstType) (hexadd : Nat) (s : ListingState) : Text :=
  let linewidth := min s.reglenwidth 5
  let number := padded ' ' linewidth 10 (headerNumber s) ++ ['\x00']
  let buffer := (overlay 0 number (blankHeader type s)).set linewidth ' '
  let buffer := overlay linewidth (List.replicate (min s.includeLevel (6 - linewidth)) '+') buffer
  let buffer := (overlay 6 (padded '0' 4 16 (hexadd % 65536) ++ ['\x00']) buffer).set 10 ' '
  if 48 < headerDigit s then buffer.set 0 (Char.ofNat (headerDigit s)) else buffer

/-- The text of a line in `PrepareListLine`. -/
def listText (s : ListingState) : Text :=
  match s.substitutedLine with
  | none | some [] => s.line
  | some text => text ++ s.eolComment.getD []

/-- Bytes in a line. -/
def listBytes (bytes : List (Option (BitVec 8))) : Text :=
  bytes.flatMap fun
    | none => "...".toList
    | some byte => ' ' :: padded '0' 2 16 byte.toNat

/-- A line of the listing with up to four bytes, as `fputs` writes it. -/
def listRow (type : ELstType) (showAsSkipped hideSource : Bool) (hexadd : Nat)
    (bytes : List (Option (BitVec 8))) (s : ListingState) : Text :=
  let header := overlay 10 (listBytes bytes ++ [' ']) (listHeader type hexadd s)
  let header := if showAsSkipped then header.set 11 '~' else header
  let text := if hideSource then [] else listText s
  ((header ++ text).rdropWhile white ++ ['\n']).takeWhile (· ≠ '\x00')

/-- A turn of the loop in `ListFile`. -/
def listTurn (type : ELstType) (showAsSkipped : Bool) (s : ListingState) : ListingState :=
  -- a skipped line is listed as it stands in the source
  let s := if showAsSkipped then { s with substitutedLine := none } else s
  let hideSource := !showAsSkipped && s.lastListedLine = s.compiledCurrentLine
  let bytes := s.listEmittedBytes.take 4
  { s with
    substitutedLine := if s.substitutedLine = some [] then none else s.substitutedLine
    lastListedLine := s.compiledCurrentLine
    listing := s.listing ++ [listRow type showAsSkipped hideSource s.listAddress bytes s]
    listEmittedBytes := s.listEmittedBytes.drop 4
    listAddress := s.listAddress + bytes.length }

/-- The loop of `ListFile` over the bytes that are left. -/
def listRows (type : ELstType) (showAsSkipped : Bool) : Nat → ListingState → ListingState
  | 0, s => s
  | fuel + 1, s =>
    let t := listTurn type showAsSkipped s
    if t.listEmittedBytes = [] then t else listRows type showAsSkipped fuel t

/-- `ListFile`. -/
def listFile (env : ListingContext) (showAsSkipped : Bool) (s : ListingState) : ListingState :=
  if !env.isLastPass || !env.hasListingFile || s.donotlist || env.isListingSuspended then
    { s with donotlist := false, listEmittedBytes := [] }
  else if showAsSkipped && env.listingType = .active then { s with listEmittedBytes := [] }
  else if env.listingType = .mcOnly && s.listEmittedBytes = [] then s
  else
    let t := listRows env.listingType showAsSkipped (s.listEmittedBytes.length + 1) s
    { t with listEmittedBytes := [], listAddress := t.curAddress }

/-! ### `#line` -/

/-- `Error`. -/
def listingError (message : String) (badValueMessage : Option Text) (type : EStatus) :
    ListingProgram Unit :=
  modify fun s => { s with log := s.log ++ [.error message badValueMessage type] }

/-- `atoi` at a digit: the number as `long`, as far as it fits, and then as `int`. -/
def atoi (p : Text) : Int :=
  (BitVec.ofNat 32 (min (Nat.ofDigits 10 ((p.takeWhile Char.isDigit).reverse.map fun c => c.toNat - 48))
    (2 ^ 63 - 1))).toInt

/-- The name of a file behind `#line`, if it is not empty. -/
def fakeFileName (env : ListingContext) (p : Text) : ListingProgram Bool := do
  let (name, log) := env.getDelimitedStringEx p
  modify fun s => { s with log := s.log ++ log }
  if name = [] then do
    listingError "#line: empty filename" none .suppress
    pure false
  else do
    let path := env.getInputFile name
    modify fun s => { s with
      filename := path
      pos := ⟨0, 0, 0⟩
      defineTable := (s.defineTable.replace "__FILE__".toList path).2 }
    when (env.isLastPass ∧ env.hasListingFile) <|
      modify fun s => { s with listing := s.listing ++ ["# fake file name: ".toList ++ path ++ ['\n']] }
    pure true

/-- `#line` with a positive number. -/
def setFakeLine (env : ListingContext) (linenum : Nat) (p : Text) : ListingProgram Bool := do
  let p := p.dropWhile Char.isDigit
  modify fun s => { s with
    maxlin := max (max s.maxlin (UInt32.ofNat s.pos.line)) (UInt32.ofNat linenum) }
  modify (listFile env true)
  modify fun s => { s with donotlist := true }
  let goesOn ← if white (cur p) ∧ skipBlanks p ≠ [] then fakeFileName env (skipBlanks p) else pure true
  if goesOn then do
    modify fun s => { s with pos := ⟨linenum - 1, 0, 0⟩, lp := [] }
    pure true
  else pure false

/-- `ParseCppLineDirective`, behind the `#`. -/
def parseCppLineDirective (env : ListingContext) (p : Text) : ListingProgram Bool :=
  match cmphstr (skipBlanks p) "line".toList with
  | none => pure false
  | some p =>
    let p := skipBlanks p
    if p = [] then pure false
    else if env.lijst || env.extraErrorWarningPrefix then do
      listingError "#line does not work inside macro/dup/lua block" none .suppress
      pure false
    else
      let linenum := if (cur p).isDigit then atoi p else -1
      if linenum ≤ 0 then do
        listingError "#line: positive integer expected" (some p) .suppress
        pure false
      else setFakeLine env linenum.toNat p

end Sjasmplus
