import Sjasmplus.Diagnostics
import Sjasmplus.Lib.Abstraction
import Sjasmplus.Text

/-!
# Reading source lines (`ReadBufData` and `ReadBufLine` of `sjio.cpp`)

A source is read in blocks.  `readBufLine` takes the next line from the current block, split at
colons or not as its caller wants, and `readBufData` gets the next block when the current one is used
up; it also looks for the marker of an encoding while the first line is read.  What the assembler does
with the lines is a strategy here: it sees the lines so far, and asks for the next one or stops.
-/

namespace Sjasmplus

open Program

/-! ### The state -/

/-- `TextFilePos`, without the name of the file. -/
structure TextFilePos where
  line : Nat
  colBegin : Nat
  colEnd : Nat
deriving DecidableEq, Repr

/-- `TextFilePos::nextSegment`. -/
def TextFilePos.nextSegment (pos : TextFilePos) (endsWithColon : Bool) (advanceColumns : Nat) :
    TextFilePos :=
  let colEnd := if endsWithColon ∧ pos.colEnd = 0 then 1 else pos.colEnd
  { line := if colEnd ≤ 1 then pos.line + 1 else pos.line
    colBegin := colEnd
    colEnd := if endsWithColon then colEnd + advanceColumns else 0 }

/-- What the scanner of a line knows: `line` up to `rlppos`, the top of `sourcePosStack`, and the
globals that stay from line to line. -/
structure LineState where
  line : Text
  pos : TextFilePos
  blockComment : Nat
  colonSubline : Bool
  eolComment : Option Nat
deriving DecidableEq, Repr

/-- A line as it is handed over for processing. -/
structure LineRead where
  line : Text
  eolComment : Option Nat
  pos : TextFilePos
deriving DecidableEq, Repr

/-- The reader: the rest of the current block, the blocks that further reads give, the scanner, the
lines so far and the errors.  `opened` and `lateMarker` are only noted: a block was read, and a marker
was found in another block than the first. -/
structure ReadState where
  rlpbuf : Text
  blocks : List Text
  opened : Bool
  lateMarker : Bool
  scan : LineState
  lines : List LineRead
  log : List Event

/-- A function that reads from the source; a fatal error ends it. -/
abbrev ReadProgram := Program ReadState

/-- An update of the scanner. -/
def modifyScan (f : LineState → LineState) : ReadProgram Unit :=
  modify fun s => { s with scan := f s.scan }

/-- `Error` with a fatal error. -/
def fatalError (message : String) (badValueMessage : Option Text) : ReadProgram Bool := do
  modify fun s => { s with log := s.log ++ [.error message badValueMessage .fatal] }
  exit

/-! ### Blocks -/

/-- `UtfBomMarkers`. -/
def utfBomMarkers : List (String × Text) := [
  ("UTF8", ['\xEF', '\xBB', '\xBF']),
  ("UTF32BE", ['\x00', '\x00', '\xFE', '\xFF']),
  ("UTF32LE", ['\xFF', '\xFE', '\x00', '\x00']),
  ("UTF16BE", ['\xFE', '\xFF']),
  ("UTF16LE", ['\xFF', '\xFE'])]

/-- The loop over the markers: the block behind the marker of UTF-8, or the name of another one. -/
def detectMarker : List (String × Text) → Text → Except String Text
  | [], rlpbuf => .ok rlpbuf
  | (name, marker) :: markers, rlpbuf =>
    if marker <+: rlpbuf then
      if name ≠ "UTF8" then .error name else detectMarker markers (rlpbuf.drop marker.length)
    else detectMarker markers rlpbuf

/-- The block starts with one of the markers. -/
def HasMarker (block : Text) : Prop := ∃ marker ∈ utfBomMarkers, marker.2 <+: block

instance (block : Text) : Decidable (HasMarker block) :=
  inferInstanceAs (Decidable (∃ marker ∈ utfBomMarkers, marker.2 <+: block))

/-- `ReadBufData`: there is a character to read, in the current block or in the next one. -/
def readBufData : ReadProgram Bool := do
  let s ← get
  if lineMax - 2 ≤ s.scan.line.length then fatalError "Line too long" none
  else if s.rlpbuf ≠ [] then pure true
  else
    match s.blocks with
    | [] => do
      modify fun s => { s with opened := true }
      pure false
    | block :: blocks => do
      modify fun s => { s with
        rlpbuf := block
        blocks := blocks
        opened := true
        lateMarker := s.lateMarker || (s.opened && s.scan.pos.line = 0 && HasMarker block) }
      if s.scan.pos.line ≠ 0 then pure (block ≠ [])
      else
        match detectMarker utfBomMarkers block with
        | .error name =>
          fatalError "Invalid UTF encoding detected (only ASCII and UTF8 works)" (some name.toList)
        | .ok block => do
          modify fun s => { s with rlpbuf := block }
          pure (block ≠ [])

/-- The next character, when there is one. -/
def peek : ReadProgram (Option Char) := do
  if ← readBufData then asks fun s => s.rlpbuf.head? else pure none

/-- Take the next character when it meets `p`. -/
def accept (p : Char → Bool) : ReadProgram (Option Char) := do
  match ← peek with
  | some c =>
    if p c then do
      modify fun s => { s with rlpbuf := s.rlpbuf.tail }
      pure (some c)
    else pure none
  | none => pure none

/-- How many characters are left: enough turns for a loop that takes one every time. -/
def remaining (s : ReadState) : Nat := s.rlpbuf.length + s.blocks.flatten.length

/-! ### Parts of a line -/

/-- Confirm a character in `line`. -/
def push (c : Char) : ReadProgram Unit :=
  modifyScan fun scan => { scan with line := scan.line ++ [c] }

/-- `'\r' == *rlpbuf || '\n' == *rlpbuf`. -/
def isEol (c : Char) : Bool := c = '\r' || c = '\n'

/-- Skip the end of a line, of one or two characters. -/
def skipEol : ReadProgram Bool := do
  match ← accept isEol with
  | some c => do
    let _ ← accept (· = if c = '\r' then '\n' else '\r')
    pure true
  | none => pure false

/-- A turn of `copyWhile`. -/
def copyTurn (p : Char → Bool) (_ : Unit) : ReadProgram (Unit ⊕ Unit) := do
  match ← accept p with
  | some c => do
    push c
    pure (.inl ())
  | none => pure (.inr ())

/-- Copy characters as long as they meet `p`. -/
def copyWhile (p : Char → Bool) : ReadProgram Unit := whileLoop remaining (copyTurn p) ()

/-- Copy a character when it meets `p`. -/
def acceptPush (p : Char → Bool) : ReadProgram Bool := do
  match ← accept p with
  | some c => do
    push c
    pure true
  | none => pure false

/-- The character behind the `+` of a label. -/
def readSmcOffset (smc : Bool) : ReadProgram Bool :=
  if smc then acceptPush fun c => c.isDigit || c = '*' else pure false

/-- What may follow a character of a label: `+` with one more character, and a colon.  The result
says whether the label goes on. -/
def readLabelEnd : ReadProgram Bool := do
  let smc ← acceptPush (· = '+')
  let _ ← readSmcOffset smc
  let colon ← acceptPush (· = ':')
  pure (!smc && !colon)

/-- A turn of the loop over a string literal, with `escaped` and a character that is not confirmed
yet. -/
def stringTurn (quotes : Char) : Nat × Char → ReadProgram ((Nat × Char) ⊕ Unit)
  | (escaped, c) => do
    let escaped := escaped - 1
    push c
    match ← accept fun c => c ≠ '\x00' && !isEol c with
    | none => pure (.inr ())
    | some c =>
      let escaped := if quotes = '"' ∧ escaped = 0 ∧ c = '\\' then 2 else escaped
      if escaped ≠ 0 ∨ c ≠ quotes then pure (.inl (escaped, c))
      else do
        push c
        pure (.inr ())

/-- A string literal, from its first quote on. -/
def readString (quotes : Char) : ReadProgram Unit :=
  whileLoop remaining (stringTurn quotes) (0, quotes)

/-! ### Lines -/

/-- The variables of the main loop. -/
structure CopyState where
  isLabel : Bool
  afterNonAlphaNum : Bool

/-- A comment up to the end of the line. -/
def readComment (c : Char) : ReadProgram Unit := do
  modifyScan fun scan => { scan with eolComment := some scan.line.length }
  push c
  copyWhile fun c => !isEol c

/-- `';' == *rlppos || ('/' == *rlppos && ReadBufData() && '/' == *rlpbuf)`. -/
def startsComment (c : Char) : ReadProgram Bool :=
  if c = '/' then do
    let next ← peek
    pure (next = some '/')
  else pure (c = ';')

/-- A character that is neither a part of a label nor of a comment. -/
def copyPlain (c : Char) (afterNonAlphaNum : Bool) : ReadProgram Unit :=
  if afterNonAlphaNum ∧ (c = '"' ∨ c = '\'') then readString c else push c

/-- A character outside of block comments.  The result says whether the label goes on. -/
def copyCode (c : Char) (isLabel afterNonAlphaNum : Bool) : ReadProgram Bool := do
  if isLabel && islabchar c then do
    push c
    readLabelEnd
  else if ← startsComment c then do
    readComment c
    pure false
  else do
    copyPlain c afterNonAlphaNum
    pure false

/-- Behind `*`: the end of a block comment, or of nothing. -/
def closeComment (c : Char) : ReadProgram Bool :=
  if c = '*' then do
    match ← accept (· = '/') with
    | some slash => do
      modifyScan fun scan => { scan with blockComment := scan.blockComment - 1 }
      push c
      push slash
      pure true
    | none => pure false
  else pure false

/-- Behind `/`: the start of a block comment. -/
def openComment (c : Char) : ReadProgram Bool :=
  if c = '/' then do
    match ← accept (· = '*') with
    | some star => do
      modifyScan fun scan => { scan with blockComment := scan.blockComment + 1 }
      push c
      push star
      pure true
    | none => pure false
  else pure false

/-- Behind a backslash: an end of line that does not end the line. -/
def escapeEol (c : Char) : ReadProgram Bool :=
  if c = '\\' then do
    match ← skipEol with
    | true => do
      modifyScan fun scan => { scan with pos := scan.pos.nextSegment false 0 }
      pure true
    | false => pure false
  else pure false

/-- A turn of the main loop, behind the character that it takes.  The result says whether the label
goes on. -/
def copyChar (c : Char) (isLabel afterNonAlphaNum : Bool) : ReadProgram Bool := do
  if ← escapeEol c then pure isLabel
  else if ← closeComment c then pure isLabel
  else if ← openComment c then pure isLabel
  else if (← asks fun s => s.scan.blockComment) ≠ 0 then do
    push c
    pure isLabel
  else copyCode c isLabel afterNonAlphaNum

/-- The test and the body of the main loop. -/
def lineTurn (splitByColon : Bool) (state : CopyState) : ReadProgram (CopyState ⊕ Unit) := do
  let scan ← asks fun s => s.scan
  let next ← accept fun c => !isEol c &&
    (scan.blockComment ≠ 0 || !splitByColon || scan.line = [] || c ≠ ':')
  match next with
  | none => pure (.inr ())
  | some c => do
    let isLabel ← copyChar c state.isLabel state.afterNonAlphaNum
    pure (.inl ⟨isLabel, !c.isAlphanum⟩)

/-- The main loop of `ReadBufLine`, up to the end of the line or to a colon that splits it. -/
def copyLine (splitByColon isLabel : Bool) : ReadProgram Unit :=
  whileLoop remaining (lineTurn splitByColon) ⟨isLabel, true⟩

/-- A line that starts behind a colon: it may be a tag for `SIZEOF`. -/
def startSubline : ReadProgram Bool := do
  modifyScan fun scan => { scan with colonSubline := false }
  push ' '
  let _ ← acceptPush (· = '.')
  match ← accept (· = ':') with
  | some c => do
    modifyScan fun scan => { scan with line := ':' :: scan.line.tail ++ [c] }
    pure true
  | none => pure false

/-- The indentation in front of a label: the columns that are discarded, and whether a label may
follow. -/
def readIndentation : ReadProgram (Nat × Bool) := do
  copyWhile fun c => c = ' ' || c = '\t'
  let whitespace ← asks fun s => s.scan.line.length
  if (← accept (· = '>')).isSome then do
    modifyScan fun scan => { scan with line := [] }
    pure (1 + whitespace, true)
  else pure (0, whitespace = 0)

/-- `if (!ReadBufData() && *line) *rlpbuf_end++ = '\n'`. -/
def addFakeEol : ReadProgram Unit := do
  if ← readBufData then pure ()
  else modify fun s =>
    if cur s.scan.line ≠ '\x00' then { s with rlpbuf := s.rlpbuf ++ ['\n'] } else s

/-- The colon that split a line. -/
def skipColon (splitByColon sizeofTag : Bool) : ReadProgram (Option Char) :=
  if !sizeofTag && splitByColon then accept (· = ':') else pure none

/-- The end of a line: the characters of its end, or the colon that split it. -/
def endLine (splitByColon sizeofTag : Bool) : ReadProgram Unit := do
  if ← skipEol then addFakeEol
  else do
    let colon ← skipColon splitByColon sizeofTag
    modifyScan fun scan => { scan with colonSubline := sizeofTag || colon.isSome }

/-- The position of the next line. -/
def nextPosition (sizeofTag : Bool) (indentedColumns : Nat) (scan : LineState) : TextFilePos :=
  let advanceColumns := if scan.colonSubline then
      (if scan.pos.colEnd = 0 then 1 else 0) + (scan.line.length - sizeofTag.toNat) + indentedColumns
    else 0
  scan.pos.nextSegment scan.colonSubline advanceColumns

/-- A line up to its end, behind the characters at its start. -/
def readRest (splitByColon isLabel sizeofTag : Bool) (indentedColumns : Nat) :
    ReadProgram Unit := do
  when (!sizeofTag) (copyLine splitByColon isLabel)
  endLine splitByColon sizeofTag
  modifyScan fun scan => { scan with pos := nextPosition sizeofTag indentedColumns scan }

/-- A line behind a colon, or a real new line. -/
def readSegment (splitByColon : Bool) : ReadProgram Unit := do
  modifyScan fun scan => { scan with line := [], eolComment := none }
  let scan ← asks fun s => s.scan
  if scan.colonSubline then do
    let sizeofTag ← startSubline
    readRest splitByColon false sizeofTag 0
  else if scan.blockComment = 0 ∧ splitByColon then do
    let (indentedColumns, isLabel) ← readIndentation
    readRest splitByColon isLabel false indentedColumns
  else readRest splitByColon (scan.blockComment = 0) false 0

/-- A turn of `ReadBufLine`: the next line, when there is one. -/
def readBufLine (splitByColon : Bool) : ReadProgram Bool := do
  if ← readBufData then do
    readSegment splitByColon
    modify fun s =>
      { s with lines := s.lines ++ [⟨s.scan.line, s.scan.eolComment, s.scan.pos⟩] }
    pure true
  else pure false

/-- What the assembler wants to read next behind the lines so far: a line, split at colons or not, or
nothing. -/
abbrev ReadStrategy := List LineRead → Option Bool

/-- The reading of a source, up to a number of lines. -/
def readLines (strategy : ReadStrategy) : Nat → ReadProgram Unit
  | 0 => pure ()
  | count + 1 => do
    match strategy (← asks fun s => s.lines) with
    | none => pure ()
    | some splitByColon =>
      if ← readBufLine splitByColon then readLines strategy count else pure ()

/-- `OpenFile`: the state in front of the first read. -/
def openFile (blocks : List Text) : ReadState :=
  ⟨[], blocks, false, false, ⟨[], ⟨0, 0, 0⟩, 0, false, none⟩, [], []⟩

/-! ### Every loop ends -/

/-- What `ReadBufData` does, case by case. -/
theorem exec_readBufData (s : ReadState) : readBufData.exec s =
    if lineMax - 2 ≤ s.scan.line.length then
      (none, { s with log := s.log ++ [.error "Line too long" none .fatal] })
    else if s.rlpbuf ≠ [] then (some true, s)
    else
      match s.blocks with
      | [] => (some false, { s with opened := true })
      | block :: blocks =>
        let s' := { s with
          rlpbuf := block
          blocks := blocks
          opened := true
          lateMarker := s.lateMarker || (s.opened && s.scan.pos.line = 0 && HasMarker block) }
        if s.scan.pos.line ≠ 0 then (some (block ≠ []), s')
        else
          match detectMarker utfBomMarkers block with
          | .error name =>
            (none, { s' with log := s.log ++
              [.error "Invalid UTF encoding detected (only ASCII and UTF8 works)" (some name.toList)
                .fatal] })
          | .ok behind => (some (behind ≠ []), { s' with rlpbuf := behind }) := by
  obtain ⟨rlpbuf, blocks, opened, lateMarker, scan, lines, log⟩ := s
  rw [readBufData, exec_bind_of_some (exec_get _)]
  dsimp only
  -- the tests in the order of the source: a long line, a buffer with text in it, the next block
  by_cases hlong : lineMax - 2 ≤ scan.line.length
  · rw [if_pos hlong, if_pos hlong]
    rfl
  · rw [if_neg hlong, if_neg hlong]
    by_cases hbuf : rlpbuf ≠ []
    · rw [if_pos hbuf, if_pos hbuf]
      rfl
    · rw [if_neg hbuf, if_neg hbuf]
      cases blocks with
      | nil => rfl
      | cons block blocks =>
        dsimp only
        rw [exec_bind_of_some (exec_modify _ _)]
        by_cases hline : scan.pos.line ≠ 0
        · rw [if_pos hline, if_pos hline]
          rfl
        · rw [if_neg hline, if_neg hline]
          cases detectMarker utfBomMarkers block with
          | error name => rfl
          | ok behind => rfl

/-- No more of the source is left than before. -/
def NotLonger (s t : ReadState) : Prop := remaining t ≤ remaining s

instance : Std.Refl NotLonger := ⟨fun s => Nat.le_refl (remaining s)⟩

instance : IsTrans ReadState NotLonger := ⟨fun _ _ _ hst htu => Nat.le_trans htu hst⟩

/-- Nothing is added to a block when a marker is taken off. -/
theorem length_detectMarker_le {markers : List (String × Text)} {block behind : Text}
    (h : detectMarker markers block = .ok behind) : behind.length ≤ block.length := by
  -- by induction on the markers
  induction markers generalizing block with
  | nil =>
    obtain rfl : block = behind := by
      injection h
    exact Nat.le_refl _
  | cons marker markers ih =>
    obtain ⟨name, marker⟩ := marker
    rw [detectMarker] at h
    split_ifs at h
    · have hdrop := ih h
      rw [List.length_drop] at hdrop
      omega
    · exact ih h

theorem keeps_readBufData : Keeps NotLonger readBufData := by
  intro s
  obtain ⟨rlpbuf, blocks, opened, lateMarker, scan, lines, log⟩ := s
  rw [final, exec_readBufData]
  dsimp only
  by_cases hlong : lineMax - 2 ≤ scan.line.length
  · rw [if_pos hlong]
    exact Nat.le_refl _
  · rw [if_neg hlong]
    by_cases hbuf : rlpbuf ≠ []
    · rw [if_pos hbuf]
      exact Nat.le_refl _
    · rw [if_neg hbuf]
      obtain rfl := not_not.mp hbuf
      cases blocks with
      | nil => exact Nat.le_refl _
      | cons block blocks =>
        -- a block moves into the buffer, and nothing is added to it
        have hread : ∀ rlpbuf' : Text, rlpbuf'.length ≤ block.length →
            rlpbuf'.length + blocks.flatten.length
              ≤ ([] : Text).length + (block :: blocks).flatten.length := by
          intro rlpbuf' hle
          rw [List.flatten_cons, List.length_append, List.length_nil, Nat.zero_add]
          exact Nat.add_le_add_right hle _
        dsimp only
        by_cases hline : scan.pos.line ≠ 0
        · rw [if_pos hline]
          exact hread block (Nat.le_refl _)
        · rw [if_neg hline]
          cases hmarker : detectMarker utfBomMarkers block with
          | error name => exact hread block (Nat.le_refl _)
          | ok behind => exact hread behind (length_detectMarker_le hmarker)

/-- A relation that is kept by `ReadBufData`, by taking a character and by updates of the scanner. -/
structure KeptByReading (R : ReadState → ReadState → Prop) : Prop where
  data : Keeps R readBufData
  take : ∀ s, R s { s with rlpbuf := s.rlpbuf.tail }
  scan : ∀ (f : LineState → LineState) s, R s { s with scan := f s.scan }

theorem notLonger_kept : KeptByReading NotLonger where
  data := keeps_readBufData
  take s := by
    unfold NotLonger remaining
    dsimp only
    rw [List.length_tail]
    omega
  scan _ s := Nat.le_refl (remaining s)

section Keeps

variable {R : ReadState → ReadState → Prop}

theorem keeps_modifyScan (hR : KeptByReading R) (f : LineState → LineState) : Keeps R (modifyScan f) :=
  Keeps.modify (hR.scan f)

theorem keeps_push (hR : KeptByReading R) (c : Char) : Keeps R (push c) := keeps_modifyScan hR _

variable [Std.Refl R] [IsTrans ReadState R]

theorem keeps_peek (hR : KeptByReading R) : Keeps R peek :=
  hR.data.bind fun _ => Keeps.ite (Keeps.asks _) (Keeps.pure _)

theorem keeps_accept (hR : KeptByReading R) (p : Char → Bool) : Keeps R (accept p) := by
  apply (keeps_peek hR).bind
  intro c
  cases c with
  | none => exact Keeps.pure none
  | some c => exact Keeps.ite ((Keeps.modify hR.take).bind fun _ => Keeps.pure _) (Keeps.pure none)

theorem keeps_copyTurn (hR : KeptByReading R) (p : Char → Bool) (u : Unit) :
    Keeps R (copyTurn p u) := by
  apply (keeps_accept hR p).bind
  intro c
  cases c with
  | none => exact Keeps.pure _
  | some c => exact (keeps_push hR c).bind fun _ => Keeps.pure _

theorem keeps_copyWhile (hR : KeptByReading R) (p : Char → Bool) : Keeps R (copyWhile p) :=
  Keeps.whileLoop (keeps_copyTurn hR p) ()

/-- The rest of a turn over a string, behind a character that is not confirmed yet. -/
theorem keeps_stringTurn_rest (hR : KeptByReading R) (quotes c : Char) (escaped : Nat) :
    Keeps R
      (if escaped ≠ 0 ∨ c ≠ quotes then pure (.inl (escaped, c))
      else do
        push c
        pure (.inr ()) : ReadProgram ((Nat × Char) ⊕ Unit)) :=
  Keeps.ite (Keeps.pure _) ((keeps_push hR c).bind fun _ => Keeps.pure _)

theorem keeps_stringTurn (hR : KeptByReading R) (quotes : Char) (state : Nat × Char) :
    Keeps R (stringTurn quotes state) := by
  apply (keeps_push hR state.2).bind
  intro _
  apply (keeps_accept hR _).bind
  intro c
  cases c with
  | none => exact Keeps.pure _
  | some c => exact keeps_stringTurn_rest hR quotes c _

theorem keeps_readString (hR : KeptByReading R) (quotes : Char) : Keeps R (readString quotes) :=
  Keeps.whileLoop (keeps_stringTurn hR quotes) _

theorem keeps_skipEol (hR : KeptByReading R) : Keeps R skipEol := by
  apply (keeps_accept hR isEol).bind
  intro c
  cases c with
  | none => exact Keeps.pure false
  | some c => exact (keeps_accept hR _).bind fun _ => Keeps.pure true

theorem keeps_acceptPush (hR : KeptByReading R) (p : Char → Bool) : Keeps R (acceptPush p) := by
  apply (keeps_accept hR p).bind
  intro c
  cases c with
  | none => exact Keeps.pure false
  | some c => exact (keeps_push hR c).bind fun _ => Keeps.pure true

theorem keeps_readLabelEnd (hR : KeptByReading R) : Keeps R readLabelEnd :=
  (keeps_acceptPush hR _).bind fun _ =>
    (Keeps.ite (keeps_acceptPush hR _) (Keeps.pure false)).bind fun _ =>
      (keeps_acceptPush hR _).bind fun _ => Keeps.pure _

theorem keeps_readComment (hR : KeptByReading R) (c : Char) : Keeps R (readComment c) :=
  (keeps_modifyScan hR _).bind fun _ => (keeps_push hR c).bind fun _ => keeps_copyWhile hR _

theorem keeps_copyCode (hR : KeptByReading R) (c : Char) (isLabel afterNonAlphaNum : Bool) :
    Keeps R (copyCode c isLabel afterNonAlphaNum) := by
  apply Keeps.ite
  · exact (keeps_push hR c).bind fun _ => keeps_readLabelEnd hR
  · apply (Keeps.ite ((keeps_peek hR).bind fun _ => Keeps.pure _) (Keeps.pure _)).bind
    intro _
    apply Keeps.ite
    · exact (keeps_readComment hR c).bind fun _ => Keeps.pure false
    · exact (Keeps.ite (keeps_readString hR c) (keeps_push hR c)).bind fun _ => Keeps.pure false

theorem keeps_escapeEol (hR : KeptByReading R) (c : Char) : Keeps R (escapeEol c) := by
  refine Keeps.ite ?_ (Keeps.pure false)
  apply (keeps_skipEol hR).bind
  intro escapes
  cases escapes with
  | true => exact (keeps_modifyScan hR _).bind fun _ => Keeps.pure true
  | false => exact Keeps.pure false

theorem keeps_closeComment (hR : KeptByReading R) (c : Char) : Keeps R (closeComment c) := by
  refine Keeps.ite ?_ (Keeps.pure false)
  apply (keeps_accept hR _).bind
  intro slash
  cases slash with
  | none => exact Keeps.pure false
  | some slash =>
    exact (keeps_modifyScan hR _).bind fun _ => (keeps_push hR c).bind fun _ =>
      (keeps_push hR slash).bind fun _ => Keeps.pure true

theorem keeps_openComment (hR : KeptByReading R) (c : Char) : Keeps R (openComment c) := by
  refine Keeps.ite ?_ (Keeps.pure false)
  apply (keeps_accept hR _).bind
  intro star
  cases star with
  | none => exact Keeps.pure false
  | some star =>
    exact (keeps_modifyScan hR _).bind fun _ => (keeps_push hR c).bind fun _ =>
      (keeps_push hR star).bind fun _ => Keeps.pure true

theorem keeps_copyChar (hR : KeptByReading R) (c : Char) (isLabel afterNonAlphaNum : Bool) :
    Keeps R (copyChar c isLabel afterNonAlphaNum) := by
  apply (keeps_escapeEol hR c).bind
  intro _
  refine Keeps.ite (Keeps.pure _) ?_
  apply (keeps_closeComment hR c).bind
  intro _
  refine Keeps.ite (Keeps.pure _) ?_
  apply (keeps_openComment hR c).bind
  intro _
  refine Keeps.ite (Keeps.pure _) ?_
  refine (Keeps.asks _).bind fun _ => ?_
  exact Keeps.ite ((keeps_push hR c).bind fun _ => Keeps.pure _) (keeps_copyCode hR c _ _)

end Keeps

/-! ### What lines keep -/

/-- A relation that is kept by whole lines: by the line end that is added too, and by handing over the
line. -/
structure KeptByLines (R : ReadState → ReadState → Prop) : Prop extends KeptByReading R where
  eol : ∀ s, R s { s with rlpbuf := s.rlpbuf ++ ['\n'] }
  lines : ∀ lines s, R s { s with lines := lines }

section Lines

variable {R : ReadState → ReadState → Prop} [Std.Refl R] [IsTrans ReadState R]

theorem keeps_copyLine (hR : KeptByReading R) (splitByColon isLabel : Bool) :
    Keeps R (copyLine splitByColon isLabel) := by
  refine Keeps.whileLoop (fun state => ?_) _
  refine (Keeps.asks _).bind fun scan => (keeps_accept hR _).bind fun next => ?_
  cases next with
  | none => exact Keeps.pure _
  | some c => exact (keeps_copyChar hR c _ _).bind fun _ => Keeps.pure _

theorem keeps_startSubline (hR : KeptByReading R) : Keeps R startSubline := by
  refine (keeps_modifyScan hR _).bind fun _ => (keeps_push hR ' ').bind fun _ =>
    (keeps_acceptPush hR _).bind fun _ => (keeps_accept hR _).bind fun colon => ?_
  cases colon with
  | none => exact Keeps.pure false
  | some c => exact (keeps_modifyScan hR _).bind fun _ => Keeps.pure true

theorem keeps_readIndentation (hR : KeptByReading R) : Keeps R readIndentation := by
  refine (keeps_copyWhile hR _).bind fun _ => (Keeps.asks _).bind fun whitespace =>
    (keeps_accept hR _).bind fun indentation => ?_
  exact Keeps.ite ((keeps_modifyScan hR _).bind fun _ => Keeps.pure _) (Keeps.pure _)

theorem keeps_addFakeEol (hR : KeptByLines R) : Keeps R addFakeEol := by
  refine hR.data.bind fun data => Keeps.ite (Keeps.pure _) (Keeps.modify fun s => ?_)
  split_ifs
  · exact hR.eol s
  · exact refl s

theorem keeps_endLine (hR : KeptByLines R) (splitByColon sizeofTag : Bool) :
    Keeps R (endLine splitByColon sizeofTag) := by
  refine (keeps_skipEol hR.1).bind fun eol => Keeps.ite (keeps_addFakeEol hR) ?_
  exact (Keeps.ite (keeps_accept hR.1 _) (Keeps.pure none)).bind fun _ => keeps_modifyScan hR.1 _

theorem keeps_readRest (hR : KeptByLines R) (splitByColon isLabel sizeofTag : Bool)
    (indentedColumns : Nat) :
    Keeps R (readRest splitByColon isLabel sizeofTag indentedColumns) :=
  (Keeps.when (keeps_copyLine hR.1 splitByColon isLabel)).bind fun _ =>
    (keeps_endLine hR splitByColon sizeofTag).bind fun _ => keeps_modifyScan hR.1 _

theorem keeps_readSegment (hR : KeptByLines R) (splitByColon : Bool) :
    Keeps R (readSegment splitByColon) := by
  refine (keeps_modifyScan hR.1 _).bind fun _ => (Keeps.asks _).bind fun scan => ?_
  refine Keeps.ite ((keeps_startSubline hR.1).bind fun _ => keeps_readRest hR _ _ _ _) ?_
  exact Keeps.ite ((keeps_readIndentation hR.1).bind fun _ => keeps_readRest hR _ _ _ _)
    (keeps_readRest hR _ _ _ _)

theorem keeps_readBufLine (hR : KeptByLines R) (splitByColon : Bool) :
    Keeps R (readBufLine splitByColon) := by
  refine hR.data.bind fun data => Keeps.ite ?_ (Keeps.pure _)
  exact (keeps_readSegment hR splitByColon).bind fun _ =>
    Keeps.bind (Keeps.modify fun s => hR.lines _ s) fun _ => Keeps.pure true

end Lines

/-! ### Loops end -/

/-- A character that is accepted was taken from the source. -/
theorem ensures_accept (p : Char → Bool) (s : ReadState) :
    Ensures (accept p) s fun c t => remaining t + c.toList.length ≤ remaining s := by
  -- a character that is seen is in the buffer
  have hpeek : Ensures peek s fun c t => NotLonger s t ∧ ∀ d, c = some d → t.rlpbuf ≠ [] := by
    refine (Ensures.of_keeps (keeps_peek notLonger_kept)).and (Ensures.after ?_)
    intro data t
    refine Ensures.ite ?_ ?_
    · intro _
      refine Ensures.of_exec (exec_asks _ t) ?_
      intro d hd hnil
      rw [hnil] at hd
      cases hd
    · exact fun _ => Ensures.pure nofun
  refine hpeek.bind ?_
  rintro c t ⟨hle, hsome⟩
  cases c with
  | none => exact Ensures.pure hle
  | some c =>
    refine Ensures.ite ?_ ?_
    · intro _
      refine Ensures.modify_bind (Ensures.pure ?_)
      have hlength := List.length_pos_iff.mpr (hsome c rfl)
      unfold NotLonger remaining at hle
      simp only [remaining, List.length_tail, Option.toList_some, List.length_singleton]
      omega
    · exact fun _ => Ensures.pure hle

/-- Behind a character that was taken, a turn may go on. -/
theorem ensures_shorter {α β : Type} {rest : ReadProgram (β ⊕ α)} {s t : ReadState}
    (hrest : Keeps NotLonger rest) (h : remaining t < remaining s) :
    Ensures rest t fun turn u => turn.isLeft → remaining u < remaining s :=
  (Ensures.of_keeps hrest).mono fun _ _ hle _ => Nat.lt_of_le_of_lt hle h

theorem descends_copyTurn (p : Char → Bool) : Descends remaining (copyTurn p) := by
  intro _ s
  refine (ensures_accept p s).bind ?_
  intro c t hlength
  cases c with
  | none => exact Ensures.pure nofun
  | some c => exact ensures_shorter ((keeps_push notLonger_kept c).bind fun _ => Keeps.pure _) hlength

theorem descends_lineTurn (splitByColon : Bool) : Descends remaining (lineTurn splitByColon) := by
  intro state s
  refine Ensures.asks_bind ?_
  refine (ensures_accept _ _).bind ?_
  intro c t hlength
  cases c with
  | none => exact Ensures.pure nofun
  | some c =>
    exact ensures_shorter ((keeps_copyChar notLonger_kept c _ _).bind fun _ => Keeps.pure _) hlength

end Sjasmplus
