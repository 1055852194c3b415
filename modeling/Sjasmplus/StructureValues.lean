import Sjasmplus.StructureLayout

/-!
# The text of instances

What the text of an instance gives to the members: a value is that of the expression at the text, or the
default where there is none; a text is what its elements give, in braces, and then the bytes of the
default.  A member goes on where the one in front of it and its comma ended, in braces on the next line
that is not blank (`Gives`).  Errors in the elements of a text are left out: what is said of a program is
said of the runs in which it reports none (`Quietly`).
-/

namespace Sjasmplus

open Parsing ParseFn Program AsmState AsmProgram

variable {n m : Nat}

/-! ### What is left of the source -/

/-- The text that is left of a line, and the lines behind it. -/
abbrev Source := Text × List SourceLine

/-- From the next character on that is not blank, on the same line or on a later one. -/
def nonBlank (p : Text) : List SourceLine → Source
  | [] => (Sjasmplus.skipBlanks p, [])
  | line :: lines =>
    if cur (Sjasmplus.skipBlanks p) = '\x00' then nonBlank line.substituted lines
    else (Sjasmplus.skipBlanks p, line :: lines)

/-- The text behind a comma, if there is one. -/
def behindComma (p : Text) : Text :=
  if cur (Sjasmplus.skipBlanks p) = ',' then (Sjasmplus.skipBlanks p).tail else Sjasmplus.skipBlanks p

/-- A comma at the text; a double comma is none. -/
def IsComma (p : Text) : Prop :=
  cur (Sjasmplus.skipBlanks p) = ',' ∧ cur (Sjasmplus.skipBlanks p).tail ≠ ','

instance (p : Text) : Decidable (IsComma p) := inferInstanceAs (Decidable (_ ∧ _))

namespace AsmState

/-- What is left of the source. -/
def source (s : AsmState n m) : Source := (s.lp, s.lines)

/-- The state at the next character that is not blank. -/
def nextText (s : AsmState n m) : AsmState n m := (AsmProgram.prepareNonBlankMultiLine).final s

end AsmState

/-! ### Values -/

/-- The value that the text gives to a member: that of the expression, the default without one.  A brace
belongs to a later member. -/
def valueAt (s : AsmState n m) (default : Aint) : Aint :=
  let p := Sjasmplus.skipBlanks s.lp
  if cur p = '\x7b' then default else (evaluate (s.exprEnv false) p).getD default

/-- The text behind the value of a member. -/
def behindValue (s : AsmState n m) : Text :=
  let p := Sjasmplus.skipBlanks s.lp
  if cur p = '\x7b' then p else (parseExpressionEntry (s.exprEnv false) p).rest

/-- The bytes of a value, the low one first. -/
def valueBytes (type : ValueType) (val : Aint) : List Byte :=
  (List.range type.size).map fun i => (val >>> (8 * i)).setWidth 8

/-! ### Texts -/

/-- The bytes of the string literal at a text.  A single character that goes on is an expression. -/
def literalAt (room : Nat) (p : Text) : Option (List Byte) :=
  let o := getCharConstAsString room 0 p
  let next := cur (Sjasmplus.skipBlanks o.rest)
  match o.val with
  | none => none
  | some (strRes, bytes) =>
    if 0 < strRes ∧ ¬(bytes.length = 1 ∧ next ≠ '\x00' ∧ next ≠ ',' ∧ next ≠ '\x7d') then
      some (bytes.map (BitVec.ofNat 8))
    else none

/-- The bytes of an element of a text, and the state behind it: those of a string literal, or the low
byte of an expression. -/
def elementAt (room : Nat) (s : AsmState n m) : Option (List Byte × AsmState n m) :=
  let t := (AsmProgram.read (getCharConstAsString room 0)).final s
  match literalAt room s.lp with
  | some bytes => some (bytes, t)
  | none =>
    let t := { t with lp := s.lp }
    (evaluate (t.exprEnv false) s.lp).map fun val =>
      let u := (AsmProgram.parseExpressionNoSyntaxError).final t
      ([val.setWidth 8], { u with log := u.log ++ check8 val })

/-- The elements of a text from a state on, with commas between them and perhaps one behind them, give
the bytes.  The other state is the one behind them. -/
inductive Elements : Nat → AsmState n m → List Byte → AsmState n m → Prop
  | stop {room : Nat} {s : AsmState n m} (h : cur s.nextText.lp = '\x7d' ∨ cur s.nextText.lp = '\x00') :
      Elements room s [] s.nextText
  | last {room : Nat} {s t : AsmState n m} {bytes : List Byte}
      (helement : elementAt room s.nextText = some (bytes, t)) (hcomma : ¬IsComma t.lp) :
      Elements room s bytes { t with lp := Sjasmplus.skipBlanks t.lp }
  | next {room : Nat} {s t u : AsmState n m} {bytes bytes' : List Byte}
      (helement : elementAt room s.nextText = some (bytes, t)) (hcomma : IsComma t.lp)
      (hrest : Elements (room - bytes.length)
        { t with lp := (Sjasmplus.skipBlanks t.lp).tail } bytes' u) :
      Elements room s (bytes ++ bytes') u

/-- The bytes that the text gives to a text member, and what is left of the source behind it: all bytes
are those of the default without a brace, and in braces the ones behind the elements. -/
inductive GivesText (default : List Byte) : AsmState n m → List Byte → Source → Prop
  | absent {s : AsmState n m} (h : cur (Sjasmplus.skipBlanks s.lp) ≠ '\x7b') :
      GivesText default s default (Sjasmplus.skipBlanks s.lp, s.lines)
  | braces {s t : AsmState n m} {bytes : List Byte} (h : cur (Sjasmplus.skipBlanks s.lp) = '\x7b')
      (helements : Elements default.length
        { s with
          lp := (Sjasmplus.skipBlanks s.lp).tail
          flags := { s.flags with isResultAffected := false } } bytes t)
      (hend : cur t.nextText.lp = '\x7d') :
      GivesText default s (bytes ++ default.drop bytes.length)
        (t.nextText.lp.tail, t.nextText.lines)

/-! ### Members -/

/-- The text behind a member and its comma; in front of a closing brace there is none. -/
def behindMember (rest : List StructureMember) (p : Text) : Text :=
  match rest with
  | [] => p
  | next :: _ => if next.kind ≠ .parenClose then behindComma p else p

/-- The byte of a block; without one it is 0. -/
def blockByte (default : Aint) : Byte := (if default ≠ -1 then default else 0).setWidth 8

/-- What the text gives to a member with the members behind it, from a state on with a number of open
braces: the bytes, the braces that are open behind it, and what is left of the source. -/
inductive Gives (rest : List StructureMember) (haakjes : Nat) (s : AsmState n m) :
    MemberKind → List Byte → Nat → Source → Prop
  | block (len default : Aint) :
      Gives rest haakjes s (.block len default) (List.replicate len.toInt.toNat (blockByte default))
        haakjes s.source
  | value (type : ValueType) (default : Aint) (defDeltaType : Relocation.EType) :
      Gives rest haakjes s (.value type default defDeltaType) (valueBytes type (valueAt s default))
        haakjes (behindMember rest (behindValue s), s.lines)
  | text {data bytes : List Byte} {left : Source} (h : GivesText data s bytes left) :
      Gives rest haakjes s (.text data) bytes haakjes (behindMember rest left.1, left.2)
  | opens (h : cur (Sjasmplus.skipBlanks s.lp) = '\x7b') :
      Gives rest haakjes s .parenOpen [] (haakjes + 1) ((Sjasmplus.skipBlanks s.lp).tail, s.lines)
  | noBrace (h : cur (Sjasmplus.skipBlanks s.lp) ≠ '\x7b') :
      Gives rest haakjes s .parenOpen [] haakjes (Sjasmplus.skipBlanks s.lp, s.lines)
  | closes (hopen : haakjes ≠ 0) (h : cur (Sjasmplus.skipBlanks s.lp) = '\x7d') :
      Gives rest haakjes s .parenClose [] (haakjes - 1)
        (behindMember rest (Sjasmplus.skipBlanks s.lp).tail, s.lines)
  | staysOpen (h : haakjes = 0 ∨ cur (Sjasmplus.skipBlanks s.lp) ≠ '\x7d') :
      Gives rest haakjes s .parenClose [] haakjes
        (behindMember rest (Sjasmplus.skipBlanks s.lp), s.lines)

/-! ### Runs without errors -/

/-- No message between the states is an error that the last pass reports. -/
def AddsNoError (s t : AsmState n m) : Prop := noError lastPass (t.log.drop s.log.length) = true

theorem AddsNoError.split {s t u : AsmState n m} (h : AddsNoError s u) (hst : s.log <+: t.log)
    (htu : t.log <+: u.log) : AddsNoError s t ∧ AddsNoError t u := by
  obtain ⟨l, hl⟩ := hst
  obtain ⟨l', hl'⟩ := htu
  unfold AddsNoError noError at *
  rw [← hl', ← hl, List.append_assoc, List.drop_left, List.all_append, Bool.and_eq_true] at h
  rw [← hl', ← hl, List.drop_left, List.drop_left]
  exact h

/-- Messages are only added, and unless one of them is an error the program ends as described. -/
def Quietly {α : Type} (p : AsmProgram n m α) (s : AsmState n m) (Q : α → AsmState n m → Prop) : Prop :=
  Ensures p s fun a t => s.log <+: t.log ∧ (AddsNoError s t → Q a t)

namespace Quietly

variable {α β : Type} {s : AsmState n m} {Q : α → AsmState n m → Prop}

theorem of_ensures {p : AsmProgram n m α} (hp : Keeps Evaluates p) (hQ : Ensures p s Q) :
    Quietly p s Q :=
  ((Ensures.of_keeps hp).and hQ).mono fun _ _ h => ⟨h.1.mode.log, fun _ => h.2⟩

theorem mono {p : AsmProgram n m α} {Q' : α → AsmState n m → Prop} (hp : Quietly p s Q)
    (h : ∀ a t, Q a t → Q' a t) : Quietly p s Q' :=
  Ensures.mono hp fun a t ht => ⟨ht.1, fun hquiet => h a t (ht.2 hquiet)⟩

theorem and {p : AsmProgram n m α} {R : α → AsmState n m → Prop} (hQ : Quietly p s Q)
    (hR : Quietly p s R) : Quietly p s fun a t => Q a t ∧ R a t :=
  (Ensures.and hQ hR).mono fun _ _ h => ⟨h.1.1, fun hquiet => ⟨h.1.2 hquiet, h.2.2 hquiet⟩⟩

theorem pure {a : α} (h : Q a s) : Quietly (pure a) s Q :=
  Ensures.pure ⟨List.prefix_rfl, fun _ => h⟩

/-- The second part starts as the first one ends without errors; behind an error it only adds
messages. -/
theorem bind {p : AsmProgram n m β} {f : β → AsmProgram n m α} {R : β → AsmState n m → Prop}
    (hp : Quietly p s R) (hkeeps : ∀ b, Keeps Evaluates (f b))
    (hf : ∀ b t, R b t → Quietly (f b) t Q) : Quietly (p >>= f) s Q := by
  refine Ensures.bind hp fun b t ht => ?_
  intro a u hexec
  have hlog : t.log <+: u.log := (Ensures.of_keeps (hkeeps b) a u hexec).mode.log
  refine ⟨ht.1.trans hlog, fun hquiet => ?_⟩
  obtain ⟨hst, htu⟩ := hquiet.split ht.1 hlog
  exact (hf b t (ht.2 hst) a u hexec).2 htu

/-- A first part that is known to return. -/
theorem bind_exec {p : AsmProgram n m β} {f : β → AsmProgram n m α} {b : β} {t : AsmState n m}
    (hp : p.exec s = (some b, t)) (hlog : s.log <+: t.log)
    (hf : Quietly (f b) t fun a u => AddsNoError s t → Q a u) : Quietly (p >>= f) s Q := by
  refine Ensures.bind (.of_exec hp (Q := fun b' t' => b' = b ∧ t' = t) ⟨rfl, rfl⟩) fun b' t' h => ?_
  obtain ⟨rfl, rfl⟩ := h
  refine Ensures.mono hf fun a u hu => ⟨hlog.trans hu.1, fun hquiet => ?_⟩
  obtain ⟨hst, htu⟩ := hquiet.split hlog hu.1
  exact hu.2 htu hst

theorem get_bind {f : AsmState n m → AsmProgram n m α} (hf : Quietly (f s) s Q) :
    Quietly (get >>= f) s Q :=
  Ensures.get_bind hf

theorem ite {c : Prop} {_ : Decidable c} {p q : AsmProgram n m α} (hp : c → Quietly p s Q)
    (hq : ¬c → Quietly q s Q) : Quietly (if c then p else q) s Q :=
  Ensures.ite hp hq

/-- Nothing is said of what comes behind an error. -/
theorem error_bind {f : Unit → AsmProgram n m α} {message : String} {badValueMessage : Option Text}
    {type : EStatus} (htype : type.active lastPass = true) (hf : Keeps Evaluates (f ())) :
    Quietly (error message badValueMessage type >>= f) s Q := by
  refine bind_exec (b := ()) (t := (error message badValueMessage type).final s) rfl
    (List.prefix_append _ _) ?_
  refine Ensures.mono (Ensures.of_keeps hf) fun a u hu => ⟨hu.mode.log, fun _ hquiet => ?_⟩
  have hlog : ((error message badValueMessage type).final s).log
      = s.log ++ [.error message badValueMessage type] := rfl
  rw [AddsNoError, hlog, List.drop_left] at hquiet
  simp [noError, Event.isError, htype] at hquiet

end Quietly

/-! ### Moving on in the source -/

/-- The same is left of the source. -/
def SameSource (s t : AsmState n m) : Prop := t.source = s.source

instance : Std.Refl (SameSource (n := n) (m := m)) := ⟨fun _ => rfl⟩

instance : IsTrans (AsmState n m) SameSource where
  trans _ _ _ h h' := h'.trans h

theorem exec_nonBlankLine (lines : List SourceLine) {s : AsmState n m} (hlines : s.lines = lines) :
    ∃ t, (nonBlankLine lines).exec s = (some !decide (cur t.lp = '\x00'), t) ∧
      t.source = nonBlank s.lp lines := by
  induction lines generalizing s with
  | nil => exact ⟨{ s with lp := Sjasmplus.skipBlanks s.lp }, rfl, Prod.ext rfl hlines⟩
  | cons line lines ih =>
    have hskip : AsmProgram.skipBlanks.exec s = (some (decide (cur (Sjasmplus.skipBlanks s.lp) = '\x00')),
        { s with lp := Sjasmplus.skipBlanks s.lp }) := rfl
    unfold nonBlankLine nonBlank
    rw [exec_bind_of_some hskip]
    by_cases hblank : cur (Sjasmplus.skipBlanks s.lp) = '\x00'
    · rw [if_pos (by simpa using hblank), if_pos hblank]
      exact ih (s := { { s with lp := line.substituted, lines := lines } with
        toEmitState := s.toEmitState.prepareLine }) rfl
    · rw [if_neg (by simpa using hblank), if_neg hblank]
      refine ⟨{ s with lp := Sjasmplus.skipBlanks s.lp }, ?_, Prod.ext rfl hlines⟩
      simp [hblank]

/-- `PrepareNonBlankMultiLine` moves to the next character that is not blank. -/
theorem exec_prepareNonBlankMultiLine (s : AsmState n m) :
    prepareNonBlankMultiLine.exec s = (some !decide (cur s.nextText.lp = '\x00'), s.nextText) := by
  obtain ⟨t, hexec, -⟩ := exec_nonBlankLine s.lines (s := s) rfl
  have hnext : s.nextText = t := by
    show (prepareNonBlankMultiLine.exec s).2 = t
    exact congrArg Prod.snd hexec
  rw [hnext]
  exact hexec

theorem source_nextText (s : AsmState n m) : s.nextText.source = nonBlank s.lp s.lines := by
  obtain ⟨t, hexec, hsource⟩ := exec_nonBlankLine s.lines (s := s) rfl
  rw [← hsource]
  exact congrArg AsmState.source (congrArg Prod.snd hexec)

theorem log_nextText (s : AsmState n m) : s.log <+: s.nextText.log := by
  have h : Evaluates s (prepareNonBlankMultiLine.final s) := evaluates_prepareNonBlankMultiLine s
  exact h.mode.log

theorem lines_noteLookup (s : AsmState n m) (e : Event) : (s.noteLookup e).lines = s.lines := by
  unfold noteLookup
  split
  · dsimp only
    split_ifs
    · cases hinsert : ({ s with isLabelNotFound := true } : AsmState n m).insert _ 0
          { isUndefined := true } with
      | none => rfl
      | some t =>
        obtain ⟨symbol, rfl, -⟩ := insert_eq hinsert
        rfl
    · rfl
  · rfl

theorem lines_foldl_noteLookup (l : List Event) (s : AsmState n m) :
    (l.foldl AsmState.noteLookup s).lines = s.lines := by
  induction l generalizing s with
  | nil => rfl
  | cons e l ih => exact (ih (s.noteLookup e)).trans (lines_noteLookup s e)

/-! ### How much is left -/

/-- The number of characters that are left, and one more. -/
def Source.size (left : Source) : Nat := left.1.length + (left.2.map (·.substituted.length)).sum + 1

theorem size_nonBlank_le (p : Text) (lines : List SourceLine) :
    Source.size (nonBlank p lines) ≤ Source.size (p, lines) := by
  -- by induction on the lines that are read until one is not blank
  induction lines generalizing p with
  | nil =>
    have := length_skipBlanks_le p
    unfold nonBlank Source.size
    dsimp only
    omega
  | cons line lines ih =>
    have hskip := length_skipBlanks_le p
    unfold nonBlank
    split_ifs
    · have hrest := ih line.substituted
      unfold Source.size at hrest ⊢
      dsimp only at hrest ⊢
      rw [List.map_cons, List.sum_cons]
      omega
    · unfold Source.size
      dsimp only
      omega

/-! ### Elements of a text -/

theorem exec_parseExpressionNoSyntaxError (s : AsmState n m) :
    parseExpressionNoSyntaxError.exec s
      = (some (evaluate (s.exprEnv false) s.lp), parseExpressionNoSyntaxError.final s) := by
  have hval := ensures_parseExpression false s
    (Sjasmplus.parseExpression (s.exprEnv false) s.flags s.lp).1.val _ rfl
  rw [← hval]
  rfl

theorem rest_parseExpression (env : ExprEnv) (flags : Relocation.Flags) (p : Text)
    (henv : env.areLabelsOffset = false) :
    (Sjasmplus.parseExpression env flags p).1.rest = (parseExpressionEntry env p).rest := by
  have hsame : { env with areLabelsOffset := false } = env := by rw [← henv]
  unfold Sjasmplus.parseExpression
  dsimp only
  rw [hsame]
  split_ifs <;> rfl

theorem source_parseExpression (s : AsmState n m) : (parseExpressionNoSyntaxError.final s).source
    = ((parseExpressionEntry (s.exprEnv false) s.lp).rest, s.lines) := by
  refine Prod.ext (rest_parseExpression (s.exprEnv false) s.flags s.lp rfl) ?_
  exact lines_foldl_noteLookup _ s

theorem take_writeBytes (bytes : List Byte) {data : List Byte} {ii : Nat} (h : ii ≤ data.length) :
    (writeBytes data ii bytes).take (ii + bytes.length) = data.take ii ++ bytes := by
  unfold writeBytes
  have hlength : (data.take ii ++ bytes).length = ii + bytes.length := by
    rw [List.length_append, List.length_take, Nat.min_eq_left h]
  rw [← hlength, List.take_left]

/-- The bytes in front are not touched. -/
theorem take_writeBytes_front {data bytes : List Byte} {ii : Nat} (h : ii ≤ data.length) :
    (writeBytes data ii bytes).take ii = data.take ii := by
  unfold writeBytes
  rw [List.append_assoc, List.take_append_of_le_length (by rw [List.length_take, Nat.min_eq_left h]),
    List.take_take, Nat.min_self]

theorem quietly_structTextExpression {len ii : Nat} {data : List Byte} (h : ii ≤ data.length)
    (s : AsmState n m) : Quietly (structTextExpression len data ii) s fun r t =>
      ∃ val, evaluate (s.exprEnv false) s.lp = some val ∧
        t = { parseExpressionNoSyntaxError.final s with
          log := (parseExpressionNoSyntaxError.final s).log ++ check8 val } ∧
        r.2 = true ∧ r.1.2 = ii + 1 ∧ r.1.1.take r.1.2 = data.take ii ++ [val.setWidth 8] := by
  have hkeeps : Evaluates s (parseExpressionNoSyntaxError.final s) :=
    evaluates_parseExpressionNoSyntaxError s
  refine .ite (fun _ => .get_bind (.error_bind rfl (.pure _))) fun _ => ?_
  refine .bind_exec (exec_parseExpressionNoSyntaxError s) hkeeps.mode.log ?_
  cases hval : evaluate (s.exprEnv false) s.lp with
  | none => exact .get_bind (.error_bind rfl (.pure _))
  | some val =>
    refine .bind_exec rfl (List.prefix_append _ _) (.pure fun _ _ => ?_)
    exact ⟨val, rfl, rfl, rfl, rfl, take_writeBytes [val.setWidth 8] h⟩

/-- What is read as a string literal. -/
theorem literalAt_eq {room : Nat} {p : Text} {strRes : Int} {bytes : List Nat}
    (h : (getCharConstAsString room 0 p).val = some (strRes, bytes)) :
    literalAt room p =
      if 0 < strRes ∧ ¬(bytes.length = 1 ∧
        cur (Sjasmplus.skipBlanks (getCharConstAsString room 0 p).rest) ≠ '\x00' ∧
        cur (Sjasmplus.skipBlanks (getCharConstAsString room 0 p).rest) ≠ ',' ∧
        cur (Sjasmplus.skipBlanks (getCharConstAsString room 0 p).rest) ≠ '\x7d') then
        some (bytes.map (BitVec.ofNat 8))
      else none := by
  unfold literalAt
  dsimp only
  rw [h]

/-- An expression is read where the literal was looked for, behind bytes that are not touched. -/
theorem quietly_structTextExpression_elementAt {len ii : Nat} {data written : List Byte}
    (h : ii ≤ len) (hwritten : written.length = len) (htake : written.take ii = data.take ii)
    {s : AsmState n m} (hnone : literalAt (len - ii) s.lp = none) :
    Quietly (structTextExpression len written ii)
      { (read (getCharConstAsString (len - ii) 0)).final s with lp := s.lp } fun r t => ∃ bytes,
        elementAt (len - ii) s = some (bytes, t) ∧ r.2 = true ∧ r.1.2 = ii + bytes.length ∧
          r.1.1.take r.1.2 = data.take ii ++ bytes := by
  refine (quietly_structTextExpression (hwritten.symm ▸ h) _).mono fun r u hu => ?_
  obtain ⟨val, hval, hu, hgo, hii, hbytes⟩ := hu
  refine ⟨[val.setWidth 8], ?_, hgo, hii, htake ▸ hbytes⟩
  unfold elementAt
  rw [hnone]
  show (evaluate _ _).map _ = _
  rw [hval, hu]
  rfl

/-- A literal with a syntax error is reported by its reader. -/
theorem not_addsNoError_read {room : Nat} {s : AsmState n m} {bytes : List Nat}
    (hval : (getCharConstAsString room 0 s.lp).val = some (-1, bytes)) :
    ¬AddsNoError s ((read (getCharConstAsString room 0)).final s) := by
  intro hquiet
  obtain ⟨e, hmem, herror⟩ := getCharConstAsString_announces room 0 s.lp _ hval rfl
  have hnew : ((read (getCharConstAsString room 0)).final s).log
      = s.log ++ (getCharConstAsString room 0 s.lp).log := rfl
  rw [AddsNoError, hnew, List.drop_left, noError, List.all_eq_true] at hquiet
  have hnone := hquiet e hmem
  rw [herror] at hnone
  cases hnone

/-- An element gives its bytes behind those that are there. -/
theorem quietly_structTextElement {len ii : Nat} {data : List Byte} (h : ii ≤ data.length)
    (hlen : data.length = len) (s : AsmState n m) :
    Quietly (structTextElement len data ii) s fun r t => ∃ bytes,
      elementAt (len - ii) s = some (bytes, t) ∧ r.2 = true ∧ r.1.2 = ii + bytes.length ∧
        r.1.1.take r.1.2 = data.take ii ++ bytes := by
  set reader := getCharConstAsString (len - ii) 0 with hreader
  set t := (read reader).final s with ht
  have hlog : s.log <+: t.log := List.prefix_append _ _
  have hexec : (read reader).exec s = (some (reader s.lp).val, t) := rfl
  refine .get_bind (.bind_exec hexec hlog (.get_bind ?_))
  have hlength : ∀ bytes : List Nat, bytes.length ≤ len - ii →
      (writeBytes data ii (bytes.map (BitVec.ofNat 8))).length = len := fun bytes hbytes =>
    length_writeBytes hlen (by rw [List.length_map]; omega)
  rcases getCharConstAsString_cases (len - ii) 0 s.lp with hzero | ⟨⟨strRes, bytes⟩, hval, hcode⟩
  · -- no literal: the text is left as it is
    have hnone : literalAt (len - ii) s.lp = none :=
      (literalAt_eq (congrArg Outcome.val hzero)).trans (if_neg fun h => absurd h.1 (by decide))
    have hstay : ({ t with lp := s.lp } : AsmState n m) = t := by
      have hlp : t.lp = s.lp := congrArg Outcome.rest hzero
      rw [← hlp]
    have hread := quietly_structTextExpression_elementAt (hlen ▸ h) (hlength [] (Nat.zero_le _))
      (take_writeBytes_front (hlen ▸ h)) hnone
    rw [← hreader, ← ht, hstay] at hread
    have hval : (reader s.lp).val = some (0, []) := congrArg Outcome.val hzero
    rw [hval]
    exact hread.mono fun _ _ hu _ => hu
  · have hroom := getCharConstAsString_yields (len - ii) 0 s.lp _ hval
    have hwritten := hlength bytes hroom
    have hread : (reader s.lp).val = some (strRes, bytes) := hval
    rw [hread]
    dsimp only [Option.getD_some]
    rcases hcode with rfl | rfl | hpos
    · -- a syntax error is reported by the reader
      refine .ite (fun h => absurd h (by decide)) fun _ => .ite (fun _ => .pure fun hquiet => ?_)
        fun h => absurd rfl h
      exact absurd hquiet (not_addsNoError_read hval)
    · refine .ite (fun h => absurd h (by decide)) fun _ => .ite (fun h => absurd h (by decide)) fun _ =>
        .ite (fun _ => .get_bind (.error_bind rfl (.pure _))) fun h => absurd rfl h
    · refine .ite (fun _ => ?_) fun h => absurd hpos h
      by_cases hsingle : bytes.length = 1 ∧ cur (Sjasmplus.skipBlanks t.lp) ≠ '\x00' ∧
          cur (Sjasmplus.skipBlanks t.lp) ≠ ',' ∧ cur (Sjasmplus.skipBlanks t.lp) ≠ '\x7d'
      · rw [if_pos hsingle]
        refine .bind_exec (t := { t with lp := s.lp }) rfl List.prefix_rfl ?_
        have hnone : literalAt (len - ii) s.lp = none :=
          (literalAt_eq hval).trans (if_neg fun h => h.2 hsingle)
        exact (quietly_structTextExpression_elementAt (hlen ▸ h) hwritten
          (take_writeBytes_front (hlen ▸ h)) hnone).mono fun _ _ hu _ _ => hu
      · rw [if_neg hsingle]
        refine .pure fun _ => ⟨bytes.map (BitVec.ofNat 8), ?_, rfl, ?_, ?_⟩
        · unfold elementAt
          have hsome : literalAt (len - ii) s.lp = some (bytes.map (BitVec.ofNat 8)) :=
            (literalAt_eq hval).trans (if_pos ⟨hpos, hsingle⟩)
          rw [hsome]
        · rw [List.length_map]
        · have htake := take_writeBytes (bytes.map (BitVec.ofNat 8)) (hlen ▸ h : ii ≤ data.length)
          rw [List.length_map] at htake
          exact htake

theorem exec_scan {α : Type} (f : Text → α × Text) (s : AsmState n m) :
    (AsmProgram.scan f).exec s = (some (f s.lp).1, { s with lp := (f s.lp).2 }) := rfl

theorem exec_comma_of_isComma {s : AsmState n m} (h : IsComma s.lp) :
    comma.exec s = (some true, { s with lp := (Sjasmplus.skipBlanks s.lp).tail }) := by
  unfold comma IsComma at *
  rw [exec_scan]
  dsimp only
  rw [if_pos h]

theorem exec_comma_of_not_isComma {s : AsmState n m} (h : ¬IsComma s.lp) :
    comma.exec s = (some false, { s with lp := Sjasmplus.skipBlanks s.lp }) := by
  unfold comma IsComma at *
  rw [exec_scan]
  dsimp only
  rw [if_neg h]

/-- A comma is a character less that is left. -/
theorem size_behind_comma_lt {p : Text} (h : IsComma p) (lines : List SourceLine) :
    Source.size ((Sjasmplus.skipBlanks p).tail, lines) < Source.size (p, lines) := by
  have hle := length_skipBlanks_le p
  have hpos : 0 < (Sjasmplus.skipBlanks p).length := by
    refine List.length_pos_iff.mpr fun hnil => ?_
    have hcur := h.1
    rw [hnil] at hcur
    exact absurd hcur (by decide)
  unfold Source.size
  rw [List.length_tail]
  dsimp only
  omega

/-- An element moves on in its line. -/
theorem source_elementAt {room : Nat} {s t : AsmState n m} {bytes : List Byte}
    (h : elementAt room s = some (bytes, t)) : t.lp <:+ s.lp ∧ t.lines = s.lines := by
  have hreader : Advances (getCharConstAsString room 0) :=
    Advances.bind Advances.peek fun _ => Advances.ite (Advances.pure _) (charConstSegments_advances _ _ _ _)
  unfold elementAt at h
  set v := (read (getCharConstAsString room 0)).final s with hv
  have hlines : v.lines = s.lines := lines_foldl_noteLookup _ s
  -- a literal, or a value where the literal could not be read
  cases hliteral : literalAt room s.lp with
  | some bytes' =>
    rw [hliteral] at h
    obtain ⟨rfl, rfl⟩ := Prod.mk.inj (Option.some.inj h)
    exact ⟨hreader s.lp, hlines⟩
  | none =>
    rw [hliteral] at h
    obtain ⟨val, -, heq⟩ := Option.map_eq_some_iff.mp h
    obtain ⟨-, rfl⟩ := Prod.mk.inj heq
    obtain ⟨hlp, hrest⟩ := Prod.mk.inj (source_parseExpression { v with lp := s.lp })
    refine ⟨?_, hrest.trans hlines⟩
    show (parseExpressionNoSyntaxError.final { v with lp := s.lp }).lp <:+ s.lp
    rw [hlp]
    exact parseExpressionEntry_advances _ _

/-- The loop reads all elements: its fuel is what is left of the source. -/
theorem quietly_structTextLoop {len fuel ii : Nat} {data : List Byte} (h : TextBuffer len (data, ii))
    {s : AsmState n m} (hfuel : s.source.size ≤ fuel) :
    Quietly (structTextLoop len fuel data ii) s fun r t => ∃ bytes,
      Elements (len - ii) s bytes t ∧ r.2 = ii + bytes.length ∧ r.1.take r.2 = data.take ii ++ bytes := by
  -- by induction on the fuel: a comma is consumed ahead of each further element
  induction fuel generalizing data ii s with
  | zero => exact absurd hfuel (by unfold Source.size; omega)
  | succ fuel ih =>
    have hnext : s.nextText.source.size ≤ s.source.size := by
      rw [source_nextText]
      exact size_nonBlank_le s.lp s.lines
    -- the end of the text, or its closing brace
    have hstop : cur s.nextText.lp = '\x7d' ∨ cur s.nextText.lp = '\x00' → ∃ bytes,
        Elements (len - ii) s bytes s.nextText ∧ ii = ii + bytes.length ∧
          data.take ii = data.take ii ++ bytes :=
      fun hend => ⟨[], .stop hend, rfl, (List.append_nil _).symm⟩
    refine .bind_exec (exec_prepareNonBlankMultiLine s) (log_nextText s) (.ite (fun _ => ?_) fun hend =>
      .pure fun _ => hstop (.inr (by simpa using hend)))
    refine .get_bind (.ite (fun hbrace => .pure fun _ => hstop (.inl hbrace)) fun _ => ?_)
    have helement := (Quietly.of_ensures evaluates_structTextElement
      (ensures_structTextElement h s.nextText)).and
      (quietly_structTextElement (h.1 ▸ h.2 : ii ≤ data.length) h.1 s.nextText)
    refine .bind helement
      (fun r => .ite (.bind evaluates_scan fun _ => .ite evaluates_structTextLoop (.pure _)) (.pure _))
      fun r t ht => ?_
    obtain ⟨hbuffer, bytes, hat, hgo, hii, htake⟩ := ht
    obtain ⟨hlp, hlines⟩ := source_elementAt hat
    have hroom : len - ii - bytes.length = len - r.1.2 := by omega
    refine .ite (fun _ => ?_) fun h => absurd hgo h
    -- behind a comma the rest is read into what room is left
    by_cases hcomma : IsComma t.lp
    · refine .bind_exec (exec_comma_of_isComma hcomma) List.prefix_rfl (.ite (fun _ => ?_)
        fun h => absurd rfl h)
      have hleft : Source.size ((Sjasmplus.skipBlanks t.lp).tail, t.lines) ≤ fuel := by
        have hcomma := size_behind_comma_lt hcomma t.lines
        have htext : Source.size (t.lp, t.lines) ≤ s.nextText.source.size := by
          unfold Source.size
          rw [hlines]
          exact Nat.succ_le_succ (Nat.add_le_add_right hlp.length_le _)
        omega
      refine (ih hbuffer (s := { t with lp := (Sjasmplus.skipBlanks t.lp).tail }) hleft).mono
        fun r' u hu _ _ => ?_
      obtain ⟨bytes', helements, hii', htake'⟩ := hu
      refine ⟨bytes ++ bytes', .next hat hcomma (hroom ▸ helements), ?_, ?_⟩
      · rw [hii', hii, List.length_append, add_assoc]
      · rw [htake', htake, List.append_assoc]
    · refine .bind_exec (exec_comma_of_not_isComma hcomma) List.prefix_rfl (.ite (fun h => absurd h (by decide))
        fun _ => ?_)
      exact .pure fun _ _ => ⟨bytes, .last hat hcomma, hii, htake⟩

/-! ### Texts -/

theorem skipBlanks_nonBlank (p : Text) (lines : List SourceLine) :
    Sjasmplus.skipBlanks (nonBlank p lines).1 = (nonBlank p lines).1 := by
  induction lines generalizing p with
  | nil => exact skipBlanks_skipBlanks p
  | cons line lines ih =>
    unfold nonBlank
    split_ifs
    · exact ih line.substituted
    · exact skipBlanks_skipBlanks p

theorem skipBlanks_nextText (s : AsmState n m) :
    Sjasmplus.skipBlanks s.nextText.lp = s.nextText.lp := by
  have hlp : s.nextText.lp = (nonBlank s.lp s.lines).1 := congrArg Prod.fst (source_nextText s)
  rw [hlp, skipBlanks_nonBlank]

theorem exec_need_of_eq {c : Char} {s : AsmState n m} (h : cur (Sjasmplus.skipBlanks s.lp) = c) :
    (AsmProgram.need c).exec s = (some true, { s with lp := (Sjasmplus.skipBlanks s.lp).tail }) := by
  unfold AsmProgram.need
  rw [exec_scan]
  dsimp only
  rw [if_pos h]

theorem exec_need_of_ne {c : Char} {s : AsmState n m} (h : cur (Sjasmplus.skipBlanks s.lp) ≠ c) :
    (AsmProgram.need c).exec s = (some false, { s with lp := Sjasmplus.skipBlanks s.lp }) := by
  unfold AsmProgram.need
  rw [exec_scan]
  dsimp only
  rw [if_neg h]

theorem sameSource_checkAndWarn : Keeps (SameSource (n := n) (m := m)) checkAndWarn :=
  .get_bind fun _ => .when (.bind (.modify fun _ => rfl) fun _ => .modify fun _ => rfl)

/-- **A text gets what the source gives to it.** -/
theorem quietly_getStructText (data : List Byte) (s : AsmState n m) :
    Quietly (getStructText data.length (some data)) s fun bytes t => GivesText data s bytes t.source := by
  set t : AsmState n m := { s with flags := { s.flags with isResultAffected := false } } with ht
  refine .bind_exec (t := t) rfl List.prefix_rfl ?_
  by_cases hbrace : cur (Sjasmplus.skipBlanks s.lp) = '\x7b'
  · set u : AsmState n m := { t with lp := (Sjasmplus.skipBlanks s.lp).tail } with hu
    have hneed : (AsmProgram.need '\x7b').exec t = (some true, u) := exec_need_of_eq hbrace
    refine .bind_exec hneed List.prefix_rfl (.ite (fun _ => ?_) fun h => absurd rfl h)
    have hbuffer : TextBuffer data.length (List.replicate data.length 0, 0) :=
      ⟨List.length_replicate, Nat.zero_le _⟩
    have hfuel : u.source.size ≤ sourceLeft u := le_rfl
    have hloop := quietly_structTextLoop hbuffer hfuel
    have htextEnd : Keeps Evaluates (textEnd (n := n) (m := m)) :=
      .bind evaluates_prepareNonBlankMultiLine fun _ => .ite evaluates_scan (.pure _)
    refine .get_bind (.bind hloop (fun r => .bind htextEnd fun _ => .ite
      (.bind evaluates_checkAndWarn fun _ => .pure _)
      (.get_bind fun _ => .bind evaluates_error fun _ => .pure _))
      fun r v hv => ?_)
    obtain ⟨bytes, helements, hii, htake⟩ := hv
    -- behind the elements, perhaps on a later line, comes the closing brace
    have hclosed : Quietly (textEnd (n := n) (m := m)) v fun b w => b = true →
        cur v.nextText.lp = '\x7d' ∧ w.source = (v.nextText.lp.tail, v.nextText.lines) := by
      refine .bind_exec (exec_prepareNonBlankMultiLine v) (log_nextText v) (.ite (fun _ => ?_)
        fun _ => .pure fun _ h => absurd h (by decide))
      by_cases hend : cur v.nextText.lp = '\x7d'
      · have hneed := exec_need_of_eq (s := v.nextText) (c := '\x7d') (by rw [skipBlanks_nextText, hend])
        rw [skipBlanks_nextText] at hneed
        exact Ensures.of_exec hneed ⟨List.prefix_rfl, fun _ _ _ => ⟨hend, rfl⟩⟩
      · have hneed := exec_need_of_ne (s := v.nextText) (c := '\x7d') (by rwa [skipBlanks_nextText])
        exact Ensures.of_exec hneed ⟨List.prefix_rfl, fun _ _ h => absurd h (by decide)⟩
    refine .bind hclosed (fun _ => .ite
      (.bind evaluates_checkAndWarn fun _ => .pure _)
      (.get_bind fun _ => .bind evaluates_error fun _ => .pure _))
      fun b w hw => .ite (fun hb => ?_) fun _ => .get_bind (.error_bind rfl (.pure _))
    obtain ⟨hend, hsource⟩ := hw hb
    refine .bind (.of_ensures evaluates_checkAndWarn (.of_keeps sameSource_checkAndWarn))
      (fun _ => .pure _) fun _ x hx => .pure ?_
    have hfill : fillText data.length (some data) r.1 r.2 = bytes ++ data.drop bytes.length := by
      rw [List.take_zero, List.nil_append] at htake
      rw [zero_add] at hii
      show r.1.take r.2 ++ data.drop r.2 = _
      rw [htake, hii]
    rw [hfill, show x.source = w.source from hx, hsource]
    exact fun _ _ => .braces hbrace helements hend
  · have hneed : (AsmProgram.need '\x7b').exec t
        = (some false, { t with lp := Sjasmplus.skipBlanks s.lp }) := exec_need_of_ne hbrace
    refine .bind_exec hneed List.prefix_rfl (.ite (fun h => absurd h (by decide)) fun _ => .pure ?_)
    exact fun _ _ => .absent hbrace

/-! ### Values -/

/-- The bits that a check takes away are not emitted. -/
theorem valueBytes_checkValue (type : ValueType) (val : Aint) :
    valueBytes type (checkValue type val).1 = valueBytes type val := by
  have hbyte : ∀ (mask : Aint) (i : Nat), (∀ j < 8, mask.getLsbD (8 * i + j) = true) →
      ((val &&& mask) >>> (8 * i)).setWidth 8 = ((val >>> (8 * i)).setWidth 8 : Byte) := by
    intro mask i hmask
    ext j hj
    simp [hmask j hj]
  have hall : ∀ (mask : Aint) (count : Nat), (∀ i < count, ∀ j < 8, mask.getLsbD (8 * i + j) = true) →
      ((List.range count).map fun i => ((val &&& mask) >>> (8 * i)).setWidth 8)
        = (List.range count).map fun i => ((val >>> (8 * i)).setWidth 8 : Byte) :=
    fun mask count hmask => List.map_congr_left fun i hi => hbyte mask i (hmask i (List.mem_range.mp hi))
  cases type with
  | byte => exact hall 0xFF 1 (by decide)
  | word => exact hall 0xFFFF 2 (by decide)
  | d24 => exact hall 0xFFFFFF 3 (by decide)
  | dword => rfl

theorem sameSource_relocateValue {type : ValueType} {defDeltaType : Relocation.EType} {keep : Bool} :
    Keeps (SameSource (n := n) (m := m)) (relocateValue type defDeltaType keep) := by
  have hflags : Keeps (SameSource (n := n) (m := m)) (overrideFlags keep defDeltaType) :=
    .when (.modify fun _ => rfl)
  have hresolve : ∀ minType : Relocation.EType,
      Keeps (SameSource (n := n) (m := m)) (resolveRelocationAffected (some 0) minType) :=
    fun minType => .get_bind fun t => .when (.bind (.modify fun _ => rfl) fun _ =>
      .ite (.modify fun _ => rfl) (.modify fun _ => rfl))
  have hboth : ∀ minType : Relocation.EType, Keeps (SameSource (n := n) (m := m)) (do
      overrideFlags keep defDeltaType
      resolveRelocationAffected (some 0) minType
      checkAndWarn) :=
    fun minType => .bind hflags fun _ => .bind (hresolve minType) fun _ => sameSource_checkAndWarn
  exact .get_bind fun s => .ite (.pure _) (.ite (hboth _) (.ite (hboth _) sameSource_checkAndWarn))

/-- **A value is the one that the text gives.** -/
theorem ensures_parseValue (type : ValueType) (default : Aint) (defDeltaType : Relocation.EType)
    (s : AsmState n m) : Ensures (parseValue type default defDeltaType) s fun val t =>
      valueBytes type val = valueBytes type (valueAt s default) ∧
        t.source = (behindValue s, s.lines) := by
  set t : AsmState n m := { s with lp := Sjasmplus.skipBlanks s.lp } with ht
  refine .bind (.of_exec (t := t) rfl (Q := fun _ u => u = t) rfl) fun _ u hu => ?_
  subst hu
  refine .get_bind ?_
  unfold valueAt behindValue
  dsimp only
  -- an opening brace leaves the member with its default
  by_cases hbrace : cur (Sjasmplus.skipBlanks s.lp) = '\x7b'
  · rw [if_pos hbrace, if_pos hbrace, if_pos hbrace]
    exact .bind (.of_keeps sameSource_relocateValue) fun _ u hu => .pure ⟨rfl, hu⟩
  · rw [if_neg hbrace, if_neg hbrace, if_neg hbrace]
    have hparse : Ensures parseExpressionNoSyntaxError t fun val u =>
        val = evaluate (s.exprEnv false) (Sjasmplus.skipBlanks s.lp) ∧
          u.source = ((parseExpressionEntry (s.exprEnv false) (Sjasmplus.skipBlanks s.lp)).rest, s.lines) :=
      .of_exec (exec_parseExpressionNoSyntaxError t) ⟨rfl, source_parseExpression t⟩
    refine .bind hparse fun val u hu => ?_
    refine .bind (.of_keeps (Keeps.modify fun _ => rfl : Keeps SameSource (report _))) fun _ v hv => ?_
    refine .bind (.of_keeps sameSource_relocateValue) fun _ w hw => .pure ⟨?_, ?_⟩
    · rw [valueBytes_checkValue, hu.1]
    · exact (IsTrans.trans _ _ _ hv hw : SameSource u w).trans hu.2

/-! ### Braces and commas -/

theorem exec_memberComma (rest : List StructureMember) (s : AsmState n m) :
    (memberComma rest).exec s = (some (), { s with lp := behindMember rest s.lp }) := by
  cases rest with
  | nil => rfl
  | cons next rest =>
    unfold memberComma behindMember Program.when
    dsimp only
    by_cases hclose : next.kind ≠ .parenClose
    · rw [if_pos hclose, if_pos hclose]
      refine (exec_bind_of_some (exec_scan _ s)).trans ?_
      unfold behindComma
      dsimp only
      split_ifs <;> rfl
    · rw [if_neg hclose, if_neg hclose]
      rfl

/-- The marker in front of a nested structure reads the opening brace. -/
theorem ensures_openBrace (rest : List StructureMember) (haakjes : Nat) (s : AsmState n m) :
    Ensures (openBrace haakjes) s fun haakjes' t =>
      Gives rest haakjes s .parenOpen [] haakjes' t.source := by
  refine .of_exec (exec_scan _ s) ?_
  dsimp only
  by_cases hbrace : cur (Sjasmplus.skipBlanks s.lp) = '\x7b'
  · rw [if_pos hbrace]
    exact .opens hbrace
  · rw [if_neg hbrace]
    exact .noBrace hbrace

/-- The marker behind it reads the closing brace. -/
theorem ensures_closeBrace (rest : List StructureMember) (haakjes : Nat) (s : AsmState n m) :
    Ensures (closeBrace haakjes) s fun closed t =>
      Gives rest haakjes s .parenClose [] (closed.getD haakjes) (behindMember rest t.lp, t.lines) := by
  refine .of_exec (exec_scan _ s) ?_
  dsimp only
  by_cases hclose : haakjes ≠ 0 ∧ cur (Sjasmplus.skipBlanks s.lp) = '\x7d'
  · rw [if_pos hclose]
    exact .closes hclose.1 hclose.2
  · rw [if_neg hclose]
    exact .staysOpen (by tauto)

end Sjasmplus
