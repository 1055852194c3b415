import Sjasmplus.MacroRestore

/-!
# Values of macro arguments (`GetMacroArgumentValue` of `reader.cpp`)

An argument of a macro call goes up to a comma or to the end of the line.  Strings may stand anywhere in
it, and keep commas and blanks together; angle brackets may only stand around it, and are not part of the
value.

* `isArgument_append` — the value of an argument does not depend on what is behind it.
* `getMacroArgumentValue_angleQuoted` — any text is the value of an argument, in angle brackets.
-/

namespace Sjasmplus

open Program

variable {ω : Type}

/-! ### Behind an argument -/

/-- An argument ends at the end of the line or at a comma. -/
def EndsArgument (p : Text) : Prop := p = [] ∨ cur p = ','

theorem endsArgument_comma (p : Text) : EndsArgument (',' :: p) := .inr rfl

/-- The value behind its last character: what must not be trimmed, and the rest without its blanks. -/
def trimmed (dst : Text) (dstStopTrim : Nat) : Text :=
  dst.take dstStopTrim ++ (dst.drop dstStopTrim).rdropWhile white

/-- Only blanks are trimmed. -/
theorem trimmed_append {v w : Text} (hw : ∀ c ∈ w, white c = true) : trimmed (v ++ w) v.length = v := by
  rw [trimmed, List.take_left, List.drop_left, List.rdropWhile_eq_nil_iff.mpr hw, List.append_nil]

theorem trimmed_self (v : Text) : trimmed v v.length = v := by
  have h := trimmed_append (v := v) (w := []) nofun
  rwa [List.append_nil] at h

/-! ### A character at a time -/

/-- The loop at the end of the line. -/
theorem argumentLoop_nil (prev : Option Char) (dst : Text) (dstStopTrim : Nat) :
    argumentLoop none prev dst dstStopTrim [] = (some (trimmed dst dstStopTrim), []) := rfl

/-- A character outside of delimiters; nothing follows it like a zero does. -/
theorem argumentLoop_cons (prev : Option Char) (dst : Text) (dstStopTrim : Nat) (c : Char) (src : Text) :
    argumentLoop none prev dst dstStopTrim (c :: src) =
      if c = ',' then (some (trimmed dst dstStopTrim), c :: src)
      else
        match argumentDelimiter prev c (cur src) with
        | some delI =>
          argumentLoop (some delI) (some c) (if delI = .angle then dst else dst ++ [c]) dstStopTrim src
        | none => argumentLoop none (some c) (dst ++ [c]) dstStopTrim src := by
  cases src with
  | cons next src => rfl
  | nil =>
    rw [argumentLoop]
    rcases argumentDelimiter prev c '\x00' with _ | delI <;> rfl

/-- A character inside of delimiters. -/
theorem argumentLoop_inside (delI : Delimiter) (prev : Option Char) (dst : Text) (dstStopTrim : Nat)
    (c : Char) (src : Text) :
    argumentLoop (some delI) prev dst dstStopTrim (c :: src) =
      match argumentEscape delI c (cur src) with
      | some copied =>
        argumentLoop (some delI) (some (cur src)) (dst ++ copied) dstStopTrim src.tail
      | none =>
        if c = delI.ending then
          argumentLoop none (some c) (if delI = .angle then dst else dst ++ [c])
            (if delI = .angle then dst else dst ++ [c]).length src
        else argumentLoop (some delI) (some c) (dst ++ [c]) dstStopTrim src := by
  cases src with
  | cons next src => rfl
  | nil =>
    rw [argumentLoop, cur_nil, argumentLoop_nil, trimmed_self]
    -- only an escape sequence in quotes goes on, and it goes on without its second character
    cases delI with
    | angle => rw [argumentEscape, if_neg (by rintro ⟨-, h | h⟩ <;> cases h)]; rfl
    | apostrophe => rw [argumentEscape, if_neg (by rintro ⟨-, h⟩; cases h)]; rfl
    | quotes =>
      rw [argumentEscape]
      by_cases hc : c = '\\'
      · subst hc
        rfl
      · rw [if_neg hc]
        rfl

/-! ### Outside of delimiters -/

/-- The argument ends here. -/
theorem argumentLoop_end {rest : Text} (hrest : EndsArgument rest) (prev : Option Char) (dst : Text)
    (dstStopTrim : Nat) :
    argumentLoop none prev dst dstStopTrim rest = (some (trimmed dst dstStopTrim), rest) := by
  match rest, hrest with
  | [], _ => rfl
  | c :: src, .inr hc =>
    obtain rfl : c = ',' := hc
    rw [argumentLoop_cons, if_pos rfl]

/-- A blank is an ordinary character. -/
theorem argumentDelimiter_white {c : Char} (hc : white c = true) (prev next : Char) :
    argumentDelimiter (some prev) c next = none := by
  have hne : c ≠ '"' ∧ c ≠ '\'' := by
    constructor <;> rintro rfl <;> exact absurd hc (by decide)
  rw [argumentDelimiter, delimiterBegins, if_neg hne.1, if_neg hne.2]
  rfl

/-- Blanks behind the value are trimmed. -/
theorem argumentLoop_blanks {v blanks rest : Text} (hblanks : ∀ c ∈ blanks, white c = true)
    (hrest : EndsArgument rest) (prev : Char) {w : Text} (hw : ∀ c ∈ w, white c = true) :
    argumentLoop none (some prev) (v ++ w) v.length (blanks ++ rest) = (some v, rest) := by
  -- by induction on the blanks: they are copied, but the place where the value is trimmed stays
  induction blanks generalizing prev w with
  | nil => rw [List.nil_append, argumentLoop_end hrest, trimmed_append hw]
  | cons c blanks ih =>
    have hc := hblanks c (List.mem_cons_self ..)
    have hcomma : c ≠ ',' := by
      rintro rfl
      exact absurd hc (by decide)
    have hw' : ∀ b ∈ w ++ [c], white b = true := by
      intro b hb
      rcases List.mem_append.mp hb with hb | hb
      · exact hw b hb
      · exact List.mem_singleton.mp hb ▸ hc
    rw [List.cons_append, argumentLoop_cons, if_neg hcomma, argumentDelimiter_white hc]
    show argumentLoop none (some c) (v ++ w ++ [c]) v.length (blanks ++ rest) = _
    rw [List.append_assoc]
    exact ih (fun b hb => hblanks b (List.mem_cons_of_mem c hb)) c hw'

/-! ### Angle brackets -/

/-- The characters that need an exclamation mark in front, inside of angle brackets. -/
def escapeAngle (v : Text) : Text := v.flatMap fun c => if c = '>' ∨ c = '!' then ['!', c] else [c]

/-- A text in angle brackets. -/
def angleQuoted (v : Text) : Text := '<' :: escapeAngle v ++ ['>']

/-- Inside of the brackets, the text up to the closing one is the value. -/
theorem argumentLoop_escapeAngle (v : Text) (prev : Option Char) (dst : Text) (dstStopTrim : Nat)
    {blanks rest : Text} (hblanks : ∀ c ∈ blanks, white c = true) (hrest : EndsArgument rest) :
    argumentLoop (some .angle) prev dst dstStopTrim (escapeAngle v ++ '>' :: (blanks ++ rest)) =
      (some (dst ++ v), rest) := by
  -- by induction on the value: an escaped character is copied, and its mark is not
  induction v generalizing prev dst with
  | nil =>
    have hclosed : argumentEscape .angle '>' (cur (blanks ++ rest)) = none := by
      rw [argumentEscape, if_neg]
      rintro ⟨h, -⟩
      cases h
    show argumentLoop (some .angle) prev dst dstStopTrim ('>' :: (blanks ++ rest)) = _
    rw [argumentLoop_inside, hclosed]
    have hbehind := argumentLoop_blanks (v := dst) (w := []) hblanks hrest '>' nofun
    rw [List.append_nil] at hbehind ⊢
    exact hbehind
  | cons c v ih =>
    have hnext := ih (some c) (dst ++ [c])
    rw [List.append_assoc, List.singleton_append] at hnext
    rw [escapeAngle, List.flatMap_cons, List.append_assoc, ← escapeAngle]
    by_cases hc : c = '>' ∨ c = '!'
    · rw [if_pos hc, List.cons_append, List.cons_append, List.nil_append, argumentLoop_inside,
        argumentEscape, cur_cons, if_pos ⟨rfl, hc.symm⟩]
      exact hnext
    · obtain ⟨hangle, hmark⟩ := not_or.mp hc
      rw [if_neg hc, List.singleton_append, argumentLoop_inside, argumentEscape,
        if_neg fun h => hmark h.1]
      show (if c = '>' then _ else _) = _
      rw [if_neg hangle]
      exact hnext

/-! ### The main result -/

/-- The warning about an argument without a value. -/
def emptyValue (src : Text) : Event :=
  .warning "[Macro argument parser] empty value" (some src) .pass3

/-- Warnings about arguments without values. -/
def EmptyValues (log : List Event) : Prop := ∀ e ∈ log, ∃ src, e = emptyValue src

theorem EmptyValues.append {log log' : List Event} (h : EmptyValues log) (h' : EmptyValues log') :
    EmptyValues (log ++ log') := by
  intro e he
  rcases List.mem_append.mp he with he | he
  · exact h e he
  · exact h' e he

/-- The result is that of the loops, behind blanks, and there may be a warning. -/
theorem exec_getMacroArgumentValue (p : Text) (s : ExpandState ω) :
    ∃ log, EmptyValues log ∧ (getMacroArgumentValue p).exec s =
      (some (argumentLoop none none [] 0 (skipBlanks p)), { s with log := s.log ++ log }) := by
  rw [getMacroArgumentValue]
  rcases argumentLoop none none [] 0 (skipBlanks p) with ⟨value, rest⟩
  by_cases hempty : value = some []
  · refine ⟨[emptyValue (skipBlanks p)], fun e he => ⟨_, List.mem_singleton.mp he⟩, ?_⟩
    show ((when (value = some []) _ >>= fun _ => pure (value, rest)).exec s) = _
    rw [when, if_pos hempty]
    rfl
  · refine ⟨[], nofun, ?_⟩
    show ((when (value = some []) _ >>= fun _ => pure (value, rest)).exec s) = _
    rw [when, if_neg hempty, List.append_nil]
    rfl

/-- **Angle brackets.**  Any text is the value of an argument when it is written in angle brackets, and
the source is left at the comma or the end behind them. -/
theorem getMacroArgumentValue_angleQuoted (v : Text) {front blanks rest : Text}
    (hfront : ∀ c ∈ front, white c = true) (hblanks : ∀ c ∈ blanks, white c = true)
    (hrest : EndsArgument rest) (s : ExpandState ω) :
    ((getMacroArgumentValue (front ++ angleQuoted v ++ (blanks ++ rest))).exec s).1 =
      some (some v, rest) := by
  have hquoted : skipBlanks (front ++ angleQuoted v ++ (blanks ++ rest)) =
      '<' :: (escapeAngle v ++ '>' :: (blanks ++ rest)) := by
    rw [List.append_assoc, skipBlanks_append hfront, angleQuoted, List.append_assoc]
    exact skipBlanks_cons rfl _
  have hopens (next : Char) : argumentDelimiter none '<' next = some .angle := rfl
  obtain ⟨log, -, hexec⟩ := exec_getMacroArgumentValue (front ++ angleQuoted v ++ (blanks ++ rest)) s
  rw [hexec, hquoted, argumentLoop_cons, if_neg (by decide), hopens]
  exact congrArg some (argumentLoop_escapeAngle v _ _ _ hblanks hrest)

/-- The text `a,> !`, with a blank behind the brackets, in front of another argument. -/
theorem getMacroArgumentValue_angleQuoted_comma :
    ((getMacroArgumentValue (" ".toList ++ angleQuoted "a,> !".toList ++ (" ".toList ++ ",2".toList))
      : ExpandProgram Unit _).exec exampleExpandState).1 = some (some "a,> !".toList, ",2".toList) :=
  getMacroArgumentValue_angleQuoted "a,> !".toList (by simp [white]) (by simp [white])
    (endsArgument_comma _) _

/-! ### Arguments -/

/-- A whole text is one argument, with this value. -/
def IsArgument (t v : Text) : Prop := argumentLoop none none [] 0 (skipBlanks t) = (some v, [])

instance (t v : Text) : Decidable (IsArgument t v) :=
  inferInstanceAs (Decidable (argumentLoop none none [] 0 (skipBlanks t) = (some v, [])))

/-- Neither a comma nor the end of the line looks like a digit. -/
theorem argumentDelimiter_end {rest : Text} (hrest : EndsArgument rest) (prev : Option Char)
    (c : Char) : argumentDelimiter prev c (cur rest) = argumentDelimiter prev c (cur []) := by
  have hdigit : isDigitLike (cur rest) = isDigitLike (cur []) := by
    rcases hrest with rfl | hcomma
    · rfl
    · rw [hcomma]
      rfl
  rw [argumentDelimiter, argumentDelimiter, hdigit]

theorem argumentDelimiter_append {rest : Text} (hrest : EndsArgument rest) (prev : Option Char)
    (c : Char) (src : Text) :
    argumentDelimiter prev c (cur (src ++ rest)) = argumentDelimiter prev c (cur src) := by
  cases src with
  | nil => exact argumentDelimiter_end hrest prev c
  | cons next src => rfl

/-- A character that ends its delimiters starts an escape sequence only with another one like it. -/
theorem argumentEscape_end {delI : Delimiter} {c : Char} {rest : Text} (hrest : EndsArgument rest)
    (hc : c = delI.ending) : argumentEscape delI c (cur rest) = none := by
  subst hc
  rcases hrest with rfl | hcomma
  · cases delI <;> rfl
  · rw [hcomma]
    cases delI <;> rfl

theorem argumentEscape_append {delI : Delimiter} {c : Char} {rest : Text} (hrest : EndsArgument rest)
    (hc : c = delI.ending) (src : Text) :
    argumentEscape delI c (cur (src ++ rest)) = argumentEscape delI c (cur src) := by
  cases src with
  | nil => rw [List.nil_append, argumentEscape_end hrest hc, argumentEscape_end (.inl rfl) hc]
  | cons next src => rfl

/-- What is behind an argument does not change its value. -/
theorem argumentLoop_append {delI : Option Delimiter} {prev : Option Char} {dst : Text}
    {dstStopTrim : Nat} {src v rest : Text} (hrest : EndsArgument rest)
    (h : argumentLoop delI prev dst dstStopTrim src = (some v, [])) :
    argumentLoop delI prev dst dstStopTrim (src ++ rest) = (some v, rest) := by
  induction hn : src.length using Nat.strongRecOn generalizing delI prev dst dstStopTrim src with
  | ind n ih =>
    subst hn
    match delI, src with
    | some delI, [] => cases h
    | none, [] =>
      rw [argumentLoop_nil, Prod.mk.injEq, Option.some_inj] at h
      rw [List.nil_append, argumentLoop_end hrest, h.1]
    | some delI, c :: src =>
      rw [argumentLoop_inside] at h
      rw [List.cons_append, argumentLoop_inside]
      cases src with
      | nil =>
        -- the delimiter ends here, for otherwise it would be missing
        rcases hescape : argumentEscape delI c (cur []) with _ | copied <;> rw [hescape] at h
        · by_cases hc : c = delI.ending
          · rw [if_pos hc] at h
            rw [List.nil_append, argumentEscape_end hrest hc]
            dsimp only at h ⊢
            rw [argumentLoop_nil, Prod.mk.injEq, Option.some_inj] at h
            rw [if_pos hc, argumentLoop_end hrest, h.1]
          · rw [if_neg hc] at h
            cases h
        · cases h
      | cons next src =>
        rw [List.cons_append, cur_cons, List.tail_cons]
        rw [cur_cons, List.tail_cons] at h
        rcases hescape : argumentEscape delI c next with _ | copied <;> rw [hescape] at h
        · dsimp only at h ⊢
          by_cases hc : c = delI.ending
          · rw [if_pos hc] at h ⊢
            exact ih _ (Nat.lt_succ_self _) h rfl
          · rw [if_neg hc] at h ⊢
            exact ih _ (Nat.lt_succ_self _) h rfl
        · exact ih src.length (by simp only [List.length_cons]; omega) h rfl
    | none, c :: src =>
      rw [argumentLoop_cons] at h
      rw [List.cons_append, argumentLoop_cons]
      by_cases hcomma : c = ','
      · rw [if_pos hcomma] at h
        cases h
      · rw [if_neg hcomma] at h ⊢
        rw [argumentDelimiter_append hrest]
        rcases hopens : argumentDelimiter prev c (cur src) with _ | delI <;> rw [hopens] at h
        · exact ih _ (Nat.lt_succ_self _) h rfl
        · exact ih _ (Nat.lt_succ_self _) h rfl

theorem skipBlanks_append_end {rest : Text} (hrest : EndsArgument rest) (t : Text) :
    skipBlanks (t ++ rest) = skipBlanks t ++ rest := by
  have hend : skipBlanks rest = rest := by
    match rest, hrest with
    | [], _ => rfl
    | c :: rest, .inr hc =>
      obtain rfl : c = ',' := hc
      exact skipBlanks_cons rfl _
  -- by induction on the text in front
  induction t with
  | nil => exact hend
  | cons c t ih =>
    by_cases hc : white c = true
    · rw [List.cons_append, skipBlanks, skipBlanks, List.dropWhile_cons_of_pos hc,
        List.dropWhile_cons_of_pos hc]
      exact ih
    · rw [List.cons_append, skipBlanks_cons (by simpa using hc), skipBlanks_cons (by simpa using hc),
        List.cons_append]

/-- An argument in a call. -/
theorem isArgument_append {t v rest : Text} (h : IsArgument t v) (hrest : EndsArgument rest) :
    argumentLoop none none [] 0 (skipBlanks (t ++ rest)) = (some v, rest) := by
  rw [skipBlanks_append_end hrest]
  exact argumentLoop_append hrest h

/-- Every value that is read is that of an argument in front of the rest. -/
theorem argumentLoop_split {delI : Option Delimiter} {prev : Option Char} {dst : Text}
    {dstStopTrim : Nat} {src v rest : Text}
    (h : argumentLoop delI prev dst dstStopTrim src = (some v, rest)) :
    EndsArgument rest ∧ ∃ t, src = t ++ rest ∧
      argumentLoop delI prev dst dstStopTrim t = (some v, []) := by
  -- by strong induction on the text, as an escape takes two characters of it
  induction hn : src.length using Nat.strongRecOn generalizing delI prev dst dstStopTrim src with
  | ind n ih =>
    subst hn
    match delI, src with
    | some delI, [] => cases h
    | none, [] =>
      rw [argumentLoop_nil, Prod.mk.injEq, Option.some_inj] at h
      obtain ⟨rfl, rfl⟩ := h
      exact ⟨.inl rfl, [], rfl, rfl⟩
    | some delI, c :: src =>
      rw [argumentLoop_inside] at h
      rcases hescape : argumentEscape delI c (cur src) with _ | copied <;> rw [hescape] at h
      · dsimp only at h
        -- the closing delimiter leaves the value
        by_cases hc : c = delI.ending
        · rw [if_pos hc] at h
          obtain ⟨hrest, t, rfl, ht⟩ := ih _ (Nat.lt_succ_self _) h rfl
          rw [argumentEscape_append hrest hc] at hescape
          refine ⟨hrest, c :: t, rfl, ?_⟩
          rw [argumentLoop_inside, hescape]
          dsimp only
          rw [if_pos hc]
          exact ht
        · rw [if_neg hc] at h
          obtain ⟨hrest, t, rfl, ht⟩ := ih _ (Nat.lt_succ_self _) h rfl
          refine ⟨hrest, c :: t, rfl, ?_⟩
          match t with
          | [] => cases ht
          | next :: t =>
            rw [List.cons_append, cur_cons] at hescape
            rw [argumentLoop_inside, cur_cons, hescape]
            dsimp only
            rw [if_neg hc]
            exact ht
      · match src with
        | [] => cases h
        | next :: src =>
          obtain ⟨hrest, t, rfl, ht⟩ := ih src.length (by simp only [List.length_cons]; omega) h rfl
          refine ⟨hrest, c :: next :: t, rfl, ?_⟩
          rw [cur_cons] at hescape
          rw [argumentLoop_inside, cur_cons, hescape]
          exact ht
    | none, c :: src =>
      rw [argumentLoop_cons] at h
      by_cases hcomma : c = ','
      · rw [if_pos hcomma, Prod.mk.injEq, Option.some_inj] at h
        obtain ⟨rfl, rfl⟩ := h
        exact ⟨.inr hcomma, [], rfl, rfl⟩
      · rw [if_neg hcomma] at h
        -- a character is copied, or it opens a delimiter
        rcases hopens : argumentDelimiter prev c (cur src) with _ | delI <;> rw [hopens] at h
        all_goals
          obtain ⟨hrest, t, rfl, ht⟩ := ih _ (Nat.lt_succ_self _) h rfl
          rw [argumentDelimiter_append hrest] at hopens
          refine ⟨hrest, c :: t, rfl, ?_⟩
          rw [argumentLoop_cons, if_neg hcomma, hopens]
          exact ht

/-- An argument that is read in a call. -/
theorem isArgument_of_read {p v rest : Text}
    (h : argumentLoop none none [] 0 (skipBlanks p) = (some v, rest)) :
    EndsArgument rest ∧ ∃ t, p = t ++ rest ∧ IsArgument t v := by
  obtain ⟨hrest, t, ht, hloop⟩ := argumentLoop_split h
  refine ⟨hrest, p.takeWhile white ++ t, ?_, ?_⟩
  · rw [List.append_assoc, ← ht]
    exact List.takeWhile_append_dropWhile.symm
  · have hblanks : ∀ c ∈ p.takeWhile white, white c = true := fun c hc => List.mem_takeWhile_imp hc
    -- the rest does not start with a blank
    have hstop : skipBlanks t = t := by
      have hskip := skipBlanks_append_end hrest t
      rw [← ht, skipBlanks_skipBlanks, ht] at hskip
      exact (List.append_cancel_right hskip).symm
    rw [IsArgument, skipBlanks_append hblanks, hstop]
    exact hloop

/-! ### Several arguments -/

/-- Arguments, with commas between them. -/
def joinArguments : List Text → Text
  | [] => []
  | [t] => t
  | t :: t' :: ts => t ++ ',' :: joinArguments (t' :: ts)

/-- Behind an argument there is the end or a comma. -/
def joinRest : List Text → Text
  | [] => []
  | t :: ts => ',' :: joinArguments (t :: ts)

theorem joinArguments_cons (t : Text) (ts : List Text) :
    joinArguments (t :: ts) = t ++ joinRest ts := by
  cases ts with
  | nil => exact (List.append_nil t).symm
  | cons t' ts => rfl

theorem endsArgument_joinRest (ts : List Text) : EndsArgument (joinRest ts) := by
  cases ts with
  | nil => exact .inl rfl
  | cons t ts => exact .inr rfl

end Sjasmplus
