import Sjasmplus.Aint

/-!
# String literals as values (`GetCharConst…` in `reader.cpp`)

The two kinds of quotes differ in their escapes only.  `getCharConstAsString` reads a chain of
string literals joined by the `..` operator; its results are -2 (buffer full), -1 (syntax error),
0 (no string literal), 1 (apostrophes) and 2 (double quotes).
-/

namespace Sjasmplus

open Parsing ParseFn

/-- The value of the character behind a backslash, if the escape sequence is known. -/
def escapeValue (c : Char) : Option Nat :=
  if c = '\\' ∨ c = '\'' ∨ c = '"' ∨ c = '?' then some c.toNat
  else if c = '0' then some 0
  else if c = 'n' ∨ c = 'N' then some 10
  else if c = 't' ∨ c = 'T' then some 9
  else if c = 'v' ∨ c = 'V' then some 11
  else if c = 'b' ∨ c = 'B' then some 8
  else if c = 'r' ∨ c = 'R' then some 13
  else if c = 'f' ∨ c = 'F' then some 12
  else if c = 'a' ∨ c = 'A' then some 7
  else if c = 'e' ∨ c = 'E' then some 27
  else if c = 'd' ∨ c = 'D' then some 127
  else none

/-- `GetCharConstInDoubleQuotes`. -/
def getCharConstInDoubleQuotes : Reader Nat := do
  let op ← peek
  if cur op = '"' ∨ cur op = '\x00' then fail
  else if cur op ≠ '\\' then
    skip 1
    pure (cur op).toNat
  else
    match escapeValue (cur op.tail) with
    | some val =>
      skip 2
      pure val
    | none =>
      skip 1
      report [.warning "Unknown escape" (some op) .pass3]
      pure '\\'.toNat

/-- `GetCharConstInApostrophes`. -/
def getCharConstInApostrophes : Reader Nat := do
  let op ← peek
  if cur op = '\'' ∧ cur op.tail = '\'' then
    skip 2
    pure '\''.toNat
  else if cur op = '\'' ∨ cur op = '\x00' then fail
  else
    skip 1
    pure (cur op).toNat

/-- The characters of one string literal, as many as there is room for. -/
def charConstBytes (quotes : Bool) (add : Nat) : Nat → Reader (List Nat)
  | 0 => pure []
  | room + 1 => do
    match ← attempt (if quotes then getCharConstInDoubleQuotes else getCharConstInApostrophes) with
    | none => pure []
    | some val =>
      let bytes ← charConstBytes quotes add room
      pure ((val + add) % 256 :: bytes)

/-- Set the top bit of the last byte. -/
def markLast : List Nat → List Nat
  | [] => []
  | [b] => [b ||| 0x80]
  | b :: bytes => b :: markLast bytes

/-- The suffix behind a closing quote: `Z` adds a zero byte, `C` marks the last byte.  The result
is the new segment, or the code of an error with the bytes so far. -/
def charConstSuffix (elementP : Text) (room : Nat) (segment : List Nat) :
    Reader (Except (Int × List Nat) (List Nat)) := do
  let p ← peek
  if cur p = 'Z' then
    if room ≤ segment.length then pure (.error (-2, segment))
    else
      skip 1
      pure (.ok (segment ++ [0]))
  else if cur p = 'C' then
    skip 1
    if segment = [] then
      report [.error "C suffix can't patch empty string" (some elementP) .suppress]
      pure (.error (-1, []))
    else pure (.ok (markLast segment))
  else pure (.ok segment)

/-- One literal of the chain, from its opening quote to its suffix. -/
def charConstSegment (room add : Nat) : Reader (Except (Int × List Nat) (List Nat)) := do
  let elementP ← peek
  let quotes : Bool := cur elementP = '"'
  skip 1
  let segment ← charConstBytes quotes add room
  let p ← peek
  if cur p ≠ (if quotes then '"' else '\'') then
    if cur p ≠ '\x00' then pure (.error (-2, segment))
    else
      report [.error "Syntax error" (some elementP) .suppress]
      pure (.error (-1, segment))
  else
    skip 1
    let segment ← charConstSuffix elementP room segment
    report (if segment = .ok [] then [.warningById .emptyString (some elementP) .pass3] else [])
    pure segment

/-- The loop over the literals joined by `..`, at an opening quote, with the bytes so far.  Each turn
consumes its quote, so the fuel can be the length of the text. -/
def charConstSegments (maxEi add : Nat) : Nat → List Nat → Reader (Int × List Nat)
  | 0, e => pure (0, e)
  | fuel + 1, e => do
    let elementP ← peek
    match ← charConstSegment (maxEi - e.length) add with
    | .error (strRes, segment) => pure (strRes, e ++ segment)
    | .ok segment =>
      let oper ← scan fun p => needTable [('.', '.')] (skipBlanks p)
      if oper ≠ '.'.toNat + '.'.toNat then
        pure (if cur elementP = '"' then 2 else 1, e ++ segment)
      else
        scan fun p => ((), skipBlanks p)
        let p ← peek
        if cur p ≠ '"' ∧ cur p ≠ '\'' then
          report [.error "[..] String literal expected" (some p) .suppress]
          pure (-1, e ++ segment)
        else charConstSegments maxEi add fuel (e ++ segment)

/-- `GetCharConstAsString`, into an empty buffer. -/
def getCharConstAsString (maxEi add : Nat) : Reader (Int × List Nat) := do
  let p ← peek
  if cur p ≠ '"' ∧ cur p ≠ '\'' then pure (0, [])
  else charConstSegments maxEi add p.length []

/-- `GetCharConst`: a string literal as a single big-endian value. -/
def getCharConst : Reader Aint := do
  let op ← peek
  let (strRes, bytes) ← getCharConstAsString 128 0
  if strRes ≤ 0 then fail
  else
    let val : Aint := bytes.foldl (fun val b => (val <<< 8) + BitVec.ofNat 32 b) 0
    let p ← peek
    report (
      if bytes = [] then
        [.warning "Empty string literal converted to value 0!" (some op) .pass3]
      else if 4 < bytes.length then
        [.warning ("String literal truncated to 0x" ++ hexUpper val.toNat)
          (some (op.take (op.length - p.length))) .pass3]
      else [])
    pure val

/-! ### The cursor moves only forward -/

theorem getCharConstInDoubleQuotes_advances : Advances getCharConstInDoubleQuotes := by
  refine Advances.bind Advances.peek fun op => Advances.ite Advances.fail
    (Advances.ite (Advances.bind (Advances.skip 1) fun _ => Advances.pure _) ?_)
  cases escapeValue (cur op.tail) with
  | none => exact Advances.bind (Advances.skip 1) fun _ =>
      Advances.bind (Advances.report _) fun _ => Advances.pure _
  | some val => exact Advances.bind (Advances.skip 2) fun _ => Advances.pure _

theorem getCharConstInApostrophes_advances : Advances getCharConstInApostrophes := by
  refine Advances.bind Advances.peek fun op => Advances.ite ?_ (Advances.ite Advances.fail ?_)
  · exact Advances.bind (Advances.skip 2) fun _ => Advances.pure _
  · exact Advances.bind (Advances.skip 1) fun _ => Advances.pure _

theorem charConstBytes_advances (quotes : Bool) (add room : Nat) :
    Advances (charConstBytes quotes add room) := by
  induction room with
  | zero => exact Advances.pure _
  | succ room ih =>
    refine Advances.bind (Advances.attempt ?_) fun val => ?_
    · exact Advances.ite getCharConstInDoubleQuotes_advances
        getCharConstInApostrophes_advances
    · cases val with
      | none => exact Advances.pure _
      | some val => exact Advances.bind ih fun _ => Advances.pure _

theorem charConstSuffix_advances (elementP : Text) (room : Nat) (segment : List Nat) :
    Advances (charConstSuffix elementP room segment) := by
  refine Advances.bind Advances.peek fun p => Advances.ite ?_ (Advances.ite ?_ ?_)
  · exact Advances.ite (Advances.pure _)
      (Advances.bind (Advances.skip 1) fun _ => Advances.pure _)
  · exact Advances.bind (Advances.skip 1) fun _ => Advances.ite
      (Advances.bind (Advances.report _) fun _ => Advances.pure _) (Advances.pure _)
  · exact Advances.pure _

theorem charConstSegment_advances (room add : Nat) : Advances (charConstSegment room add) := by
  refine Advances.bind Advances.peek fun elementP => Advances.bind (Advances.skip 1) fun _ =>
    Advances.bind (charConstBytes_advances _ _ _) fun segment =>
    Advances.bind Advances.peek fun p => Advances.ite ?_ ?_
  · exact Advances.ite (Advances.pure _)
      (Advances.bind (Advances.report _) fun _ => Advances.pure _)
  · exact Advances.bind (Advances.skip 1) fun _ =>
      Advances.bind (charConstSuffix_advances _ _ _) fun _ =>
      Advances.bind (Advances.report _) fun _ => Advances.pure _

theorem charConstSegments_advances (maxEi add fuel : Nat) (e : List Nat) :
    Advances (charConstSegments maxEi add fuel e) := by
  induction fuel generalizing e with
  | zero => exact Advances.pure _
  | succ fuel ih =>
    refine Advances.bind Advances.peek fun elementP =>
      Advances.bind (charConstSegment_advances _ _) fun segment => ?_
    cases segment with
    | error strRes => exact Advances.pure _
    | ok segment =>
      refine Advances.bind (Advances.scan fun p => (needTable_suffix _ _).trans
        (skipBlanks_suffix p)) fun oper => Advances.ite (Advances.pure _) ?_
      exact Advances.bind (Advances.scan skipBlanks_suffix) fun _ =>
        Advances.bind Advances.peek fun p => Advances.ite
          (Advances.bind (Advances.report _) fun _ => Advances.pure _) (ih _)

theorem getCharConst_advances : Advances getCharConst := by
  refine Advances.bind Advances.peek fun op => Advances.bind ?_ fun res =>
    Advances.ite Advances.fail (Advances.bind Advances.peek fun p =>
      Advances.bind (Advances.report _) fun _ => Advances.pure _)
  exact Advances.bind Advances.peek fun p => Advances.ite (Advances.pure _)
    (charConstSegments_advances _ _ _ _)

/-! ### The buffer is never exceeded -/

theorem length_markLast (segment : List Nat) : (markLast segment).length = segment.length := by
  induction segment using markLast.induct with
  | case1 => rfl
  | case2 b => rfl
  | case3 b bytes hne ih => simp [markLast, ih]

theorem charConstBytes_yields (quotes : Bool) (add room : Nat) :
    Yields (charConstBytes quotes add room) fun bytes => bytes.length ≤ room := by
  induction room with
  | zero => exact .pure (Nat.le_refl 0)
  | succ room ih =>
    refine .after _ fun val => ?_
    cases val with
    | none => exact .pure (Nat.zero_le _)
    | some val => exact .bind ih fun bytes h => .pure (Nat.succ_le_succ h)

/-- The bytes of a segment, complete or not. -/
def segmentBytes : Except (Int × List Nat) (List Nat) → List Nat
  | .error e => e.2
  | .ok segment => segment

theorem charConstSuffix_yields (elementP : Text) {room : Nat} {segment : List Nat}
    (h : segment.length ≤ room) :
    Yields (charConstSuffix elementP room segment) fun r => (segmentBytes r).length ≤ room := by
  refine .after _ fun p => .ite (fun _ => .ite (fun _ => .pure h) fun hroom => .after _ fun _ =>
    .pure ?_) fun _ => .ite (fun _ => .after _ fun _ => .ite (fun _ => .after _ fun _ =>
      .pure (Nat.zero_le _)) fun _ => .pure ?_) fun _ => .pure h
  · show (segment ++ [0]).length ≤ room
    rw [List.length_append, List.length_singleton]
    omega
  · exact (length_markLast segment).trans_le h

theorem charConstSegment_yields (room add : Nat) :
    Yields (charConstSegment room add) fun r => (segmentBytes r).length ≤ room := by
  refine .after _ fun elementP => .after _ fun _ => .bind (charConstBytes_yields _ _ _)
    fun segment h => .after _ fun p => .ite (fun _ => .ite (fun _ => .pure h) fun _ =>
      .after _ fun _ => .pure h) fun _ => .after _ fun _ => ?_
  exact .bind (charConstSuffix_yields elementP h) fun segment h => .after _ fun _ => .pure h

theorem charConstSegments_yields (maxEi add fuel : Nat) {e : List Nat} (he : e.length ≤ maxEi) :
    Yields (charConstSegments maxEi add fuel e) fun r => r.2.length ≤ maxEi := by
  have happend : ∀ {e segment : List Nat}, e.length ≤ maxEi → segment.length ≤ maxEi - e.length →
      (e ++ segment).length ≤ maxEi := by
    intro e segment he h
    rw [List.length_append]
    omega
  induction fuel generalizing e with
  | zero => exact .pure he
  | succ fuel ih =>
    refine .after _ fun elementP => .bind (charConstSegment_yields _ _) fun segment h => ?_
    cases segment with
    | error r => exact .pure (happend he h)
    | ok segment =>
      refine .after _ fun oper => .ite (fun _ => .pure (happend he h)) fun _ => .after _ fun _ =>
        .after _ fun p => .ite (fun _ => .after _ fun _ => .pure (happend he h)) fun _ => ?_
      exact ih (happend he h)

/-- `GetCharConstAsString` writes at most as many bytes as there is room for. -/
theorem getCharConstAsString_yields (maxEi add : Nat) :
    Yields (getCharConstAsString maxEi add) fun r => r.2.length ≤ maxEi :=
  .after _ fun _ => .ite (fun _ => .pure (Nat.zero_le _)) fun _ =>
    charConstSegments_yields maxEi add _ (Nat.zero_le _)

/-! ### The codes of the results -/

/-- The result is the code of a syntax error. -/
def IsSyntaxError : Except (Int × List Nat) (List Nat) → Prop
  | .error e => e.1 = -1
  | .ok _ => False

/-- A syntax error is reported. -/
theorem charConstSegment_announces (room add : Nat) :
    Announces (charConstSegment room add) IsSyntaxError fun e => e.isError lastPass = true := by
  refine .after _ fun elementP => .after _ fun _ => .after _ fun segment => .after _ fun p =>
    .ite (fun _ => .ite (fun _ => .pure (by simp [IsSyntaxError])) fun _ =>
      .report_bind ⟨_, List.mem_singleton_self _, rfl⟩) fun _ => .after _ fun _ => ?_
  have hsuffix : Announces (charConstSuffix elementP room segment) IsSyntaxError
      fun e => e.isError lastPass = true := by
    refine .after _ fun p => .ite (fun _ => .ite (fun _ => .pure (by simp [IsSyntaxError])) fun _ =>
      .after _ fun _ => .pure id) fun _ => .ite (fun _ => .after _ fun _ => .ite (fun _ =>
        .report_bind ⟨_, List.mem_singleton_self _, rfl⟩) fun _ => .pure id) fun _ => .pure id
  exact .bind hsuffix fun segment h => .after _ fun _ => .pure h

theorem charConstSegments_announces (maxEi add fuel : Nat) (e : List Nat) :
    Announces (charConstSegments maxEi add fuel e) (fun r => r.1 = -1)
      fun e => e.isError lastPass = true := by
  induction fuel generalizing e with
  | zero => exact .pure (by simp)
  | succ fuel ih =>
    refine .after _ fun elementP => .bind (charConstSegment_announces _ _) fun segment h => ?_
    cases segment with
    | error r => exact .pure h
    | ok segment =>
      refine .after _ fun oper => .ite (fun _ => .pure ?_) fun _ => .after _ fun _ =>
        .after _ fun p => .ite (fun _ => .report_bind ⟨_, List.mem_singleton_self _, rfl⟩) fun _ => ih _
      dsimp only
      split_ifs <;> decide

/-- **A syntax error in a string literal is reported.** -/
theorem getCharConstAsString_announces (maxEi add : Nat) :
    Announces (getCharConstAsString maxEi add) (fun r => r.1 = -1)
      fun e => e.isError lastPass = true :=
  .after _ fun _ => .ite (fun _ => .pure (by simp)) fun _ => charConstSegments_announces _ _ _ _

/-- A segment consumes its quote. -/
theorem length_charConstSegment_lt (room add : Nat) {p : Text} (hp : p ≠ []) :
    (charConstSegment room add p).rest.length < p.length := by
  have hbehind : (charConstSegment room add p).rest <:+ p.drop 1 := by
    unfold charConstSegment
    rw [bind_silent (peek_apply p), bind_silent (skip_apply 1 p)]
    refine Advances.bind (charConstBytes_advances _ _ _) (fun segment => ?_) (p.drop 1)
    exact Advances.bind Advances.peek fun p => Advances.ite
      (Advances.ite (Advances.pure _) (Advances.bind (Advances.report _) fun _ => Advances.pure _))
      (Advances.bind (Advances.skip 1) fun _ => Advances.bind (charConstSuffix_advances _ _ _) fun _ =>
        Advances.bind (Advances.report _) fun _ => Advances.pure _)
  have := hbehind.length_le
  have := List.length_pos_iff.mpr hp
  rw [List.length_drop] at *
  omega

/-- The code of a literal that is not complete, or of one that is. -/
def IsLiteralCode (code : Int) : Prop := code = -1 ∨ code = -2 ∨ 0 < code

/-- The code of a segment that is an error. -/
theorem charConstSegment_code (room add : Nat) :
    Yields (charConstSegment room add) fun r => ∀ e, r = .error e → IsLiteralCode e.1 := by
  -- the three ways a segment ends: its values, a syntax error, and no room left
  have hok : ∀ segment : List Nat, ∀ e : Int × List Nat,
      (.ok segment : Except (Int × List Nat) (List Nat)) = .error e → IsLiteralCode e.1 := by
    rintro segment e ⟨⟩
  have hfault : ∀ segment : List Nat, ∀ e : Int × List Nat,
      (.error (-1, segment) : Except (Int × List Nat) (List Nat)) = .error e → IsLiteralCode e.1 := by
    rintro segment e ⟨⟩
    exact .inl rfl
  have hfull : ∀ segment : List Nat, ∀ e : Int × List Nat,
      (.error (-2, segment) : Except (Int × List Nat) (List Nat)) = .error e → IsLiteralCode e.1 := by
    rintro segment e ⟨⟩
    exact .inr (.inl rfl)
  -- an open quote without its end is an error of the first or the second kind
  refine .after _ fun elementP => .after _ fun _ => .after _ fun segment => .after _ fun p =>
    .ite (fun _ => .ite (fun _ => .pure (hfull _)) fun _ => .after _ fun _ =>
      .pure (hfault _)) fun _ => .after _ fun _ => ?_
  refine .bind (R := fun r => ∀ e, r = .error e → IsLiteralCode e.1) ?_ fun segment h =>
    .after _ fun _ => .pure h
  exact .after _ fun p => .ite (fun _ => .ite (fun _ => .pure (hfull _)) fun _ =>
    .after _ fun _ => .pure (hok _)) fun _ => .ite (fun _ => .after _ fun _ => .ite (fun _ =>
      .after _ fun _ => .pure (hfault _)) fun _ => .pure (hok _)) fun _ => .pure (hok _)

/-- The fuel is enough to come to an end of the chain. -/
theorem charConstSegments_code {maxEi add fuel : Nat} {e : List Nat} {p : Text} (hp : p ≠ [])
    (hfuel : p.length ≤ fuel) {r : Int × List Nat}
    (h : (charConstSegments maxEi add fuel e p).val = some r) : IsLiteralCode r.1 := by
  -- by induction on the fuel: each segment takes a character at least
  induction fuel generalizing e p with
  | zero => exact absurd (List.length_eq_zero_iff.mp (Nat.le_zero.mp hfuel)) hp
  | succ fuel ih =>
    unfold charConstSegments at h
    rw [bind_silent (peek_apply p)] at h
    obtain ⟨segment, hsegment, h⟩ := val_bind_eq_some.mp h
    have hshorter := length_charConstSegment_lt (maxEi - e.length) add hp
    cases segment with
    | error code =>
      obtain rfl := Option.some.inj h
      exact charConstSegment_code _ _ _ _ hsegment code rfl
    | ok segment =>
      set q := (charConstSegment (maxEi - e.length) add p).rest with hq
      obtain ⟨oper, -, h⟩ := val_bind_eq_some.mp h
      -- the operator behind a segment ends the literal, as an arithmetic one or as a comma
      split_ifs at h with hoper hquotes
      · obtain rfl := Option.some.inj h
        exact .inr (.inr (show (0 : Int) < 2 by decide))
      · obtain rfl := Option.some.inj h
        exact .inr (.inr (show (0 : Int) < 1 by decide))
      · obtain ⟨-, -, h⟩ := val_bind_eq_some.mp h
        rw [scan_apply, bind_silent (peek_apply _)] at h
        split_ifs at h with hquote
        · obtain ⟨-, -, h⟩ := val_bind_eq_some.mp h
          obtain rfl := Option.some.inj h
          exact .inl rfl
        · -- the next literal is shorter than this one
          refine ih (fun hnil => ?_) ?_ h
          · rw [hnil] at hquote
            exact hquote (by decide)
          · have := (skipBlanks_suffix (needTable [('.', '.')] (skipBlanks q)).2).length_le
            have := (needTable_suffix [('.', '.')] (skipBlanks q)).length_le
            have := (skipBlanks_suffix q).length_le
            show (skipBlanks (needTable [('.', '.')] (skipBlanks q)).2).length ≤ fuel
            omega

theorem charConstBytes_succeeds (quotes : Bool) (add room : Nat) :
    Succeeds (charConstBytes quotes add room) := by
  induction room with
  | zero => exact .pure _
  | succ room ih =>
    refine .bind (.attempt _) fun val => ?_
    cases val with
    | none => exact .pure _
    | some val => exact .bind ih fun _ => .pure _

theorem charConstSegment_succeeds (room add : Nat) : Succeeds (charConstSegment room add) := by
  have hsuffix : ∀ elementP segment, Succeeds (charConstSuffix elementP room segment) :=
    fun elementP segment => .bind .peek fun p => .ite (.ite (.pure _) (.bind (.skip 1) fun _ => .pure _))
      (.ite (.bind (.skip 1) fun _ => .ite (.bind (.report _) fun _ => .pure _) (.pure _)) (.pure _))
  exact .bind .peek fun elementP => .bind (.skip 1) fun _ => .bind (charConstBytes_succeeds _ _ _)
    fun segment => .bind .peek fun p => .ite (.ite (.pure _) (.bind (.report _) fun _ => .pure _))
      (.bind (.skip 1) fun _ => .bind (hsuffix _ _) fun _ => .bind (.report _) fun _ => .pure _)

theorem charConstSegments_succeeds (maxEi add fuel : Nat) (e : List Nat) :
    Succeeds (charConstSegments maxEi add fuel e) := by
  induction fuel generalizing e with
  | zero => exact .pure _
  | succ fuel ih =>
    refine .bind .peek fun elementP => .bind (charConstSegment_succeeds _ _) fun segment => ?_
    cases segment with
    | error r => exact .pure _
    | ok segment =>
      exact .bind (.scan _) fun oper => .ite (.pure _) (.bind (.scan _) fun _ => .bind .peek fun p =>
        .ite (.bind (.report _) fun _ => .pure _) (ih _))

/-- **What is no string literal is left as it is**, any other result is the code of a literal. -/
theorem getCharConstAsString_cases (maxEi add : Nat) (p : Text) :
    getCharConstAsString maxEi add p = ⟨some (0, []), p, []⟩ ∨
      ∃ r, (getCharConstAsString maxEi add p).val = some r ∧ IsLiteralCode r.1 := by
  unfold getCharConstAsString
  rw [bind_silent (peek_apply p)]
  split_ifs with hquote
  · exact .inl rfl
  · obtain ⟨r, hr⟩ := charConstSegments_succeeds maxEi add p.length [] p
    refine .inr ⟨r, hr, charConstSegments_code (fun hnil => ?_) le_rfl hr⟩
    rw [hnil] at hquote
    exact hquote (by decide)

end Sjasmplus
