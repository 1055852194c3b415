import Mathlib.Data.List.DropRight
import Sjasmplus.Lib.Parser

/-!
# Source text and the character level of `reader.cpp`

A source line is a list of characters, each standing for one byte; the end of the list stands for
the terminating zero, so `cur [] = '\0'`.  The character classes are those of the C locale.

The matchers of `reader.cpp` that only look at the text are plain functions here: `skipBlanks`,
`cmphstr`, `needTable` (the two-character table of `need(p, const char*)`), `needa`.
-/

namespace Sjasmplus

/-- The text from a position to the end of the line. -/
abbrev Text := List Char

/-- `LINEMAX`. -/
def lineMax : Nat := 2048

/-- The character under the pointer, the terminating zero at the end of the text. -/
def cur (p : Text) : Char := p.headD '\x00'

@[simp] theorem cur_nil : cur [] = '\x00' := rfl

@[simp] theorem cur_cons (c : Char) (p : Text) : cur (c :: p) = c := rfl

/-! ### Character classes -/

/-- `White`: any character from 1 to the blank. -/
def white (c : Char) : Bool := c ≠ '\x00' && c ≤ ' '

/-- `islabchar`: a character that may stand inside a label. -/
def islabchar (c : Char) : Bool :=
  c.isAlphanum || c = '_' || c = '.' || c = '?' || c = '!' || c = '#' || c = '@'

/-- The first character of a label behind its modifier. -/
def isLabelHead (c : Char) : Bool := c.isAlpha || c = '_'

/-- `isLabelStart`: a label may start here, with one modifier `.` or `@` when these are allowed. -/
def isLabelStart (p : Text) (modifiersAllowed : Bool := true) : Bool :=
  if modifiersAllowed && (cur p = '.' || cur p = '@') then isLabelHead (cur p.tail)
  else isLabelHead (cur p)

/-- `c | 0x20`, which lowercases an ASCII letter. -/
def lower20 (c : Char) : Nat := c.toNat ||| 0x20

/-! ### Blanks -/

/-- `SkipBlanks`: move over white characters. -/
def skipBlanks (p : Text) : Text := p.dropWhile white

@[simp] theorem skipBlanks_nil : skipBlanks [] = [] := rfl

@[simp] theorem skipBlanks_blank (p : Text) : skipBlanks (' ' :: p) = skipBlanks p := rfl

theorem skipBlanks_cons {c : Char} (h : white c = false) (p : Text) :
    skipBlanks (c :: p) = c :: p := by
  rw [skipBlanks, List.dropWhile_cons, h]
  rfl

/-- Skipping blanks twice is skipping them once. -/
@[simp] theorem skipBlanks_skipBlanks (p : Text) : skipBlanks (skipBlanks p) = skipBlanks p :=
  List.dropWhile_idempotent _ p

theorem skipBlanks_append {ws : Text} (h : ∀ c ∈ ws, white c = true) (p : Text) :
    skipBlanks (ws ++ p) = skipBlanks p :=
  List.dropWhile_append_of_pos h

theorem skipBlanks_suffix (p : Text) : skipBlanks p <:+ p := List.dropWhile_suffix white

theorem length_skipBlanks_le (p : Text) : (skipBlanks p).length ≤ p.length :=
  (skipBlanks_suffix p).length_le

/-! ### Keywords -/

/-- The text behind `kw` when the text starts with `kw`. -/
def stripPrefix : List Char → Text → Option Text
  | [], p => some p
  | k :: ks, c :: p => if k = c then stripPrefix ks p else none
  | _ :: _, [] => none

theorem stripPrefix_eq_some {kw p q : List Char} : stripPrefix kw p = some q ↔ p = kw ++ q := by
  induction kw generalizing p with
  | nil => simp [stripPrefix, eq_comm]
  | cons k ks ih =>
    cases p with
    | nil => simp [stripPrefix]
    | cons c p =>
      simp only [stripPrefix, List.cons_append, List.cons.injEq]
      split_ifs with h
      · rw [ih, h]; simp
      · simp [eq_comm, h]

/-- What may follow a keyword: the end of the line, a white character, a comment, or an opening
parenthesis where that is allowed. -/
def keywordEnds (p : Text) (allowParenthesisEnd : Bool) : Bool :=
  cur p = '\x00' || white (cur p) || cur p = ';' || (cur p = '/' && cur p.tail = '/') ||
    (cur p = '/' && cur p.tail = '*') || (allowParenthesisEnd && cur p = '(')

/-- `cmphstr`: the text behind the keyword `kw`, written all lowercase or all uppercase, when the
keyword ends there.  Characters in front of the first letter do not decide the case. -/
def cmphstr (p : Text) (kw : List Char) (allowParenthesisEnd : Bool := false) : Option Text :=
  let front := kw.takeWhile (!·.isAlpha)
  let word := kw.dropWhile (!·.isAlpha)
  match stripPrefix front p with
  | none => none
  | some p₁ =>
    match stripPrefix (if (cur p₁).isUpper then word.map Char.toUpper else word) p₁ with
    | none => none
    | some p₂ => if keywordEnds p₂ allowParenthesisEnd then some p₂ else none

theorem length_le_of_stripPrefix {kw p q : List Char} (h : stripPrefix kw p = some q) :
    q.length + kw.length = p.length := by
  rw [stripPrefix_eq_some.mp h, List.length_append, Nat.add_comm]

/-- A matched keyword is consumed. -/
theorem length_of_cmphstr {p q : Text} {kw : List Char} {a : Bool}
    (h : cmphstr p kw a = some q) : q.length + kw.length = p.length := by
  have hkw : (kw.takeWhile (!·.isAlpha)).length + (kw.dropWhile (!·.isAlpha)).length
      = kw.length := by
    rw [← List.length_append, List.takeWhile_append_dropWhile]
  unfold cmphstr at h
  dsimp only at h
  split at h
  · exact absurd h (by simp)
  · rename_i p₁ h₁
    split at h
    · exact absurd h (by simp)
    · rename_i p₂ h₂
      split_ifs at h
      obtain rfl := Option.some.inj h
      have e₁ := length_le_of_stripPrefix h₁
      have e₂ := length_le_of_stripPrefix h₂
      rw [apply_ite List.length, List.length_map, ite_self] at e₂
      omega

/-- The text behind a keyword is the end of the text. -/
theorem cmphstr_suffix {p q : Text} {kw : List Char} {a : Bool} (h : cmphstr p kw a = some q) :
    q <:+ p := by
  have hstrip : ∀ {kw p q : Text}, stripPrefix kw p = some q → q <:+ p := fun h =>
    ⟨_, (stripPrefix_eq_some.mp h).symm⟩
  unfold cmphstr at h
  dsimp only at h
  split at h
  · exact absurd h (by simp)
  · rename_i p₁ h₁
    split at h
    · exact absurd h (by simp)
    · rename_i p₂ h₂
      split_ifs at h
      obtain rfl := Option.some.inj h
      exact (hstrip h₂).trans (hstrip h₁)

/-! ### Operators -/

/-- The table walk of `need(p, const char*)`: each pair is a character with a blank (that character
alone), with `_` (that character unless it is doubled) or with its second character.  The result is
the operator's code (the sum of its characters, 0 for none) and the moved text. -/
def needTable : List (Char × Char) → Text → Nat × Text
  | [], p => (0, p)
  | (a, b) :: table, p =>
    if cur p ≠ a then needTable table p
    else if b = ' ' then (a.toNat, p.tail)
    else if b = '_' ∧ cur p.tail ≠ a then (a.toNat, p.tail)
    else if cur p.tail = b then (a.toNat + b.toNat, p.tail.tail)
    else needTable table p

/-- `needa`: the code of the first keyword of the list that the text starts with. -/
def needa (p : Text) : List (List Char × Nat) → Bool → Nat × Text
  | [], _ => (0, p)
  | (kw, code) :: kws, allowParenthesisEnd =>
    if !(cur p).isAlpha then (0, p)
    else
      match cmphstr p kw allowParenthesisEnd with
      | some q => (code, q)
      | none => needa p kws allowParenthesisEnd

/-- The walk only moves forward. -/
theorem needTable_suffix (table : List (Char × Char)) (p : Text) : (needTable table p).2 <:+ p := by
  induction table with
  | nil => exact List.suffix_refl p
  | cons ab table ih =>
    unfold needTable
    split_ifs
    · exact ih
    · exact List.tail_suffix p
    · exact List.tail_suffix p
    · exact (List.tail_suffix _).trans (List.tail_suffix p)
    · exact ih

/-- A matched operator is consumed. -/
theorem length_needTable_lt {table : List (Char × Char)} {p : Text}
    (htable : ∀ ab ∈ table, ab.1 ≠ '\x00') (h : (needTable table p).1 ≠ 0) :
    (needTable table p).2.length < p.length := by
  induction table with
  | nil => exact absurd rfl h
  | cons ab table ih =>
    have ih := ih fun x hx => htable x (List.mem_cons_of_mem _ hx)
    have hab := htable ab List.mem_cons_self
    unfold needTable at h ⊢
    cases p with
    | nil => simp_all [eq_comm]
    | cons c p =>
      split_ifs at h ⊢
      · exact ih h
      · simp
      · simp
      · simp only [List.tail_cons, List.length_tail, List.length_cons]; omega
      · exact ih h

theorem needa_suffix (p : Text) (kws : List (List Char × Nat)) (a : Bool) :
    (needa p kws a).2 <:+ p := by
  induction kws with
  | nil => exact List.suffix_refl p
  | cons kw kws ih =>
    unfold needa
    split_ifs
    · exact List.suffix_refl p
    · split
      · exact cmphstr_suffix ‹_›
      · exact ih

/-- A matched keyword operator is consumed. -/
theorem length_needa_lt {p : Text} {kws : List (List Char × Nat)} {a : Bool}
    (hkws : ∀ kw ∈ kws, kw.1 ≠ []) (h : (needa p kws a).1 ≠ 0) :
    (needa p kws a).2.length < p.length := by
  induction kws with
  | nil => exact absurd rfl h
  | cons kw kws ih =>
    have hkw := List.length_pos_of_ne_nil (hkws kw List.mem_cons_self)
    unfold needa at h ⊢
    split_ifs at h ⊢
    · exact absurd rfl h
    · cases hq : cmphstr p kw.1 a with
      | some q =>
        have : q.length + kw.1.length = p.length := length_of_cmphstr hq
        dsimp only
        omega
      | none =>
        rw [hq] at h
        exact ih (fun x hx => hkws x (List.mem_cons_of_mem _ hx)) h

end Sjasmplus
