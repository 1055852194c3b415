import Mathlib.Tactic.SplitIfs
import Mathlib.Tactic.FinCases
import Sjasmplus.Literal

/-!
# The numeric literals of the documentation and `GetConstant`

`DocumentedLiteral` is a literal in one of the documented notations: `12`, `12d`, `0xc`, `$c`, `#c`,
`0ch`, `0b1100`, `%1100`, `1100b`, `0q14`, `14q`, `14o`, with separators `'` and `_` between the
digits.  `GetConstant` takes two of them, `0b` and `0q`, for a prefix without digits; they are no
`NumericLiteral`.  `getConstant_text` is the result: in front of anything that cannot continue a
number, `getConstant` consumes exactly the numeric literal and yields its mathematical value modulo
`2^32`.
-/

namespace Sjasmplus

-- the checks over all ASCII characters are deep
set_option maxRecDepth 4000

/-! ### Characters of literals -/

/-- A property of all ASCII characters, checked one by one. -/
theorem ascii_forall {P : Char → Prop} (h : ∀ n < 128, P (Char.ofNat n)) {c : Char}
    (hc : c.toNat < 128) : P c := by
  have := h c.toNat hc
  rwa [Char.ofNat_toNat] at this

theorem toNat_lt_of_isAlphanum {c : Char} (h : c.isAlphanum = true) : c.toNat < 128 := by
  have hletter : c.isAlpha = true → c.toNat < 128 := by
    intro halpha
    rcases Bool.or_eq_true_iff.mp halpha with hupper | hlower
    · have hZ : c.toNat ≤ 90 := (of_decide_eq_true hupper).2
      omega
    · have hz : c.toNat ≤ 122 := of_decide_eq_true (Bool.and_eq_true_iff.mp hlower).2
      omega
  rcases Bool.or_eq_true_iff.mp h with halpha | hdigit
  · exact hletter halpha
  · have h9 : c.toNat ≤ 57 := of_decide_eq_true (Bool.and_eq_true_iff.mp hdigit).2
    omega

theorem not_isDigitSeparator_of_isAlphanum {c : Char} (h : c.isAlphanum = true) :
    isDigitSeparator c = false :=
  ascii_forall (P := fun c => c.isAlphanum = true → isDigitSeparator c = false)
    (by decide) (toNat_lt_of_isAlphanum h) h

/-- The letters that act as prefixes and suffixes are no digits up to base 10. -/
theorem lower20_of_getval_lt_ten {c : Char} (h : c.isAlphanum = true) (hc : getval c < 10) :
    lower20 c < 'a'.toNat :=
  ascii_forall (P := fun c => c.isAlphanum = true → getval c < 10 → lower20 c < 'a'.toNat)
    (by decide) (toNat_lt_of_isAlphanum h) h hc

/-- Hexadecimal digits are none of the prefix letters but `b`. -/
theorem lower20_of_getval_lt_sixteen {c : Char} (h : c.isAlphanum = true) (hc : getval c < 16) :
    lower20 c < 'g'.toNat :=
  ascii_forall (P := fun c => c.isAlphanum = true → getval c < 16 → lower20 c < 'g'.toNat)
    (by decide) (toNat_lt_of_isAlphanum h) h hc

theorem lower20_of_isDigitSeparator {c : Char} (h : isDigitSeparator c = true) :
    lower20 c ≠ 'x'.toNat ∧ lower20 c ≠ 'b'.toNat ∧ lower20 c ≠ 'q'.toNat := by
  simp only [isDigitSeparator, Bool.or_eq_true, decide_eq_true_eq] at h
  rcases h with rfl | rfl <;> decide

/-- Only a letter is lowercased to a letter. -/
theorem lower20_ne_of_not_isAlphanum {c : Char} (h : c.isAlphanum = false) {n : Nat}
    (hn : 'a'.toNat ≤ n ∧ n ≤ 'z'.toNat) : lower20 c ≠ n := by
  rintro rfl
  have hc : c.toNat < 128 :=
    Nat.lt_of_le_of_lt Nat.left_le_or (Nat.lt_of_le_of_lt hn.2 (by decide))
  exact ascii_forall (P := fun c => c.isAlphanum = false →
    ¬ ('a'.toNat ≤ lower20 c ∧ lower20 c ≤ 'z'.toNat)) (by decide) hc h hn

/-! ### The notations -/

/-- The documented notations. -/
inductive LiteralForm
  | decimal | decimalD | hexZeroX | hexDollar | hexHash | hexH | binZeroB | binPercent | binB
  | octZeroQ | octQ | octO
deriving DecidableEq, Repr

namespace LiteralForm

/-- The base of the digits. -/
def base : LiteralForm → Nat
  | decimal | decimalD => 10
  | hexZeroX | hexDollar | hexHash | hexH => 16
  | binZeroB | binPercent | binB => 2
  | octZeroQ | octQ | octO => 8

/-- The base as `GetConstant` passes it on. -/
def numberBase : LiteralForm → NumberBase
  | decimal | decimalD => .int 10
  | hexZeroX | hexDollar | hexHash | hexH => .shift 4
  | binZeroB | binPercent | binB => .shift 1
  | octZeroQ | octQ | octO => .shift 3

/-- What stands in front of the digits. -/
def opening (upper : Bool) : LiteralForm → Text
  | hexZeroX => ['0', if upper then 'X' else 'x']
  | hexDollar => ['$']
  | hexHash => ['#']
  | binZeroB => ['0', if upper then 'B' else 'b']
  | binPercent => ['%']
  | octZeroQ => ['0', if upper then 'Q' else 'q']
  | decimal | decimalD | hexH | binB | octQ | octO => []

/-- What stands behind the digits. -/
def closing (upper : Bool) : LiteralForm → Text
  | decimalD => [if upper then 'D' else 'd']
  | hexH => [if upper then 'H' else 'h']
  | binB => [if upper then 'B' else 'b']
  | octQ => [if upper then 'Q' else 'q']
  | octO => [if upper then 'O' else 'o']
  | decimal | hexZeroX | hexDollar | hexHash | binZeroB | binPercent | octZeroQ => []

/-- The notation has no prefix, so its first digit is a decimal one. -/
def bare : LiteralForm → Bool
  | decimal | decimalD | hexH | binB | octQ | octO => true
  | hexZeroX | hexDollar | hexHash | binZeroB | binPercent | octZeroQ => false

end LiteralForm

/-- Later digits of a literal, each with an optional separator in front. -/
abbrev LaterDigits := List (Option Char × Char)

namespace LaterDigits

/-- The characters of later digits. -/
def text (later : LaterDigits) : Text := later.flatMap fun d => d.1.toList ++ [d.2]

/-- Separators are separators and digits are digits of the base. -/
def Valid (base : Nat) (later : LaterDigits) : Prop :=
  ∀ d ∈ later, (∀ s ∈ d.1, isDigitSeparator s = true) ∧ d.2.isAlphanum = true ∧ getval d.2 < base

@[simp] theorem text_nil : text [] = [] := rfl

@[simp] theorem text_cons (d : Option Char × Char) (later : LaterDigits) :
    text (d :: later) = d.1.toList ++ d.2 :: text later := by
  simp [text]

theorem Valid.head {base : Nat} {d : Option Char × Char} {later : LaterDigits}
    (h : Valid base (d :: later)) :
    (∀ s ∈ d.1, isDigitSeparator s = true) ∧ d.2.isAlphanum = true ∧ getval d.2 < base :=
  h d List.mem_cons_self

theorem Valid.tail {base : Nat} {d : Option Char × Char} {later : LaterDigits}
    (h : Valid base (d :: later)) : Valid base later :=
  fun x hx => h x (List.mem_cons_of_mem _ hx)

end LaterDigits

/-- The digits up to some `_` look like a temporary label: decimal digits, `_`, `b` or `f`, and then
no character of a label. -/
def LaterDigits.temporary : LaterDigits → Bool
  | [] => false
  | (none, c) :: later => c.isDigit && temporary later
  | (some s, c) :: later =>
    s = '_' && (lower20 c = 'b'.toNat || lower20 c = 'f'.toNat) &&
      later.head?.any (·.1 = some '\'')

/-- A literal in one of the documented notations. -/
structure DocumentedLiteral where
  form : LiteralForm
  /-- The letters of prefix and suffix are uppercase. -/
  upper : Bool
  first : Char
  later : LaterDigits
  first_digit : first.isAlphanum = true ∧ getval first < form.base
  later_valid : later.Valid form.base
  bare_digit : form.bare = true → first.isDigit = true

namespace DocumentedLiteral

/-- The digits with their separators. -/
def digitText (lit : DocumentedLiteral) : Text := lit.first :: lit.later.text

/-- The characters of the literal. -/
def text (lit : DocumentedLiteral) : Text :=
  lit.form.opening lit.upper ++ lit.digitText ++ lit.form.closing lit.upper

/-- The number that the digits denote. -/
def number (lit : DocumentedLiteral) : Nat :=
  (lit.first :: lit.later.map Prod.snd).foldl (fun v c => v * lit.form.base + getval c) 0

/-- The number in 32-bit arithmetic. -/
def value (lit : DocumentedLiteral) : Aint := BitVec.ofNat 32 lit.number

end DocumentedLiteral

/-- A literal that `GetConstant` does not take for a prefix. -/
structure NumericLiteral extends DocumentedLiteral where
  not_prefix : form = .binB ∨ form = .octQ → first = '0' → later ≠ []

open DocumentedLiteral

/-- What may stand behind a literal: nothing that continues its digits or starts a fraction. -/
def literalStops (p : Text) : Bool :=
  !(cur p).isAlphanum && !(isDigitSeparator (cur p) && (cur p.tail).isAlphanum) &&
    !(cur p = '.' && (cur p.tail).isAlphanum)

/-! ### The end of a literal -/

theorem literalEnd_of_stops {p : Text} (h : literalStops p = true) : literalEnd p = p := by
  cases p with
  | nil => rfl
  | cons c p =>
    simp only [literalStops, cur_cons, List.tail_cons, Bool.and_eq_true, Bool.not_eq_true'] at h
    rw [literalEnd, h.1.1, h.1.2]
    rfl

theorem literalEnd_cons {c : Char} (h : c.isAlphanum = true) (p : Text) :
    literalEnd (c :: p) = literalEnd p := by
  rw [literalEnd, h]
  rfl

theorem literalEnd_later {base : Nat} {later : LaterDigits} (h : later.Valid base) (p : Text) :
    literalEnd (later.text ++ p) = literalEnd p := by
  induction later with
  | nil => rfl
  | cons d later ih =>
    obtain ⟨hsep, hdigit, -⟩ := h.head
    rw [LaterDigits.text_cons, List.append_assoc, List.cons_append]
    rcases hd : d.1 with _ | s
    · rw [Option.toList_none, List.nil_append, literalEnd_cons hdigit, ih h.tail]
    · have hs : isDigitSeparator s = true := hsep s (by rw [hd]; exact rfl)
      rw [Option.toList_some, List.singleton_append, literalEnd, cur_cons, hs, hdigit, Bool.and_true,
        Bool.or_true, if_pos rfl, literalEnd_cons hdigit, ih h.tail]

theorem LiteralForm.isAlphanum_closing (form : LiteralForm) (upper : Bool) :
    ∀ c ∈ form.closing upper, c.isAlphanum = true := by
  refine List.all_eq_true.mp ?_
  cases form <;> cases upper <;> rfl

/-- Digits, suffix and nothing more belong to the literal. -/
theorem NumericLiteral.literalEnd_digits (lit : NumericLiteral) {p : Text}
    (hp : literalStops p = true) :
    literalEnd (lit.digitText ++ (lit.form.closing lit.upper ++ p)) = p := by
  have hclosing : ∀ t : Text, (∀ c ∈ t, c.isAlphanum = true) →
      literalEnd (t ++ p) = literalEnd p := by
    intro t ht
    induction t with
    | nil => rfl
    | cons c t ih =>
      rw [List.cons_append, literalEnd_cons (ht c List.mem_cons_self)]
      exact ih fun x hx => ht x (List.mem_cons_of_mem _ hx)
  rw [digitText, List.cons_append, literalEnd_cons lit.first_digit.1,
    literalEnd_later lit.later_valid, hclosing _ (lit.form.isAlphanum_closing _), literalEnd_of_stops hp]

/-! ### The digit loop -/

section Loop

variable {base : Nat} {step : Aint → Aint → Aint × Bool}

theorem getNumericValueLoop_digit {c : Char} (h : c.isAlphanum = true) (hc : getval c < base)
    (n : Nat) (p : Text) (val : Aint) (err : Option NumericError) :
    getNumericValueLoop base step (n + 1) (c :: p) val err
      = getNumericValueLoop base step n p (step val (BitVec.ofNat 32 (getval c))).1
          (if (step val (BitVec.ofNat 32 (getval c))).2 then some .overflow else err) := by
  rw [getNumericValueLoop, cur_cons, not_isDigitSeparator_of_isAlphanum h, h]
  simp only [Bool.false_and, Bool.false_eq_true, if_false, Bool.not_true, Nat.not_le.mpr hc,
    List.tail_cons]

theorem getNumericValueLoop_separator {s c : Char} (hs : isDigitSeparator s = true)
    (h : c.isAlphanum = true) (n : Nat) (p : Text) (val : Aint) (err : Option NumericError) :
    getNumericValueLoop base step (n + 1) (s :: c :: p) val err
      = getNumericValueLoop base step n (c :: p) val err := by
  rw [getNumericValueLoop, cur_cons, List.tail_cons, cur_cons, hs, h]
  rfl

/-- The step on some digit says that the value overflows; `v` is the number in front of the digits. -/
def digitsLost (base : Nat) (step : Aint → Aint → Aint × Bool) : Nat → List Char → Bool
  | _, [] => false
  | v, c :: digits => (step (BitVec.ofNat 32 v) (BitVec.ofNat 32 (getval c))).2 ||
    digitsLost base step (v * base + getval c) digits

/-- Over valid digits the loop folds every digit in, and its error says whether a step overflowed. -/
theorem getNumericValueLoop_later
    (hstep : ∀ val d, (step val d).1 = val * BitVec.ofNat 32 base + d) {later : LaterDigits}
    (h : later.Valid base) (p : Text) (v : Nat) (err : Option NumericError) :
    getNumericValueLoop base step (LaterDigits.text later).length (LaterDigits.text later ++ p)
        (BitVec.ofNat 32 v) err
      = (BitVec.ofNat 32 ((later.map Prod.snd).foldl (fun v c => v * base + getval c) v),
          if digitsLost base step v (later.map Prod.snd) then some .overflow else err, p) := by
  induction later generalizing v err with
  | nil => rfl
  | cons d later ih =>
    obtain ⟨hsep, hdigit, hval⟩ := h.head
    -- the step on the digit, then the loop on the rest
    have hone : ∀ err,
        getNumericValueLoop base step ((LaterDigits.text later).length + 1)
            (d.2 :: (LaterDigits.text later ++ p))
            (BitVec.ofNat 32 v) err
          = (BitVec.ofNat 32 (((d :: later).map Prod.snd).foldl (fun v c => v * base + getval c) v),
              if digitsLost base step v ((d :: later).map Prod.snd) then some .overflow else err,
              p) := by
      intro err
      rw [getNumericValueLoop_digit hdigit hval, hstep, ← BitVec.ofNat_mul, ← BitVec.ofNat_add,
        ih h.tail, List.map_cons, digitsLost]
      cases (step (BitVec.ofNat 32 v) (BitVec.ofNat 32 (getval d.2))).2 <;> simp
    rw [LaterDigits.text_cons, List.append_assoc, List.cons_append, List.length_append,
      List.length_cons]
    rcases hd : d.1 with _ | s
    · rw [Option.toList_none, List.nil_append, List.length_nil, Nat.zero_add]
      exact hone err
    · have hs : isDigitSeparator s = true := hsep s (by rw [hd]; exact rfl)
      rw [Option.toList_some, List.singleton_append, List.length_singleton, Nat.add_comm 1,
        getNumericValueLoop_separator hs hdigit]
      exact hone err

end Loop

/-! ### The value of the digits -/

namespace NumberBase

/-- The base as a number. -/
def toNat : NumberBase → Nat
  | .shift shiftBase => 1 <<< shiftBase
  | .int base => base

/-- The step of the digit loop for this base. -/
def step : NumberBase → Aint → Aint → Aint × Bool
  | .shift shiftBase => twoBasedStep shiftBase
  | .int base => intBasedStep base

/-- Both steps shift the value by one digit of the base and add the new digit. -/
theorem step_fst (b : NumberBase) (val d : Aint) :
    (b.step val d).1 = val * BitVec.ofNat 32 b.toNat + d := by
  cases b with
  | int base => rfl
  | shift shiftBase =>
    have h : val <<< shiftBase = val * BitVec.ofNat 32 (1 <<< shiftBase) := by
      apply BitVec.eq_of_toNat_eq
      rw [BitVec.toNat_shiftLeft, BitVec.toNat_mul, BitVec.toNat_ofNat, Nat.shiftLeft_eq,
        Nat.one_shiftLeft, Nat.mul_mod_mod]
    show val <<< shiftBase + d = _
    rw [h]
    rfl

end NumberBase

theorem getNumericValue_eq (p : Text) (n : Nat) (b : NumberBase) :
    getNumericValue p (n + 1) b = getNumericValueLoop b.toNat b.step (n + 1) p 0 none := by
  cases b <;> rfl

theorem LiteralForm.toNat_numberBase (form : LiteralForm) : form.numberBase.toNat = form.base := by
  cases form <;> rfl

/-- All digits of a literal. -/
def DocumentedLiteral.digits (lit : DocumentedLiteral) : List Char :=
  lit.first :: lit.later.map Prod.snd

/-- The digit loop says that the literal overflows. -/
def DocumentedLiteral.lost (lit : DocumentedLiteral) : Bool :=
  digitsLost lit.form.base lit.form.numberBase.step 0 lit.digits

/-- The digits of a literal evaluate to its value. -/
theorem NumericLiteral.getNumericValue_digitText (lit : NumericLiteral) (p : Text) :
    getNumericValue (lit.digitText ++ p) lit.digitText.length lit.form.numberBase
      = (lit.value, if lit.lost then some .overflow else none, p) := by
  have hvalid : LaterDigits.Valid lit.form.base ((none, lit.first) :: lit.later) := by
    intro d hd
    rcases List.mem_cons.mp hd with rfl | hd
    · exact ⟨by simp, lit.first_digit⟩
    · exact lit.later_valid d hd
  rw [← lit.form.toNat_numberBase] at hvalid
  have h := getNumericValueLoop_later lit.form.numberBase.step_fst hvalid p 0 none
  rw [LaterDigits.text_cons, lit.form.toNat_numberBase] at h
  rw [digitText, List.length_cons, getNumericValue_eq, lit.form.toNat_numberBase]
  exact h

/-! ### The prefix and the suffix -/

theorem charBefore_append (l : Text) (c : Char) (p : Text) :
    charBefore (l ++ c :: p) (l.length + 1) = c := by
  rw [charBefore, Nat.add_sub_cancel, List.drop_left, cur_cons]

namespace NumericLiteral

variable (lit : NumericLiteral)

/-- The digits end with a digit. -/
theorem digitText_eq_append : ∃ (l : Text) (c : Char),
    lit.digitText = l ++ [c] ∧ c.isAlphanum = true ∧ getval c < lit.form.base := by
  rcases List.eq_nil_or_concat lit.later with h | ⟨later, d, h⟩
  · exact ⟨[], lit.first, by rw [digitText, h]; rfl, lit.first_digit⟩
  · refine ⟨lit.first :: (LaterDigits.text later ++ d.1.toList), d.2, ?_,
      (lit.later_valid d (by rw [h]; simp)).2⟩
    rw [digitText, h]
    simp [LaterDigits.text]

/-- The last character is the suffix, or the last digit where the notation has no suffix. -/
theorem text_eq_append : ∃ (l : Text) (c : Char), lit.text = l ++ [c] ∧
    (lit.form.closing lit.upper = [c] ∨
      lit.form.closing lit.upper = [] ∧ c.isAlphanum = true ∧ getval c < lit.form.base) := by
  have hclosing : lit.form.closing lit.upper = [] ∨ ∃ c, lit.form.closing lit.upper = [c] := by
    cases lit.form <;> simp [LiteralForm.closing]
  rcases hclosing with h | ⟨c, h⟩
  · obtain ⟨l, c, hl, hc⟩ := lit.digitText_eq_append
    exact ⟨lit.form.opening lit.upper ++ l, c, by rw [text, hl, h]; simp, Or.inr ⟨h, hc⟩⟩
  · exact ⟨lit.form.opening lit.upper ++ lit.digitText, c, by rw [text, h], Or.inl h⟩

/-- In a bare notation the first digit is decimal, so it is no prefix character. -/
theorem first_of_bare (h : lit.form.bare = true) :
    lit.first ≠ '#' ∧ lit.first ≠ '$' ∧ lit.first ≠ '%' := by
  have h := lit.bare_digit h
  refine ⟨?_, ?_, ?_⟩ <;> rintro hc <;> rw [hc] at h <;> exact absurd h (by decide)

/-- The second character of a bare literal does not make a first `0` a prefix. -/
theorem second_of_bare (h : lit.form.bare = true) {last : Char}
    (hlast : lit.form.closing lit.upper = [last] ∨ lit.form.closing lit.upper = [])
    {p : Text} (hp : literalStops p = true) (h0 : lit.first = '0') :
    lower20 (cur (lit.later.text ++ (lit.form.closing lit.upper ++ p))) ≠ 'x'.toNat ∧
    (lower20 (cur (lit.later.text ++ (lit.form.closing lit.upper ++ p))) = 'b'.toNat →
      lower20 last = 'h'.toNat) ∧
    lower20 (cur (lit.later.text ++ (lit.form.closing lit.upper ++ p))) ≠ 'q'.toNat := by
  -- a single digit has its suffix behind it, or what stops the literal
  rcases hl : lit.later with _ | ⟨d, later⟩
  · have hno : lit.form ≠ .binB ∧ lit.form ≠ .octQ :=
      ⟨fun hf => lit.not_prefix (Or.inl hf) h0 hl, fun hf => lit.not_prefix (Or.inr hf) h0 hl⟩
    have hcur : (cur p).isAlphanum = false := by
      simp only [literalStops, Bool.and_eq_true, Bool.not_eq_true'] at hp
      exact hp.1.1
    rw [LaterDigits.text_nil, List.nil_append]
    cases hf : lit.form <;> simp only [hf, LiteralForm.bare, Bool.false_eq_true, ne_eq,
      not_true_eq_false, and_false, false_and] at h hno
    case decimal =>
      rw [LiteralForm.closing, List.nil_append]
      exact ⟨lower20_ne_of_not_isAlphanum hcur (by decide),
        fun hb => absurd hb (lower20_ne_of_not_isAlphanum hcur (by decide)),
        lower20_ne_of_not_isAlphanum hcur (by decide)⟩
    all_goals
      simp only [LiteralForm.closing, List.cons_append, cur_cons]
      cases lit.upper <;> simp [lower20]
  · obtain ⟨hsep, hdigit, hval⟩ := (hl ▸ lit.later_valid).head
    rw [LaterDigits.text_cons, List.append_assoc]
    -- the second character is a digit, or the separator in front of it
    rcases hd : d.1 with _ | s
    · rw [Option.toList_none, List.nil_append, List.cons_append, cur_cons]
      cases hf : lit.form <;> simp only [hf, LiteralForm.bare, Bool.false_eq_true] at h
      -- a hexadecimal `b` is a digit, and then the literal ends with `h`
      case hexH =>
        have hlt := lower20_of_getval_lt_sixteen hdigit (by simpa only [hf, LiteralForm.base] using hval)
        refine ⟨fun hx => absurd hlt (by rw [hx]; decide), fun _ => ?_,
          fun hq => absurd hlt (by rw [hq]; decide)⟩
        rw [hf, LiteralForm.closing] at hlast
        obtain rfl : (if lit.upper then 'H' else 'h') = last := by simpa using hlast
        split_ifs <;> decide
      all_goals
        have hlt := lower20_of_getval_lt_ten hdigit
          (Nat.lt_of_lt_of_le hval (by rw [hf]; decide))
        exact ⟨fun hx => absurd hlt (by rw [hx]; decide), fun hb => absurd hlt (by rw [hb]; decide),
          fun hq => absurd hlt (by rw [hq]; decide)⟩
    · have hs := lower20_of_isDigitSeparator (hsep s (by rw [hd]; exact rfl))
      rw [Option.toList_some, List.singleton_append, List.cons_append, cur_cons]
      exact ⟨hs.1, fun hb => absurd hb hs.2.1, hs.2.2⟩

/-- The prefix of a literal is recognised, and a bare literal has none. -/
theorem prefixBase_text {last : Char}
    (hlast : lit.form.closing lit.upper = [last] ∨
      lit.form.closing lit.upper = [] ∧ last.isAlphanum = true ∧ getval last < lit.form.base)
    {p : Text} (hp : literalStops p = true) :
    (lit.form.bare = true ∧ prefixBase (lit.text ++ p) last = (none, lit.text ++ p)) ∨
    (lit.form.bare = false ∧ ∃ shiftBase, lit.form.numberBase = .shift shiftBase ∧
      prefixBase (lit.text ++ p) last = (some shiftBase, lit.digitText ++ p)) := by
  -- a literal with a prefix, and a bare one, whose first characters look like none
  rcases hb : lit.form.bare with _ | _
  · refine Or.inr ⟨rfl, ?_⟩
    cases hf : lit.form <;> simp only [hf, LiteralForm.bare, Bool.true_eq_false] at hb <;>
      refine ⟨_, rfl, ?_⟩ <;>
      simp only [text, hf, LiteralForm.opening, LiteralForm.closing, List.append_nil,
        List.cons_append, List.nil_append, prefixBase, cur_cons, List.tail_cons]
    -- `0b` is a prefix only if no `h` at the end makes it hexadecimal
    case binZeroB =>
      rw [hf] at hlast
      obtain ⟨-, hdigit, hval⟩ := hlast.resolve_left (by simp [LiteralForm.closing])
      have hlt := lower20_of_getval_lt_ten hdigit (Nat.lt_trans hval (by decide))
      have hh : lower20 last ≠ 'h'.toNat := fun hx => absurd hlt (by rw [hx]; decide)
      rw [if_neg (by decide), if_neg (by cases lit.upper <;> decide),
        if_pos ⟨trivial, by cases lit.upper <;> rfl, hh⟩]
    case octZeroQ =>
      rw [if_neg (by decide), if_neg (by cases lit.upper <;> decide),
        if_neg (by cases lit.upper <;> exact fun h => absurd h.2.1 (by decide)),
        if_pos ⟨trivial, by cases lit.upper <;> rfl⟩]
    case hexZeroX =>
      rw [if_neg (by decide), if_pos ⟨trivial, by cases lit.upper <;> rfl⟩]
    case hexDollar => rfl
    case hexHash => rfl
    case binPercent => rfl
  · refine Or.inl ⟨rfl, ?_⟩
    obtain ⟨h1, h2, h3⟩ := lit.first_of_bare hb
    have hopen : lit.form.opening lit.upper = [] := by
      cases hf : lit.form <;> simp_all [LiteralForm.bare, LiteralForm.opening]
    have htext : lit.text ++ p
        = lit.first :: (lit.later.text ++ (lit.form.closing lit.upper ++ p)) := by
      rw [text, hopen, digitText]
      simp
    have h := lit.second_of_bare hb (hlast.imp id And.left) hp
    rw [htext, prefixBase, cur_cons, List.tail_cons]
    -- a bare literal that starts with `0` must not go on like a prefix
    by_cases h0 : lit.first = '0'
    · obtain ⟨hx, hbh, hq⟩ := h h0
      simp only [h1, h2, h3, hx, hq, or_self, and_false, if_false]
      rw [if_neg fun hc => hc.2.2 (hbh hc.2.1)]
    · simp only [h0, h1, h2, h3, or_self, false_and, if_false]

/-- A literal without prefix has the base of its suffix, or base 10. -/
theorem suffixBase_last (hb : lit.form.bare = true) {last : Char}
    (hlast : lit.form.closing lit.upper = [last] ∨
      lit.form.closing lit.upper = [] ∧ last.isAlphanum = true ∧ getval last < lit.form.base) :
    (suffixBase last = some lit.form.numberBase ∧ lit.form.closing lit.upper = [last]) ∨
    (suffixBase last = none ∧ lit.form.numberBase = .int 10 ∧
      lit.form.closing lit.upper = []) := by
  cases hf : lit.form <;> simp only [hf, LiteralForm.bare, Bool.false_eq_true] at hb <;>
    rw [hf] at hlast
  -- without a suffix the last character is a decimal digit, below all suffix letters
  case decimal =>
    obtain ⟨-, hdigit, hval⟩ := hlast.resolve_left (by simp [LiteralForm.closing])
    have hlt := lower20_of_getval_lt_ten hdigit hval
    refine Or.inr ⟨?_, rfl, rfl⟩
    have hne : ∀ n, 'a'.toNat ≤ n → lower20 last ≠ n := fun n hn h => by omega
    rw [suffixBase, if_neg (hne _ (by decide)), if_neg (hne _ (by decide)),
      if_neg (hne _ (by decide)), if_neg (hne _ (by decide)), if_neg (hne _ (by decide))]
  all_goals
    refine Or.inl ?_
    rcases hlast with hlast | hlast
    · refine ⟨?_, hlast⟩
      simp only [LiteralForm.closing, List.cons.injEq, and_true] at hlast
      rw [← hlast]
      cases lit.upper <;> rfl
    · exact absurd hlast.1 (by simp [LiteralForm.closing])

/-- The text of the literal up to its digits does not matter for where it ends. -/
theorem literalEnd_text {p : Text} (hp : literalStops p = true) :
    literalEnd (if cur (lit.text ++ p) = '#' ∨ cur (lit.text ++ p) = '$' ∨
      cur (lit.text ++ p) = '%' then (lit.text ++ p).tail else lit.text ++ p) = p := by
  have hdigits := lit.literalEnd_digits hp
  -- the prefix is label characters like the digits, or the one character that is cut off
  rcases hb : lit.form.bare with _ | _
  · cases hf : lit.form <;> simp only [hf, LiteralForm.bare, Bool.true_eq_false] at hb <;>
      simp only [hf, text, LiteralForm.opening, LiteralForm.closing, List.append_assoc,
        List.cons_append, List.nil_append, cur_cons, List.tail_cons] at hdigits ⊢
    case hexDollar => exact hdigits
    case hexHash => exact hdigits
    case binPercent => exact hdigits
    all_goals
      rw [if_neg (by decide), literalEnd_cons (by decide),
        literalEnd_cons (by cases lit.upper <;> decide)]
      exact hdigits
  · obtain ⟨h1, h2, h3⟩ := lit.first_of_bare hb
    have htext : lit.text = lit.digitText ++ lit.form.closing lit.upper := by
      cases hf : lit.form <;> simp_all [LiteralForm.bare, LiteralForm.opening, text]
    rw [htext, List.append_assoc, digitText, List.cons_append, cur_cons, if_neg (by simp [h1, h2, h3])]
    exact hdigits

/-- The base and the digits of a literal are found. -/
theorem literalFormat_text {p : Text} (hp : literalStops p = true) :
    ∃ t mayHaveDecimalPart, literalFormat (lit.text ++ p) lit.text.length
      = (lit.form.numberBase, lit.digitText ++ t, lit.digitText.length, mayHaveDecimalPart) := by
  obtain ⟨l, last, hl, hlast⟩ := lit.text_eq_append
  have hbefore : charBefore (lit.text ++ p) lit.text.length = last := by
    rw [hl, List.append_assoc, List.singleton_append, List.length_append, List.length_singleton,
      charBefore_append]
  have hlen : lit.text.length = (lit.form.opening lit.upper).length + lit.digitText.length
      + (lit.form.closing lit.upper).length := by
    rw [text, List.length_append, List.length_append]
  rw [literalFormat, hbefore]
  -- the prefix decides ahead of the suffix
  rcases lit.prefixBase_text hlast hp with ⟨hb, hpre⟩ | ⟨hb, shiftBase, hbase, hpre⟩
  · have hopen : lit.form.opening lit.upper = [] := by
      cases hf : lit.form <;> simp_all [LiteralForm.bare, LiteralForm.opening]
    have htext : lit.text ++ p = lit.digitText ++ (lit.form.closing lit.upper ++ p) := by
      rw [text, hopen, List.nil_append, List.append_assoc]
    -- the suffix counts to the text but not to the digits
    rcases lit.suffixBase_last hb hlast with ⟨hsuf, hclose⟩ | ⟨hsuf, hbase, hclose⟩
    · refine ⟨lit.form.closing lit.upper ++ p, false, ?_⟩
      rw [hpre, ← htext]
      simp only [hsuf, hlen, hopen, hclose, List.length_nil, List.length_singleton, Nat.zero_add,
        Nat.add_sub_cancel]
    · refine ⟨lit.form.closing lit.upper ++ p, true, ?_⟩
      rw [hpre, ← htext]
      simp only [hsuf, hlen, hopen, hclose, hbase, List.length_nil, Nat.zero_add, Nat.add_zero]
  · have hclose : lit.form.closing lit.upper = [] := by
      cases hf : lit.form <;> simp_all [LiteralForm.bare, LiteralForm.closing]
    refine ⟨p, true, ?_⟩
    have hn : lit.text.length - ((lit.text ++ p).length - (lit.digitText ++ p).length)
        = lit.digitText.length := by
      rw [hclose, List.length_nil] at hlen
      simp only [List.length_append]
      omega
    simp only [hpre, hbase, hn]

/-- In front of anything that cannot continue the number, `getConstant` consumes exactly the literal,
yields its value modulo `2^32`, and reports what the digit loop found. -/
theorem getConstant_literal {p : Text} (hp : literalStops p = true) :
    getConstant (lit.text ++ p) = ⟨some lit.value, p,
      if lit.lost then [.error "Overflow" (some (lit.text ++ p)) .suppress] else []⟩ := by
  obtain ⟨t, mayHaveDecimalPart, hformat⟩ := lit.literalFormat_text hp
  have hvalue := lit.getNumericValue_digitText t
  obtain ⟨l, c, hl, hc, -⟩ := lit.digitText_eq_append
  have hsize : (lit.text ++ p).length - p.length = lit.text.length := by
    rw [List.length_append, Nat.add_sub_cancel]
  -- a separator is neither the first nor the last character of the digits
  have hfirst : isDigitSeparator (cur (lit.digitText ++ t)) = false :=
    not_isDigitSeparator_of_isAlphanum lit.first_digit.1
  have hlast : isDigitSeparator (charBefore (lit.digitText ++ t) lit.digitText.length) = false := by
    rw [hl, List.append_assoc, List.singleton_append, List.length_append, List.length_singleton,
      charBefore_append]
    exact not_isDigitSeparator_of_isAlphanum hc
  -- what follows is no decimal part
  have hpoint : (cur p = '.' && (cur p.tail).isAlphanum) = false := by
    simp only [literalStops, Bool.and_eq_true, Bool.not_eq_true'] at hp
    exact hp.2
  rw [getConstant, Parsing.ParseFn.bind_silent (Parsing.ParseFn.peek_apply _)]
  simp only [lit.literalEnd_text hp, hsize, hformat, hfirst, hlast, hvalue, Bool.or_self,
    Bool.false_eq_true, if_false, Bool.and_assoc, hpoint, Bool.and_false]
  cases lit.lost <;> rfl

/-- **Numeric literals**: in front of anything that cannot continue the number, `getConstant`
consumes exactly the literal and yields its value modulo `2^32`.  Its only message can be the
overflow error. -/
theorem getConstant_text {p : Text} (hp : literalStops p = true) :
    ∃ log, getConstant (lit.text ++ p) = ⟨some lit.value, p, log⟩ ∧
      (log = [] ∨ log = [.error "Overflow" (some (lit.text ++ p)) .suppress]) := by
  refine ⟨_, lit.getConstant_literal hp, ?_⟩
  cases lit.lost
  · exact Or.inl rfl
  · exact Or.inr rfl

end NumericLiteral

end Sjasmplus
