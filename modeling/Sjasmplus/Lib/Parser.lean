import Mathlib.Data.List.Basic
import Mathlib.Tactic.SplitIfs

/-!
# Parse functions that move a cursor and report messages

A parse function reads the text at a cursor, moves the cursor, may report messages and returns a
value or fails.  Failing keeps the moved cursor and the messages, so a caller may restore the old
cursor and try something else, while the messages stay reported.

* `bind_some`, `bind_silent`, `bind_none`: how a sequence runs once its first part is known;
* `Advances`: the cursor only moves forward over the text; the law is closed under sequencing, and
  `NeverGrows` follows, the law for the length of the remaining text;
* `chainLeft`: the loop `sub (oper sub)*` that folds to the left.  Its fuel is the length of the
  remaining text, which is always enough (`chainLeftLoop_fuel`), so that the loop obeys the rules
  `chainLeftRest_stop` and `chainLeftRest_step`, which no longer mention fuel.
-/

namespace Parsing

variable {τ ε α β : Type}

/-- What a parse function leaves behind: the value (`none` when it failed), the text at the moved
cursor, and the messages it reported, oldest first. -/
structure Outcome (τ ε α : Type) where
  val : Option α
  rest : List τ
  log : List ε
deriving DecidableEq, Repr

theorem Outcome.ext {o o' : Outcome τ ε α} (hval : o.val = o'.val) (hrest : o.rest = o'.rest)
    (hlog : o.log = o'.log) : o = o' := by
  cases o
  cases o'
  simp_all

/-- The outcome with earlier messages in front of its own. -/
def Outcome.after (l : List ε) (o : Outcome τ ε α) : Outcome τ ε α :=
  ⟨o.val, o.rest, l ++ o.log⟩

@[simp] theorem Outcome.after_mk (l l' : List ε) (v : Option α) (q : List τ) :
    Outcome.after l ⟨v, q, l'⟩ = ⟨v, q, l ++ l'⟩ := rfl

@[simp] theorem Outcome.after_nil (o : Outcome τ ε α) : o.after [] = o := rfl

@[simp] theorem Outcome.after_rest (l : List ε) (o : Outcome τ ε α) :
    (o.after l).rest = o.rest := rfl

@[simp] theorem Outcome.after_after (l l' : List ε) (o : Outcome τ ε α) :
    (o.after l').after l = o.after (l ++ l') := by
  simp only [Outcome.after, List.append_assoc]

/-- A parse function over the text `List τ`, with messages in `ε`. -/
def ParseFn (τ ε α : Type) : Type := List τ → Outcome τ ε α

namespace ParseFn

/-- Continue an outcome with the next parse function. -/
def andThen (o : Outcome τ ε α) (f : α → ParseFn τ ε β) : Outcome τ ε β :=
  match o.val with
  | none => ⟨none, o.rest, o.log⟩
  | some a => (f a o.rest).after o.log

instance : Monad (ParseFn τ ε) where
  pure a := fun p => ⟨some a, p, []⟩
  bind x f := fun p => andThen (x p) f

/-- Fail without moving the cursor. -/
def fail : ParseFn τ ε α := fun p => ⟨none, p, []⟩

/-- The text at the cursor. -/
def peek : ParseFn τ ε (List τ) := fun p => ⟨some p, p, []⟩

/-- Move the cursor to the text `q`. -/
def seek (q : List τ) : ParseFn τ ε Unit := fun _ => ⟨some (), q, []⟩

/-- Move the cursor over `n` characters. -/
def skip (n : Nat) : ParseFn τ ε Unit := fun p => ⟨some (), p.drop n, []⟩

/-- Run a plain matcher, which returns its result and the moved text. -/
def scan (f : List τ → α × List τ) : ParseFn τ ε α := fun p => ⟨some (f p).1, (f p).2, []⟩

/-- Report messages. -/
def report (l : List ε) : ParseFn τ ε Unit := fun p => ⟨some (), p, l⟩

/-- Run a parse function and hand over its failure as a value. -/
def attempt (x : ParseFn τ ε α) : ParseFn τ ε (Option α) :=
  fun p => ⟨some (x p).val, (x p).rest, (x p).log⟩

/-- Run `x`; if it fails, run `y` from the old cursor.  The messages of `x` stay reported. -/
def orElse (x y : ParseFn τ ε α) : ParseFn τ ε α := fun p =>
  match (x p).val with
  | some _ => x p
  | none => (y p).after (x p).log

@[simp] theorem pure_apply (a : α) (p : List τ) :
    (pure a : ParseFn τ ε α) p = ⟨some a, p, []⟩ := rfl

@[simp] theorem fail_apply (p : List τ) : (fail : ParseFn τ ε α) p = ⟨none, p, []⟩ := rfl

@[simp] theorem peek_apply (p : List τ) : (peek : ParseFn τ ε _) p = ⟨some p, p, []⟩ := rfl

@[simp] theorem seek_apply (q p : List τ) : (seek q : ParseFn τ ε _) p = ⟨some (), q, []⟩ := rfl

@[simp] theorem skip_apply (n : Nat) (p : List τ) :
    (skip n : ParseFn τ ε _) p = ⟨some (), p.drop n, []⟩ := rfl

@[simp] theorem scan_apply (f : List τ → α × List τ) (p : List τ) :
    (scan f : ParseFn τ ε α) p = ⟨some (f p).1, (f p).2, []⟩ := rfl

@[simp] theorem report_apply (l : List ε) (p : List τ) : report l p = ⟨some (), p, l⟩ := rfl

@[simp] theorem attempt_apply (x : ParseFn τ ε α) (p : List τ) :
    attempt x p = ⟨some (x p).val, (x p).rest, (x p).log⟩ := rfl

theorem bind_apply (x : ParseFn τ ε α) (f : α → ParseFn τ ε β) (p : List τ) :
    (x >>= f) p = andThen (x p) f := rfl

@[simp] theorem andThen_none (q : List τ) (l : List ε) (f : α → ParseFn τ ε β) :
    andThen ⟨none, q, l⟩ f = ⟨none, q, l⟩ := rfl

@[simp] theorem andThen_some (a : α) (q : List τ) (l : List ε) (f : α → ParseFn τ ε β) :
    andThen ⟨some a, q, l⟩ f = (f a q).after l := rfl

/-- A sequence whose first part succeeds. -/
theorem bind_some {x : ParseFn τ ε α} {p q : List τ} {a : α} {l : List ε}
    (h : x p = ⟨some a, q, l⟩) (f : α → ParseFn τ ε β) : (x >>= f) p = (f a q).after l := by
  rw [bind_apply, h, andThen_some]

/-- A sequence whose first part succeeds silently. -/
theorem bind_silent {x : ParseFn τ ε α} {p q : List τ} {a : α}
    (h : x p = ⟨some a, q, []⟩) (f : α → ParseFn τ ε β) : (x >>= f) p = f a q := by
  rw [bind_some h, Outcome.after_nil]

/-- A sequence whose first part fails. -/
theorem bind_none {x : ParseFn τ ε α} {p q : List τ} {l : List ε}
    (h : x p = ⟨none, q, l⟩) (f : α → ParseFn τ ε β) : (x >>= f) p = ⟨none, q, l⟩ := by
  rw [bind_apply, h, andThen_none]

theorem orElse_none {x : ParseFn τ ε α} {p q : List τ} {l : List ε} (h : x p = ⟨none, q, l⟩)
    (y : ParseFn τ ε α) : orElse x y p = (y p).after l := by
  rw [orElse, h]

/-- Two sequences agree at a cursor when their parts agree where they run. -/
theorem bind_congr {x y : ParseFn τ ε α} {f g : α → ParseFn τ ε β} {p : List τ} (hx : x p = y p)
    (hf : ∀ a, (x p).val = some a → f a (x p).rest = g a (x p).rest) :
    (x >>= f) p = (y >>= g) p := by
  rw [bind_apply, bind_apply, ← hx, andThen, andThen]
  split
  · rfl
  · rw [hf _ ‹_›]

theorem orElse_congr {x x' y y' : ParseFn τ ε α} {p : List τ} (hx : x p = x' p)
    (hy : y p = y' p) : orElse x y p = orElse x' y' p := by
  rw [orElse, orElse, hx, hy]

theorem attempt_congr {x y : ParseFn τ ε α} {p : List τ} (h : x p = y p) :
    attempt x p = attempt y p := by
  rw [attempt_apply, attempt_apply, h]

end ParseFn

/-! ### Parse functions that never grow the text -/

/-- The text left at the cursor is never longer than the text at the start. -/
def NeverGrows (x : ParseFn τ ε α) : Prop := ∀ p, (x p).rest.length ≤ p.length

namespace NeverGrows

theorem pure (a : α) : NeverGrows (pure a : ParseFn τ ε α) := fun _ => Nat.le_refl _

theorem report (l : List ε) : NeverGrows (ParseFn.report l : ParseFn τ ε Unit) := fun _ => Nat.le_refl _

/-- A sequence leaves at most `n` characters when both parts do. -/
theorem rest_bind_le {x : ParseFn τ ε α} {f : α → ParseFn τ ε β} {p : List τ} {n : Nat}
    (hx : (x p).rest.length ≤ n) (hf : ∀ a, (f a (x p).rest).rest.length ≤ n) :
    ((x >>= f) p).rest.length ≤ n := by
  rw [ParseFn.bind_apply, ParseFn.andThen]
  split
  · exact hx
  · exact hf _

/-- Sequencing keeps the law. -/
theorem bind {x : ParseFn τ ε α} {f : α → ParseFn τ ε β} (hx : NeverGrows x)
    (hf : ∀ a, NeverGrows (f a)) : NeverGrows (x >>= f) := by
  intro p
  exact rest_bind_le (hx p) fun a => Nat.le_trans (hf a _) (hx p)

end NeverGrows

/-! ### Parse functions that move over a part of the text -/

/-- The text left at the cursor is the end of the text at the start. -/
def Advances (x : ParseFn τ ε α) : Prop := ∀ p, (x p).rest <:+ p

namespace Advances

theorem neverGrows {x : ParseFn τ ε α} (hx : Advances x) : NeverGrows x := fun p => (hx p).length_le

theorem pure (a : α) : Advances (pure a : ParseFn τ ε α) := List.suffix_refl

theorem fail : Advances (ParseFn.fail : ParseFn τ ε α) := List.suffix_refl

theorem peek : Advances (ParseFn.peek : ParseFn τ ε _) := List.suffix_refl

theorem report (l : List ε) : Advances (ParseFn.report l : ParseFn τ ε Unit) := List.suffix_refl

theorem attempt {x : ParseFn τ ε α} (hx : Advances x) : Advances (ParseFn.attempt x) := hx

theorem skip (n : Nat) : Advances (ParseFn.skip n : ParseFn τ ε Unit) := List.drop_suffix n

theorem scan {f : List τ → α × List τ} (hf : ∀ p, (f p).2 <:+ p) :
    Advances (ParseFn.scan f : ParseFn τ ε α) := hf

theorem ite {c : Prop} [Decidable c] {x y : ParseFn τ ε α} (hx : Advances x) (hy : Advances y) :
    Advances (if c then x else y) := by
  split_ifs
  · exact hx
  · exact hy

theorem orElse {x y : ParseFn τ ε α} (hx : Advances x) (hy : Advances y) :
    Advances (ParseFn.orElse x y) := by
  intro p
  rw [ParseFn.orElse]
  split
  · exact hx p
  · exact hy p

/-- A sequence leaves an end of a text when both parts do. -/
theorem rest_bind {x : ParseFn τ ε α} {f : α → ParseFn τ ε β} {p q : List τ} (hx : (x p).rest <:+ q)
    (hf : ∀ a, (f a (x p).rest).rest <:+ q) : ((x >>= f) p).rest <:+ q := by
  rw [ParseFn.bind_apply, ParseFn.andThen]
  split
  · exact hx
  · exact hf _

theorem bind {x : ParseFn τ ε α} {f : α → ParseFn τ ε β} (hx : Advances x)
    (hf : ∀ a, Advances (f a)) : Advances (x >>= f) := by
  intro p
  exact rest_bind (hx p) fun a => (hf a _).trans (hx p)

end Advances

/-! ### Parse functions that yield certain values -/

/-- Whatever the parse function returns, anywhere, meets `Q`. -/
def Yields (x : ParseFn τ ε α) (Q : α → Prop) : Prop := ∀ p a, (x p).val = some a → Q a

namespace Yields

variable {Q : α → Prop}

theorem pure {a : α} (h : Q a) : Yields (pure a : ParseFn τ ε α) Q := by
  intro p b hval
  exact Option.some.inj hval ▸ h

theorem trivial (x : ParseFn τ ε α) : Yields x fun _ => True := fun _ _ _ => True.intro

theorem ite {c : Prop} [Decidable c] {x y : ParseFn τ ε α} (hx : c → Yields x Q)
    (hy : ¬c → Yields y Q) : Yields (if c then x else y) Q := by
  split_ifs with h
  · exact hx h
  · exact hy h

theorem bind {x : ParseFn τ ε β} {f : β → ParseFn τ ε α} {R : β → Prop} (hx : Yields x R)
    (hf : ∀ b, R b → Yields (f b) Q) : Yields (x >>= f) Q := by
  intro p a hval
  rw [ParseFn.bind_apply, ParseFn.andThen] at hval
  rcases h : (x p).val with _ | b <;> rw [h] at hval
  · exact absurd hval (by simp)
  · exact hf b (hx p b h) _ a hval

/-- A first part that may return anything. -/
theorem after (x : ParseFn τ ε β) {f : β → ParseFn τ ε α} (hf : ∀ b, Yields (f b) Q) :
    Yields (x >>= f) Q :=
  bind (trivial x) fun b _ => hf b

end Yields

/-- A sequence returns what its second part returns behind the first one. -/
theorem ParseFn.val_bind_eq_some {x : ParseFn τ ε β} {f : β → ParseFn τ ε α} {p : List τ} {a : α} :
    ((x >>= f) p).val = some a ↔ ∃ b, (x p).val = some b ∧ (f b (x p).rest).val = some a := by
  rw [ParseFn.bind_apply, ParseFn.andThen]
  cases (x p).val with
  | none => simp
  | some b => simp [Outcome.after]

/-! ### Parse functions that announce certain values -/

/-- A value of a kind comes with a message of a kind. -/
def Announces (x : ParseFn τ ε α) (bad : α → Prop) (said : ε → Prop) : Prop :=
  ∀ p a, (x p).val = some a → bad a → ∃ e ∈ (x p).log, said e

namespace Announces

variable {bad : α → Prop} {said : ε → Prop}

theorem pure {a : α} (h : ¬bad a) : Announces (pure a : ParseFn τ ε α) bad said := by
  intro p b hval hbad
  exact absurd (Option.some.inj hval ▸ hbad) h

theorem ite {c : Prop} [Decidable c] {x y : ParseFn τ ε α} (hx : c → Announces x bad said)
    (hy : ¬c → Announces y bad said) : Announces (if c then x else y) bad said := by
  split_ifs with h
  · exact hx h
  · exact hy h

/-- Whatever follows a message of the kind. -/
theorem report_bind {l : List ε} {f : Unit → ParseFn τ ε α} (h : ∃ e ∈ l, said e) :
    Announces (ParseFn.report l >>= f) bad said := by
  intro p a _ _
  obtain ⟨e, hmem, hsaid⟩ := h
  exact ⟨e, List.mem_append_left _ hmem, hsaid⟩

/-- A bad value of the first part is announced, any other one is followed by a part that announces. -/
theorem bind {x : ParseFn τ ε β} {f : β → ParseFn τ ε α} {bad' : β → Prop}
    (hx : Announces x bad' said) (hf : ∀ b, ¬bad' b → Announces (f b) bad said) :
    Announces (x >>= f) bad said := by
  intro p a hval hbad
  obtain ⟨b, hb, ha⟩ := ParseFn.val_bind_eq_some.mp hval
  have hlog : ((x >>= f) p).log = (x p).log ++ (f b (x p).rest).log := by
    rw [ParseFn.bind_apply, ParseFn.andThen, hb]
    rfl
  rw [hlog]
  by_cases h : bad' b
  · obtain ⟨e, hmem, hsaid⟩ := hx p b hb h
    exact ⟨e, List.mem_append_left _ hmem, hsaid⟩
  · obtain ⟨e, hmem, hsaid⟩ := hf b h _ a ha hbad
    exact ⟨e, List.mem_append_right _ hmem, hsaid⟩

/-- A first part of which nothing is known. -/
theorem after (x : ParseFn τ ε β) {f : β → ParseFn τ ε α} (hf : ∀ b, Announces (f b) bad said) :
    Announces (x >>= f) bad said :=
  bind (fun _ _ _ (h : False) => h.elim) fun b _ => hf b

end Announces

/-- The parse function never fails. -/
def Succeeds (x : ParseFn τ ε α) : Prop := ∀ p, ∃ a, (x p).val = some a

namespace Succeeds

theorem pure (a : α) : Succeeds (pure a : ParseFn τ ε α) := fun _ => ⟨a, rfl⟩

theorem peek : Succeeds (ParseFn.peek : ParseFn τ ε _) := fun p => ⟨p, rfl⟩

theorem skip (k : Nat) : Succeeds (ParseFn.skip k : ParseFn τ ε Unit) := fun _ => ⟨(), rfl⟩

theorem scan (f : List τ → α × List τ) : Succeeds (ParseFn.scan f : ParseFn τ ε α) :=
  fun p => ⟨(f p).1, rfl⟩

theorem report (l : List ε) : Succeeds (ParseFn.report l : ParseFn τ ε Unit) := fun _ => ⟨(), rfl⟩

theorem attempt (x : ParseFn τ ε α) : Succeeds (ParseFn.attempt x) := fun p => ⟨(x p).val, rfl⟩

theorem ite {c : Prop} [Decidable c] {x y : ParseFn τ ε α} (hx : Succeeds x) (hy : Succeeds y) :
    Succeeds (if c then x else y) := by
  split_ifs
  · exact hx
  · exact hy

theorem bind {x : ParseFn τ ε β} {f : β → ParseFn τ ε α} (hx : Succeeds x) (hf : ∀ b, Succeeds (f b)) :
    Succeeds (x >>= f) := by
  intro p
  obtain ⟨b, hb⟩ := hx p
  obtain ⟨a, ha⟩ := hf b (x p).rest
  refine ⟨a, ?_⟩
  rw [ParseFn.bind_apply, ParseFn.andThen, hb]
  exact ha

end Succeeds

/-! ### Left-associative operator chains -/

section ChainLeft

variable {ω : Type} (sub : ParseFn τ ε α) (oper : ParseFn τ ε (Option ω))
  (apply : ω → α → α → α × List ε)

/-- The loop of a left-associative level: as long as an operator is ahead, parse the next operand
and fold it in.  The fuel bounds the number of operators taken. -/
def chainLeftLoop : Nat → α → ParseFn τ ε α
  | 0, left => pure left
  | fuel + 1, left => do
    match ← oper with
    | none => pure left
    | some o =>
      let right ← sub
      ParseFn.report (apply o left right).2
      chainLeftLoop fuel (apply o left right).1

/-- The loop with one unit of fuel for every remaining character. -/
def chainLeftRest (left : α) : ParseFn τ ε α :=
  fun p => chainLeftLoop sub oper apply p.length left p

/-- A left-associative level: an operand, then the loop. -/
def chainLeft : ParseFn τ ε α := do
  let left ← sub
  chainLeftRest sub oper apply left

/-- The operator matcher is silent, moves only forward, consumes something when it matches, and
matches nothing at the end of the text. -/
structure OperLaws (oper : ParseFn τ ε (Option ω)) : Prop where
  neverGrows : NeverGrows oper
  consumes : ∀ {p q : List τ} {o : ω} {l : List ε},
    oper p = ⟨some (some o), q, l⟩ → q.length < p.length
  atEnd : oper [] = ⟨some none, [], []⟩

variable {sub oper}

/-- Any two amounts of fuel that cover the remaining text run the loop alike. -/
theorem chainLeftLoop_fuel (hsub : NeverGrows sub) (hoper : OperLaws oper) :
    ∀ (n m : Nat) (left : α) (p : List τ), p.length ≤ n → p.length ≤ m →
      chainLeftLoop sub oper apply n left p = chainLeftLoop sub oper apply m left p := by
  -- at fuel 0 the text is empty, where the operator matcher stops the other loop too
  have stop : ∀ (m : Nat) (left : α),
      chainLeftLoop sub oper apply m left [] = ⟨some left, [], []⟩ := by
    intro m left
    cases m with
    | zero => rfl
    | succ m =>
      rw [chainLeftLoop, ParseFn.bind_silent hoper.atEnd]
      rfl
  intro n
  induction n with
  | zero =>
    intro m left p hn _
    obtain rfl := List.eq_nil_of_length_eq_zero (Nat.le_zero.mp hn)
    rw [stop, stop]
  | succ n ih =>
    intro m left p hn hm
    cases m with
    | zero =>
      obtain rfl := List.eq_nil_of_length_eq_zero (Nat.le_zero.mp hm)
      rw [stop, stop]
    | succ m =>
      rw [chainLeftLoop, chainLeftLoop]
      rcases ho : oper p with ⟨_ | _ | o, q, l⟩
      · rw [ParseFn.bind_none ho, ParseFn.bind_none ho]
      · rw [ParseFn.bind_some ho, ParseFn.bind_some ho]
      · rw [ParseFn.bind_some ho, ParseFn.bind_some ho]
        have hq := hoper.consumes ho
        have hr := hsub q
        rcases hs : sub q with ⟨_ | right, r, l'⟩
        · simp only [ParseFn.bind_none hs]
        · rw [hs] at hr
          simp only [ParseFn.bind_some hs, ParseFn.bind_some (ParseFn.report_apply _ _)]
          have hr' : r.length < p.length := Nat.lt_of_le_of_lt hr hq
          rw [ih m _ r (by omega) (by omega)]

variable {apply}

/-- With no operator ahead the loop returns the value folded so far. -/
theorem chainLeftRest_stop (hoper : OperLaws oper) {p q : List τ} (left : α)
    (h : oper p = ⟨some none, q, []⟩) :
    chainLeftRest sub oper apply left p = ⟨some left, q, []⟩ := by
  cases p with
  | nil =>
    rw [hoper.atEnd] at h
    simp only [Outcome.mk.injEq] at h
    obtain ⟨-, rfl, -⟩ := h
    rfl
  | cons c p =>
    rw [chainLeftRest, List.length_cons, chainLeftLoop, ParseFn.bind_silent h]
    rfl

/-- With an operator and an operand ahead the loop folds them in and goes on behind them. -/
theorem chainLeftRest_step (hsub : NeverGrows sub) (hoper : OperLaws oper) {p q r : List τ} {o : ω}
    {l : List ε} {left right : α} (h : oper p = ⟨some (some o), q, []⟩)
    (hs : sub q = ⟨some right, r, l⟩) :
    chainLeftRest sub oper apply left p
      = (chainLeftRest sub oper apply (apply o left right).1 r).after
          (l ++ (apply o left right).2) := by
  have hq : q.length < p.length := hoper.consumes h
  have hr : r.length ≤ q.length := by simpa only [hs] using hsub q
  obtain ⟨n, hn⟩ : ∃ n, p.length = n + 1 := ⟨p.length - 1, by omega⟩
  rw [chainLeftRest, hn, chainLeftLoop, ParseFn.bind_silent h]
  simp only [ParseFn.bind_some hs, ParseFn.bind_some (ParseFn.report_apply _ _)]
  rw [chainLeftLoop_fuel apply hsub hoper n r.length _ r (by omega) (Nat.le_refl _), chainLeftRest,
    Outcome.after_after]

/-- The loop moves only forward. -/
theorem chainLeftLoop_neverGrows (hsub : NeverGrows sub) (hoper : OperLaws oper) :
    ∀ (n : Nat) (left : α), NeverGrows (chainLeftLoop sub oper apply n left) := by
  intro n
  induction n with
  | zero => exact fun left => NeverGrows.pure left
  | succ n ih =>
    intro left
    refine NeverGrows.bind hoper.neverGrows fun o => ?_
    cases o with
    | none => exact NeverGrows.pure left
    | some o => exact NeverGrows.bind hsub fun right =>
        NeverGrows.bind (NeverGrows.report _) fun _ => ih _

/-- A left-associative level moves only forward. -/
theorem chainLeft_neverGrows (hsub : NeverGrows sub) (hoper : OperLaws oper) :
    NeverGrows (chainLeft sub oper apply) :=
  NeverGrows.bind hsub fun left p => chainLeftLoop_neverGrows hsub hoper p.length left p

/-- A left-associative level moves over a part of the text. -/
theorem chainLeft_advances (hsub : Advances sub) (hoper : Advances oper) :
    Advances (chainLeft sub oper apply) := by
  have hloop : ∀ (n : Nat) (left : α), Advances (chainLeftLoop sub oper apply n left) := by
    intro n
    induction n with
    | zero => exact fun left => Advances.pure left
    | succ n ih =>
      intro left
      refine Advances.bind hoper fun o => ?_
      cases o with
      | none => exact Advances.pure left
      | some o => exact Advances.bind hsub fun right =>
          Advances.bind (Advances.report _) fun _ => ih _
  exact Advances.bind hsub fun left p => hloop p.length left p

/-- Levels over operand parsers that agree on every text up to some length agree there. -/
theorem chainLeft_congr {sub' : ParseFn τ ε α} (hsub : NeverGrows sub) (hoper : OperLaws oper)
    {n : Nat} (h : ∀ p : List τ, p.length ≤ n → sub p = sub' p) {p : List τ} (hp : p.length ≤ n) :
    chainLeft sub oper apply p = chainLeft sub' oper apply p := by
  have loop : ∀ (k : Nat) (left : α) (p : List τ), p.length ≤ n →
      chainLeftLoop sub oper apply k left p = chainLeftLoop sub' oper apply k left p := by
    intro k
    induction k with
    | zero => exact fun left p _ => rfl
    | succ k ih =>
      intro left p hp
      refine ParseFn.bind_congr rfl fun o _ => ?_
      have hq : (oper p).rest.length ≤ n := Nat.le_trans (hoper.neverGrows p) hp
      cases o with
      | none => rfl
      | some o =>
        refine ParseFn.bind_congr (h _ hq) fun right _ => ParseFn.bind_congr rfl fun _ _ => ?_
        exact ih _ _ (Nat.le_trans (hsub _) hq)
  exact ParseFn.bind_congr (h p hp) fun left _ => loop _ _ _ (Nat.le_trans (hsub p) hp)

/-- A level parses its first operand and goes on with the loop. -/
theorem chainLeft_apply {p q : List τ} {left : α} {l : List ε}
    (hs : sub p = ⟨some left, q, l⟩) :
    chainLeft sub oper apply p = (chainLeftRest sub oper apply left q).after l :=
  ParseFn.bind_some hs _

end ChainLeft

end Parsing
