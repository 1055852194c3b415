import Sjasmplus.Lib.Precedence

/-!
# Parse functions that read alike

Two parse functions over the same text may compute in different domains and report different messages:
one builds a tree, the other its value.  `Mirrors f B B' x y` says that they move the cursor alike, that
`y` returns the value under `f` of what `x` returns, and that `y` reports something that meets `B'`
exactly when `x` reports something that meets `B`.  The relation goes through sequencing, choice, and the
levels of a precedence ladder (`Mirrors.ladder`), so two parsers of one shape mirror each other when
their leaves and their operators do.

`Reports P x` says that everything `x` reports meets `P`.
-/

namespace Parsing

variable {τ ε ε' α β γ δ ω : Type}

/-! ### Messages of one kind -/

/-- Everything that the parse function reports meets `P`. -/
def Reports (P : ε → Prop) (x : ParseFn τ ε α) : Prop := ∀ p, ∀ e ∈ (x p).log, P e

namespace Reports

variable {P : ε → Prop}

theorem pure (a : α) : Reports P (pure a : ParseFn τ ε α) := fun _ _ h => absurd h List.not_mem_nil

theorem fail : Reports P (ParseFn.fail : ParseFn τ ε α) := fun _ _ h => absurd h List.not_mem_nil

theorem peek : Reports P (ParseFn.peek : ParseFn τ ε (List τ)) :=
  fun _ _ h => absurd h List.not_mem_nil

theorem seek (q : List τ) : Reports P (ParseFn.seek q : ParseFn τ ε Unit) :=
  fun _ _ h => absurd h List.not_mem_nil

theorem skip (n : Nat) : Reports P (ParseFn.skip n : ParseFn τ ε Unit) :=
  fun _ _ h => absurd h List.not_mem_nil

theorem scan (f : List τ → α × List τ) : Reports P (ParseFn.scan f : ParseFn τ ε α) :=
  fun _ _ h => absurd h List.not_mem_nil

theorem report {l : List ε} (h : ∀ e ∈ l, P e) : Reports P (ParseFn.report l : ParseFn τ ε Unit) :=
  fun _ => h

theorem attempt {x : ParseFn τ ε α} (hx : Reports P x) : Reports P (ParseFn.attempt x) := hx

theorem ite {c : Prop} [Decidable c] {x y : ParseFn τ ε α} (hx : Reports P x) (hy : Reports P y) :
    Reports P (if c then x else y) := by
  split_ifs
  · exact hx
  · exact hy

theorem bind {x : ParseFn τ ε α} {f : α → ParseFn τ ε β} (hx : Reports P x)
    (hf : ∀ a, Reports P (f a)) : Reports P (x >>= f) := by
  intro p e he
  rw [ParseFn.bind_apply, ParseFn.andThen] at he
  split at he
  · exact hx p e he
  · rcases List.mem_append.mp he with he | he
    · exact hx p e he
    · exact hf _ _ e he

end Reports

/-! ### Two parse functions -/

/-- The parse function without its messages. -/
def ParseFn.mute (x : ParseFn τ ε α) : ParseFn τ ε' α := fun p => ⟨(x p).val, (x p).rest, []⟩

/-- `B` is met in one list exactly when `B'` is met in the other. -/
def SameKind (B : ε → Prop) (B' : ε' → Prop) (l : List ε) (l' : List ε') : Prop :=
  (∃ e ∈ l', B' e) ↔ ∃ e ∈ l, B e

/-- One outcome is the other one under `f`, with messages of the same kind. -/
structure MirrorsAt (f : α → β) (B : ε → Prop) (B' : ε' → Prop) (o : Outcome τ ε α)
    (o' : Outcome τ ε' β) : Prop where
  val : o'.val = o.val.map f
  rest : o'.rest = o.rest
  log : SameKind B B' o.log o'.log

/-- The second parse function computes the values under `f` of what the first one computes. -/
def Mirrors (f : α → β) (B : ε → Prop) (B' : ε' → Prop) (x : ParseFn τ ε α) (y : ParseFn τ ε' β) :
    Prop :=
  ∀ p, MirrorsAt f B B' (x p) (y p)

section

variable {B : ε → Prop} {B' : ε' → Prop}

theorem SameKind.nil : SameKind B B' [] [] := by simp [SameKind]

/-- The reports of two parts behind each other. -/
theorem SameKind.append {l₁ l₂ : List ε} {l₁' l₂' : List ε'} (h₁ : SameKind B B' l₁ l₁')
    (h₂ : SameKind B B' l₂ l₂') : SameKind B B' (l₁ ++ l₂) (l₁' ++ l₂') := by
  simp only [SameKind, List.mem_append, or_and_right, exists_or] at h₁ h₂ ⊢
  rw [h₁, h₂]

/-- Messages that do not meet `B'` mirror silence. -/
theorem SameKind.of_not {l' : List ε'} (h : ∀ e ∈ l', ¬ B' e) : SameKind B B' [] l' := by
  constructor
  · rintro ⟨e, he, hB⟩
    exact absurd hB (h e he)
  · rintro ⟨e, he, -⟩
    exact absurd he List.not_mem_nil

theorem MirrorsAt.after {f : α → β} {l : List ε} {l' : List ε'} {o : Outcome τ ε α}
    {o' : Outcome τ ε' β} (hl : SameKind B B' l l') (ho : MirrorsAt f B B' o o') :
    MirrorsAt f B B' (o.after l) (o'.after l') :=
  ⟨ho.val, ho.rest, hl.append ho.log⟩

end

namespace Mirrors

variable {B : ε → Prop} {B' : ε' → Prop} {f : α → β}

theorem pure {a : α} {b : β} (h : b = f a) :
    Mirrors f B B' (pure a : ParseFn τ ε α) (pure b) :=
  fun _ => ⟨congrArg some h, rfl, SameKind.nil⟩

theorem fail : Mirrors f B B' (ParseFn.fail : ParseFn τ ε α) ParseFn.fail :=
  fun _ => ⟨rfl, rfl, SameKind.nil⟩

theorem peek : Mirrors id B B' (ParseFn.peek : ParseFn τ ε (List τ)) ParseFn.peek :=
  fun _ => ⟨rfl, rfl, SameKind.nil⟩

theorem skip (n : Nat) : Mirrors id B B' (ParseFn.skip n : ParseFn τ ε Unit) (ParseFn.skip n) :=
  fun _ => ⟨rfl, rfl, SameKind.nil⟩

/-- A parse function that reports nothing of the kind mirrors itself without messages. -/
theorem mute {y : ParseFn τ ε' α} (hy : Reports (fun e => ¬ B' e) y) :
    Mirrors id B B' (ParseFn.mute y) y :=
  fun p => ⟨(congrFun Option.map_id _).symm, rfl, SameKind.of_not (hy p)⟩

/-- The second parse function looks at the text ahead. -/
theorem peek_right {x : ParseFn τ ε α} {k : List τ → ParseFn τ ε' β}
    (h : ∀ q, Mirrors f B B' x (k q)) : Mirrors f B B' x (ParseFn.peek >>= k) := by
  intro p
  rw [ParseFn.bind_silent (ParseFn.peek_apply p)]
  exact h p p

/-- A leaf: the values of a parse function, wrapped. -/
theorem leaf {y : ParseFn τ ε' β} (hy : Reports (fun e => ¬ B' e) y) {g : β → α}
    (hg : ∀ b, f (g b) = b) :
    Mirrors f B B' (ParseFn.mute y >>= fun b => Pure.pure (g b)) y := by
  intro p
  have hlog : SameKind B B' [] (y p).log := SameKind.of_not (hy p)
  rw [ParseFn.bind_apply, ParseFn.andThen]
  rcases hval : (y p).val with _ | b
  · rw [show (ParseFn.mute y p : Outcome τ ε β).val = none from hval]
    exact ⟨hval, rfl, hlog⟩
  · rw [show (ParseFn.mute y p : Outcome τ ε β).val = some b from hval]
    exact ⟨hval.trans (congrArg some (hg b)).symm, rfl, hlog⟩

theorem ite {c : Prop} {_ : Decidable c} {x x' : ParseFn τ ε α} {y y' : ParseFn τ ε' β}
    (h : Mirrors f B B' x y) (h' : Mirrors f B B' x' y') :
    Mirrors f B B' (if c then x else x') (if c then y else y') := by
  by_cases hc : c
  · rw [if_pos hc, if_pos hc]
    exact h
  · rw [if_neg hc, if_neg hc]
    exact h'

theorem bind {g : γ → δ} {x : ParseFn τ ε γ} {y : ParseFn τ ε' δ} {k : γ → ParseFn τ ε α}
    {k' : δ → ParseFn τ ε' β} (h : Mirrors g B B' x y) (hk : ∀ c, Mirrors f B B' (k c) (k' (g c))) :
    Mirrors f B B' (x >>= k) (y >>= k') := by
  intro p
  obtain ⟨hval, hrest, hlog⟩ := h p
  rw [ParseFn.bind_apply, ParseFn.bind_apply, ParseFn.andThen, ParseFn.andThen]
  rcases hx : (x p).val with _ | c
  · rw [hx, Option.map_none] at hval
    rw [hval]
    exact ⟨rfl, hrest, hlog⟩
  · rw [hx, Option.map_some] at hval
    rw [hval, hrest]
    exact (hk c _).after hlog

theorem report {l : List ε} {l' : List ε'} (h : SameKind B B' l l') :
    Mirrors id B B' (ParseFn.report l : ParseFn τ ε Unit) (ParseFn.report l') :=
  fun _ => ⟨rfl, rfl, h⟩

/-- Messages of another kind in front of the second parse function. -/
theorem report_right {x : ParseFn τ ε α} {y : ParseFn τ ε' β} {l' : List ε'} (hl : ∀ e ∈ l', ¬ B' e)
    (h : Mirrors f B B' x y) : Mirrors f B B' x (ParseFn.report l' >>= fun _ => y) := by
  intro p
  have hafter := (h p).after (SameKind.of_not (B := B) hl)
  rwa [Outcome.after_nil] at hafter

/-- Where the first alternative fails, it fails on both sides. -/
theorem orElse {x x' : ParseFn τ ε α} {y y' : ParseFn τ ε' β} (h : Mirrors f B B' x y)
    (h' : Mirrors f B B' x' y') : Mirrors f B B' (ParseFn.orElse x x') (ParseFn.orElse y y') := by
  intro p
  obtain ⟨hval, hrest, hlog⟩ := h p
  rw [ParseFn.orElse, ParseFn.orElse]
  rcases hx : (x p).val with _ | a
  · rw [hx, Option.map_none] at hval
    rw [hval]
    exact (h' p).after hlog
  · rw [hx, Option.map_some] at hval
    rw [hval]
    exact h p

theorem attempt {x : ParseFn τ ε α} {y : ParseFn τ ε' β} (h : Mirrors f B B' x y) :
    Mirrors (Option.map f) B B' (ParseFn.attempt x) (ParseFn.attempt y) :=
  fun p => ⟨congrArg some (h p).val, (h p).rest, (h p).log⟩

/-- Operators that mirror each other, on operands that do. -/
def Operators (f : α → β) (B : ε → Prop) (B' : ε' → Prop) (apply : ω → α → α → α × List ε)
    (apply' : ω → β → β → β × List ε') : Prop :=
  ∀ o a b, (apply' o (f a) (f b)).1 = f (apply o a b).1 ∧
    SameKind B B' (apply o a b).2 (apply' o (f a) (f b)).2

/-- A left-associative level, over operands and operators that mirror each other. -/
theorem chainLeft {sub : ParseFn τ ε α} {sub' : ParseFn τ ε' β} {oper : ParseFn τ ε (Option ω)}
    {oper' : ParseFn τ ε' (Option ω)} {apply : ω → α → α → α × List ε}
    {apply' : ω → β → β → β × List ε'} (hsub : Mirrors f B B' sub sub')
    (hoper : Mirrors id B B' oper oper') (happly : Operators f B B' apply apply') :
    Mirrors f B B' (Parsing.chainLeft sub oper apply) (Parsing.chainLeft sub' oper' apply') := by
  have hloop : ∀ fuel a, Mirrors f B B' (chainLeftLoop sub oper apply fuel a)
      (chainLeftLoop sub' oper' apply' fuel (f a)) := by
    intro fuel
    -- by induction on the fuel of the loop
    induction fuel with
    | zero => exact fun a => pure rfl
    | succ fuel ih =>
      intro a
      apply bind hoper
      intro o
      cases o with
      | none => exact pure rfl
      | some o =>
        apply bind hsub
        intro b
        obtain ⟨hval, hlog⟩ := happly o a b
        apply bind (report hlog)
        intro _
        rw [hval]
        exact ih _
  apply bind hsub
  intro a p
  exact hloop p.length a p

/-- The levels of a precedence ladder. -/
theorem ladder {operand : ParseFn τ ε α} {operand' : ParseFn τ ε' β}
    {oper : Nat → ParseFn τ ε (Option ω)} {oper' : Nat → ParseFn τ ε' (Option ω)}
    {apply : Nat → ω → α → α → α × List ε} {apply' : Nat → ω → β → β → β × List ε'}
    (hoperand : Mirrors f B B' operand operand') (hoper : ∀ n, Mirrors id B B' (oper n) (oper' n))
    (happly : ∀ n, Operators f B B' (apply n) (apply' n)) (n : Nat) :
    Mirrors f B B' (Parsing.ladder operand oper apply n) (Parsing.ladder operand' oper' apply' n) := by
  induction n with
  | zero => exact hoperand
  | succ n ih => exact ih.chainLeft (hoper n) (happly n)

end Mirrors

end Parsing
