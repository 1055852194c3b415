import Sjasmplus.Lib.Parser

/-!
# Operator precedence: derivations, printing and parsing back

Expression trees over atoms, unary operators and left-associative binary operators with a rank, where
a smaller rank binds tighter.  `Derives` says that a sequence of tokens, with redundant parentheses
and any layout, denotes a tree; `Expr.tokens` prints a tree with the fewest parentheses.  `ladder` is
the parser in levels: level 0 parses operands, level `n + 1` is a left-associative chain of the
operators of rank `n` over level `n`.

`Grammar.parses_derives` is the result: under laws about single tokens (`Grammar`), a level parses
every sequence of tokens that its derivations allow to the meaning of the tree, and with
`Expr.derives_tokens` this is the round trip of printing.  The induction is over the derivation; a
chain is entered from the left, so next to "the level parses the tokens" (`Parses`) it carries "the
level parses the tokens and is inside its loop" (`Opens`).
-/

namespace Parsing

/-! ### Trees, tokens and meanings -/

section Trees

variable {A U B : Type}

/-- Expression trees over atoms `A`, unary operators `U` and binary operators `B`. -/
inductive Expr (A U B : Type)
  | atom (a : A)
  | unary (u : U) (e : Expr A U B)
  | binary (b : B) (l r : Expr A U B)

/-- The tokens of a printed tree. -/
inductive Token (A U B : Type)
  | openParen
  | closeParen
  | atom (a : A)
  | unary (u : U)
  | binary (b : B)

/-- The tokens, each with its layout, denote the tree at a place where operators of rank below `n`
need no parentheses; between parentheses there are `top` ranks. -/
inductive Derives {L : Type} (rank : B → Nat) (top : Nat) :
    Nat → List (L × Token A U B) → Expr A U B → Prop
  | atom (n : Nat) (l : L) (a : A) : Derives rank top n [(l, .atom a)] (.atom a)
  | unary (n : Nat) (l : L) (u : U) {ts : List (L × Token A U B)} {e : Expr A U B} :
    Derives rank top 0 ts e → Derives rank top n ((l, .unary u) :: ts) (.unary u e)
  | binary {n : Nat} (l : L) (b : B) {ts ts' : List (L × Token A U B)} {e e' : Expr A U B} :
    rank b < n → Derives rank top (rank b + 1) ts e → Derives rank top (rank b) ts' e' →
      Derives rank top n (ts ++ (l, .binary b) :: ts') (.binary b e e')
  | paren (n : Nat) (l l' : L) {ts : List (L × Token A U B)} {e : Expr A U B} :
    Derives rank top top ts e →
      Derives rank top n ((l, .openParen) :: ts ++ [(l', .closeParen)]) e

/-- The tokens of a tree at a place where operators of rank below `n` need no parentheses, with the
fewest parentheses. -/
def Expr.tokens (rank : B → Nat) : Expr A U B → Nat → List (Token A U B)
  | atom a, _ => [.atom a]
  | unary u e, _ => .unary u :: e.tokens rank 0
  | binary b l r, n =>
    let body := l.tokens rank (rank b + 1) ++ .binary b :: r.tokens rank (rank b)
    if rank b < n then body else .openParen :: body ++ [.closeParen]

/-- The printed tokens denote the tree. -/
theorem Expr.derives_tokens {L : Type} {rank : B → Nat} {top : Nat} (hrank : ∀ b, rank b < top)
    (l : L) (e : Expr A U B) (n : Nat) :
    Derives rank top n ((e.tokens rank n).map (l, ·)) e := by
  induction e generalizing n with
  | atom a => exact .atom n l a
  | unary u e ih => exact .unary n l u (ih 0)
  | binary b x y ihx ihy =>
    have hbody : ∀ m, rank b < m → Derives rank top m
        ((x.tokens rank (rank b + 1) ++ .binary b :: y.tokens rank (rank b)).map (l, ·))
        (.binary b x y) := by
      intro m hm
      rw [List.map_append, List.map_cons]
      exact .binary l b hm (ihx _) (ihy _)
    rw [Expr.tokens]
    split_ifs with hn
    · exact hbody n hn
    · rw [List.cons_append, List.map_cons, List.map_append]
      exact .paren n l l (hbody top (hrank b))

/-- The value of every atom and operator, with the messages its evaluation reports. -/
structure Meaning (A U B α ε : Type) where
  atom : A → α
  unary : U → α → α × List ε
  binary : B → α → α → α × List ε

/-- The value of a tree and the messages of its evaluation from left to right. -/
def Expr.eval {α ε : Type} (m : Meaning A U B α ε) : Expr A U B → α × List ε
  | atom a => (m.atom a, [])
  | unary u e =>
    let v := e.eval m
    ((m.unary u v.1).1, v.2 ++ (m.unary u v.1).2)
  | binary b l r =>
    let x := l.eval m
    let y := r.eval m
    ((m.binary b x.1 y.1).1, x.2 ++ (y.2 ++ (m.binary b x.1 y.1).2))

end Trees

/-! ### The parser in levels -/

section Ladder

variable {A U B τ ε α ω : Type}

/-- Level 0 parses operands, level `n + 1` chains level `n` with the operators of rank `n`. -/
def ladder (operand : ParseFn τ ε α) (oper : Nat → ParseFn τ ε (Option ω))
    (apply : Nat → ω → α → α → α × List ε) : Nat → ParseFn τ ε α
  | 0 => operand
  | n + 1 => chainLeft (ladder operand oper apply n) (oper n) (apply n)

theorem ladder_neverGrows {operand : ParseFn τ ε α} {oper : Nat → ParseFn τ ε (Option ω)}
    {apply : Nat → ω → α → α → α × List ε} (hoperand : NeverGrows operand)
    (hoper : ∀ n, OperLaws (oper n)) (n : Nat) : NeverGrows (ladder operand oper apply n) := by
  induction n with
  | zero => exact hoperand
  | succ n ih => exact chainLeft_neverGrows ih (hoper n)

theorem ladder_advances {operand : ParseFn τ ε α} {oper : Nat → ParseFn τ ε (Option ω)}
    {apply : Nat → ω → α → α → α × List ε} (hoperand : Advances operand)
    (hoper : ∀ n, Advances (oper n)) (n : Nat) : Advances (ladder operand oper apply n) := by
  induction n with
  | zero => exact hoperand
  | succ n ih => exact chainLeft_advances ih (hoper n)

/-- A level that parses something parses an operand first. -/
theorem ladder_operand {operand : ParseFn τ ε α} {oper : Nat → ParseFn τ ε (Option ω)}
    {apply : Nat → ω → α → α → α × List ε} {n : Nat} {p : List τ}
    (h : (ladder operand oper apply n p).val ≠ none) : (operand p).val ≠ none := by
  induction n with
  | zero => exact h
  | succ n ih =>
    refine ih fun hnone => h ?_
    rw [ladder, chainLeft, ParseFn.bind_none (Outcome.ext hnone rfl rfl)]

/-- Ladders over operand parsers that agree on every text up to some length agree there. -/
theorem ladder_congr {operand operand' : ParseFn τ ε α} {oper : Nat → ParseFn τ ε (Option ω)}
    {apply : Nat → ω → α → α → α × List ε} (hoperand : NeverGrows operand)
    (hoper : ∀ n, OperLaws (oper n)) {k : Nat}
    (h : ∀ p : List τ, p.length ≤ k → operand p = operand' p) (n : Nat) {p : List τ}
    (hp : p.length ≤ k) : ladder operand oper apply n p = ladder operand' oper apply n p := by
  induction n generalizing p with
  | zero => exact h p hp
  | succ n ih =>
    exact chainLeft_congr (ladder_neverGrows hoperand hoper n) (hoper n) (fun q hq => ih hq) hp

/-- A grammar in levels, printed by `text`: what its tokens do to the parse functions.  `skip` is the
text behind leading blanks, `top` the number of levels, and `keep` chooses the messages of interest.
`opens` is what the text behind an operator satisfies, where an operand is ahead, and `closes` what
the text behind an operand satisfies. -/
structure Grammar (L A U B : Type) (operand : ParseFn τ ε α) (oper : Nat → ParseFn τ ε (Option ω))
    (apply : Nat → ω → α → α → α × List ε) where
  rank : B → Nat
  top : Nat
  text : L → Token A U B → List τ
  code : B → ω
  meaning : Meaning A U B α ε
  skip : List τ → List τ
  opens : List τ → Prop
  closes : List τ → Prop
  keep : ε → Bool
  rank_lt : ∀ b, rank b < top
  top_pos : 0 < top
  operand_neverGrows : NeverGrows operand
  oper_laws : ∀ n, OperLaws (oper n)
  oper_skip : ∀ n p, oper n (skip p) = oper n p
  opens_atom : ∀ l a p, opens (text l (.atom a) ++ p)
  opens_unary : ∀ l u p, opens (text l (.unary u) ++ p)
  opens_paren : ∀ l p, opens (text l .openParen ++ p)
  closes_binary : ∀ l b p, closes (text l (.binary b) ++ p)
  closes_paren : ∀ l p, closes (text l .closeParen ++ p)
  /-- An operator is found by its own level. -/
  oper_own : ∀ l b p, opens p →
    oper (rank b) (text l (.binary b) ++ p) = ⟨some (some (code b)), p, []⟩
  /-- A tighter level stops in front of an operator. -/
  oper_tighter : ∀ l b p n, opens p → n < rank b →
    oper n (text l (.binary b) ++ p) = ⟨some none, skip (text l (.binary b) ++ p), []⟩
  /-- Every level stops in front of a closing parenthesis. -/
  oper_close : ∀ l p n,
    oper n (text l .closeParen ++ p) = ⟨some none, skip (text l .closeParen ++ p), []⟩
  apply_code : ∀ b x y, apply (rank b) (code b) x y = meaning.binary b x y
  operand_atom : ∀ l a p, closes p → ∃ log,
    operand (text l (.atom a) ++ p) = ⟨some (meaning.atom a), p, log⟩ ∧ log.filter keep = []
  operand_unary : ∀ l u p v q log, opens p → operand p = ⟨some v, q, log⟩ →
    operand (text l (.unary u) ++ p)
      = ⟨some (meaning.unary u v).1, q, log ++ (meaning.unary u v).2⟩
  operand_paren : ∀ l l' p v q log,
    ladder operand oper apply top p = ⟨some v, skip (text l' .closeParen ++ q), log⟩ →
      operand (text l .openParen ++ p) = ⟨some v, q, log⟩

namespace Grammar

variable {L : Type} {operand : ParseFn τ ε α} {oper : Nat → ParseFn τ ε (Option ω)}
  {apply : Nat → ω → α → α → α × List ε} (g : Grammar L A U B operand oper apply)

/-- The characters of tokens. -/
def print (ts : List (L × Token A U B)) : List τ := ts.flatMap fun t => g.text t.1 t.2

/-- No operator of rank below `n` is ahead. -/
def Stops (n : Nat) (p : List τ) : Prop := ∀ m < n, oper m p = ⟨some none, g.skip p, []⟩

/-- Where level `n` leaves the cursor in front of `p`: a chain looks for its operator and skips
blanks. -/
def left (p : List τ) : Nat → List τ
  | 0 => p
  | _ + 1 => g.skip p

/-- Level `n` parses the tokens to the value, with the messages. -/
def Parses (n : Nat) (ts : List (L × Token A U B)) (v : α × List ε) : Prop :=
  ∀ p, g.closes p → g.Stops n p → ∃ log,
    ladder operand oper apply n (g.print ts ++ p) = ⟨some v.1, g.left p n, log⟩ ∧
      log.filter g.keep = v.2.filter g.keep

/-- Level `n + 1` parses the tokens as the first operands of its chain and is inside its loop. -/
def Opens (n : Nat) (ts : List (L × Token A U B)) (v : α × List ε) : Prop :=
  ∀ p, g.closes p → g.Stops n p → ∃ log,
    ladder operand oper apply (n + 1) (g.print ts ++ p)
        = (chainLeftRest (ladder operand oper apply n) (oper n) (apply n) v.1 (g.left p n)).after log ∧
      log.filter g.keep = v.2.filter g.keep

variable {g} {n : Nat} {ts : List (L × Token A U B)} {v : α × List ε}

/-- An operand is ahead of the tokens of a tree. -/
theorem opens_print {e : Expr A U B} (h : Derives g.rank g.top n ts e) (p : List τ) :
    g.opens (g.print ts ++ p) := by
  induction h generalizing p with
  | atom n l a =>
    rw [print, List.flatMap_cons, List.append_assoc]
    exact g.opens_atom l a _
  | unary n l u h ih =>
    rw [print, List.flatMap_cons, List.append_assoc]
    exact g.opens_unary l u _
  | binary l b hb h h' ih ih' =>
    rw [print, List.flatMap_append, List.append_assoc]
    exact ih _
  | paren n l l' h ih =>
    rw [print, List.cons_append, List.flatMap_cons, List.append_assoc]
    exact g.opens_paren l _

theorem oper_left (m n : Nat) (p : List τ) : oper m (g.left p n) = oper m p := by
  cases n with
  | zero => rfl
  | succ n => exact g.oper_skip m p

theorem Stops.mono {n m : Nat} {p : List τ} (h : g.Stops n p) (hm : m ≤ n) : g.Stops m p :=
  fun k hk => h k (Nat.lt_of_lt_of_le hk hm)

/-- One operand is the beginning of a chain. -/
theorem Parses.opens (h : g.Parses n ts v) : g.Opens n ts v := by
  intro p hb hs
  obtain ⟨log, hl, hk⟩ := h p hb hs
  exact ⟨log, chainLeft_apply hl, hk⟩

/-- A chain ends where no operator of its rank is ahead. -/
theorem Opens.parses (h : g.Opens n ts v) : g.Parses (n + 1) ts v := by
  intro p hb hs
  obtain ⟨log, hl, hk⟩ := h p hb (hs.mono (Nat.le_succ n))
  refine ⟨log, ?_, hk⟩
  have hstop : oper n (g.left p n) = ⟨some none, g.skip p, []⟩ :=
    (oper_left n n p).trans (hs n (Nat.lt_succ_self n))
  rw [hl, chainLeftRest_stop (g.oper_laws n) _ hstop, Outcome.after_mk, List.append_nil]
  rfl

/-- Looser levels parse what a tighter level parses. -/
theorem Parses.mono {m : Nat} (h : g.Parses n ts v) (hm : n ≤ m) : g.Parses m ts v := by
  induction hm with
  | refl => exact h
  | step _ ih => exact ih.opens.parses

/-- Inside the loop, an operator and its right operand are folded in. -/
theorem Opens.binary {l : L} {b : B} {ts' : List (L × Token A U B)} {v' : α × List ε}
    (hl : g.Opens (g.rank b) ts v) (hr : g.Parses (g.rank b) ts' v')
    (ho : ∀ p, g.opens (g.print ts' ++ p)) :
    g.Opens (g.rank b) (ts ++ (l, .binary b) :: ts')
      ((g.meaning.binary b v.1 v'.1).1, v.2 ++ (v'.2 ++ (g.meaning.binary b v.1 v'.1).2)) := by
  intro p hb hs
  obtain ⟨log', hr, hk'⟩ := hr p hb hs
  have hprint : g.print (ts ++ (l, .binary b) :: ts') ++ p
      = g.print ts ++ (g.text l (.binary b) ++ (g.print ts' ++ p)) := by
    simp only [print, List.flatMap_append, List.flatMap_cons, List.append_assoc]
  obtain ⟨log, hl, hk⟩ :=
    hl _ (g.closes_binary l b _) fun m hm => g.oper_tighter l b _ m (ho p) hm
  have hoper : oper (g.rank b) (g.left (g.text l (.binary b) ++ (g.print ts' ++ p)) (g.rank b))
      = ⟨some (some (g.code b)), g.print ts' ++ p, []⟩ :=
    (oper_left _ _ _).trans (g.oper_own l b _ (ho p))
  refine ⟨log ++ (log' ++ (g.meaning.binary b v.1 v'.1).2), ?_, ?_⟩
  · rw [hprint, hl, chainLeftRest_step (ladder_neverGrows g.operand_neverGrows g.oper_laws _)
      (g.oper_laws _) hoper hr, g.apply_code, Outcome.after_after]
  · simp only [List.filter_append, hk, hk']

/-- Tokens that the weakest level parses are an operand between parentheses. -/
theorem Parses.paren (h : g.Parses g.top ts v) (l l' : L) :
    g.Parses 0 ((l, .openParen) :: ts ++ [(l', .closeParen)]) v := by
  intro p _ _
  obtain ⟨log, hl, hk⟩ := h (g.text l' .closeParen ++ p) (g.closes_paren l' p)
    fun m _ => g.oper_close l' _ m
  have hprint : g.print ((l, .openParen) :: ts ++ [(l', .closeParen)]) ++ p
      = g.text l .openParen ++ (g.print ts ++ (g.text l' .closeParen ++ p)) := by
    simp only [print, List.cons_append, List.flatMap_cons, List.flatMap_append, List.flatMap_nil,
      List.append_assoc, List.nil_append]
  have hleft : g.left (g.text l' .closeParen ++ p) g.top = g.skip (g.text l' .closeParen ++ p) := by
    cases htop : g.top with
    | zero => exact absurd g.top_pos (by omega)
    | succ n => rfl
  rw [hleft] at hl
  exact ⟨log, by rw [hprint]; exact g.operand_paren l l' _ _ _ _ hl, hk⟩

/-- **Parsing**: a level parses the tokens that denote a tree at its place to the tree's value. -/
theorem parses_derives {e : Expr A U B} (h : Derives g.rank g.top n ts e) :
    g.Parses n ts (e.eval g.meaning) := by
  -- next to the claim, each chain is open behind its left operand
  suffices h : g.Parses n ts (e.eval g.meaning) ∧
      ∀ k, n = k + 1 → g.Opens k ts (e.eval g.meaning) from h.1
  -- behind a complete operand every level above is open
  have operand : ∀ {m ts} {v : α × List ε}, g.Parses 0 ts v →
      g.Parses m ts v ∧ ∀ k, m = k + 1 → g.Opens k ts v := fun h =>
    ⟨h.mono (Nat.zero_le _), fun k _ => (h.mono (Nat.zero_le k)).opens⟩
  induction h with
  | atom n l a =>
    refine operand fun p hb _ => ?_
    obtain ⟨log, hl, hk⟩ := g.operand_atom l a p hb
    refine ⟨log, ?_, hk⟩
    rw [print, List.flatMap_cons, List.flatMap_nil, List.append_nil]
    exact hl
  | unary n l u h ih =>
    rename_i ts e
    refine operand fun p hb hs => ?_
    obtain ⟨log, hl, hk⟩ := ih.1 p hb hs
    refine ⟨log ++ (g.meaning.unary u (e.eval g.meaning).1).2, ?_, ?_⟩
    · rw [print, List.flatMap_cons, List.append_assoc]
      exact g.operand_unary l u _ _ _ _ (opens_print h p) hl
    · simp only [Expr.eval, List.filter_append, hk]
  | binary l b hb h h' ih ih' =>
    rename_i n ts ts' e e'
    have hopen : g.Opens (g.rank b) (ts ++ (l, .binary b) :: ts')
        ((Expr.binary b e e').eval g.meaning) :=
      (ih.2 (g.rank b) rfl).binary ih'.1 (opens_print h')
    refine ⟨hopen.parses.mono hb, fun k hk => ?_⟩
    rcases Nat.lt_or_eq_of_le (show g.rank b ≤ k by omega) with hlt | rfl
    · exact (hopen.parses.mono hlt).opens
    · exact hopen
  | paren n l l' h ih => exact operand (ih.1.paren l l')

end Grammar

end Ladder

end Parsing
