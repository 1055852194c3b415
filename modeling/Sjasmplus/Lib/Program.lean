import Mathlib.Order.Defs.Unbundled

/-!
# Imperative programs

A `Program σ α` runs over a state `σ` and either returns or exits early; the state survives an exit.
`Keeps R p` says that every run of `p` relates the state before it to the state behind it.  For a
preorder `R` it goes through sequencing and branching, so a whole program keeps what its primitive
statements keep.

`Ensures p s Q` says that whenever `p` returns from `s`, its result and the state behind it meet `Q`.
-/

/-- A program over the state `σ` that may exit early. -/
abbrev Program (σ : Type) := OptionT (StateM σ)

namespace Program

variable {σ α β : Type}

/-- The result, if the program returns, and the state that it leaves. -/
def exec (p : Program σ α) (s : σ) : Option α × σ := StateT.run (OptionT.run p) s

/-- The state that a program leaves, by returning or by an exit. -/
def final (p : Program σ α) (s : σ) : σ := (p.exec s).2

/-- Exit, and keep the state. -/
def exit : Program σ α := failure

/-- A statement behind a condition. -/
def when (c : Prop) [Decidable c] (p : Program σ Unit) : Program σ Unit := if c then p else pure ()

@[simp] theorem exec_pure (a : α) (s : σ) : (pure a : Program σ α).exec s = (some a, s) := rfl

@[simp] theorem exec_exit (s : σ) : (exit : Program σ α).exec s = (none, s) := rfl

@[simp] theorem exec_get (s : σ) : (get : Program σ σ).exec s = (some s, s) := rfl

@[simp] theorem exec_modify (f : σ → σ) (s : σ) :
    (modify f : Program σ PUnit).exec s = (some ⟨⟩, f s) := rfl

/-- A program that returns leaves its last state. -/
theorem exec_of_fst {p : Program σ α} {s : σ} {a : α} (h : (p.exec s).1 = some a) :
    p.exec s = (some a, p.final s) :=
  Prod.ext h rfl

/-- What follows a program runs on its result and on the state that it leaves. -/
theorem exec_bind (p : Program σ α) (f : α → Program σ β) (s : σ) :
    (p >>= f).exec s = match p.exec s with
      | (some a, s') => (f a).exec s'
      | (none, s') => (none, s') := by
  unfold exec
  rw [OptionT.run_bind, Option.elimM, StateT.run_bind]
  rcases StateT.run (OptionT.run p) s with ⟨_ | a, s'⟩ <;> rfl

/-- A program that returns hands over to what follows. -/
theorem exec_bind_of_some {p : Program σ α} {f : α → Program σ β} {s s' : σ} {a : α}
    (h : p.exec s = (some a, s')) : (p >>= f).exec s = (f a).exec s' := by
  rw [exec_bind, h]

/-- What holds behind the first program and is kept by the second holds behind both. -/
theorem final_bind_of {P : σ → Prop} {p : Program σ α} {f : α → Program σ β} {s : σ}
    (hp : P (p.final s)) (hf : ∀ a t, P t → P ((f a).final t)) : P ((p >>= f).final s) := by
  rw [final] at hp
  rw [final, exec_bind]
  rcases h : p.exec s with ⟨_ | a, s'⟩ <;> rw [h] at hp
  · exact hp
  · exact hf a s' hp

/-- Once the first program is known to return, the second one starts from the state behind it. -/
theorem final_bind_of_some {p : Program σ α} {f : α → Program σ β} {s s' : σ} {a : α}
    (h : p.exec s = (some a, s')) : (p >>= f).final s = (f a).final s' := by
  rw [final, exec_bind_of_some h, final]

/-! ### Preserved relations -/

/-- Every run of the program relates the states before and behind it. -/
def Keeps (R : σ → σ → Prop) (p : Program σ α) : Prop := ∀ s, R s (p.final s)

namespace Keeps

variable {R : σ → σ → Prop}

theorem mono {R' : σ → σ → Prop} (h : ∀ s t, R s t → R' s t) {p : Program σ α} (hp : Keeps R p) :
    Keeps R' p :=
  fun s => h s _ (hp s)

theorem modify {f : σ → σ} (h : ∀ s, R s (f s)) : Keeps R (modify f : Program σ PUnit) := h

theorem ite {c : Prop} {_ : Decidable c} {p q : Program σ α} (hp : Keeps R p) (hq : Keeps R q) :
    Keeps R (if c then p else q) := by
  by_cases h : c
  · rw [if_pos h]
    exact hp
  · rw [if_neg h]
    exact hq

theorem bind [IsTrans σ R] {p : Program σ α} {f : α → Program σ β} (hp : Keeps R p)
    (hf : ∀ a, Keeps R (f a)) : Keeps R (p >>= f) := by
  intro s
  have hfirst : R s (p.exec s).2 := hp s
  rw [final, exec_bind]
  rcases h : p.exec s with ⟨_ | a, s'⟩ <;> rw [h] at hfirst
  · exact hfirst
  · exact IsTrans.trans _ _ _ hfirst (hf a s')

/-- A program that starts by reading the state, at this state. -/
theorem get_bind_at {f : σ → Program σ α} (hf : ∀ s, R s ((f s).final s)) : Keeps R (get >>= f) :=
  fun s => final_bind_of_some (exec_get s) ▸ hf s

/-- A sequence at one state. -/
theorem bind_at [IsTrans σ R] {p : Program σ α} {f : α → Program σ β} {s : σ}
    (hp : R s (p.final s)) (hf : ∀ a, Keeps R (f a)) : R s ((p >>= f).final s) :=
  final_bind_of hp fun a t ht => IsTrans.trans _ _ _ ht (hf a t)

/-- A first part that keeps a finer relation. -/
theorem bind_of {S : σ → σ → Prop} (hfiner : ∀ s t, S s t → R s t)
    (hbehind : ∀ s t u, S s t → R t u → R s u) {p : Program σ α} {f : α → Program σ β}
    (hp : Keeps S p) (hf : ∀ a, Keeps R (f a)) : Keeps R (p >>= f) := by
  intro s
  have hfirst : S s (p.exec s).2 := hp s
  rw [final, exec_bind]
  rcases h : p.exec s with ⟨_ | a, s'⟩ <;> rw [h] at hfirst
  · exact hfiner _ _ hfirst
  · exact hbehind _ _ _ hfirst (hf a s')

variable [Std.Refl R]

theorem pure (a : α) : Keeps R (pure a : Program σ α) := fun s => refl s

theorem exit : Keeps R (exit : Program σ α) := fun s => refl s

theorem when {c : Prop} {_ : Decidable c} {p : Program σ Unit} (hp : Keeps R p) :
    Keeps R (when c p) :=
  ite hp (pure _)

/-- A program that starts by reading the state may depend on it. -/
theorem get_bind [IsTrans σ R] {f : σ → Program σ α} (hf : ∀ t, Keeps R (f t)) :
    Keeps R (get >>= f) :=
  bind (fun s => refl s) hf

end Keeps

/-! ### Properties that survive -/

/-- The property of the first state is one of the second. -/
def Survives (P : σ → Prop) (s t : σ) : Prop := P s → P t

instance (P : σ → Prop) : Std.Refl (Survives P) := ⟨fun _ h => h⟩

instance (P : σ → Prop) : IsTrans σ (Survives P) := ⟨fun _ _ _ h h' hs => h' (h hs)⟩

/-! ### Programs that return -/

/-- Every run of the program returns. -/
def Returns (p : Program σ α) : Prop := ∀ s, ∃ a, p.exec s = (some a, p.final s)

namespace Returns

theorem pure (a : α) : Returns (pure a : Program σ α) := fun _ => ⟨a, rfl⟩

theorem bind {p : Program σ α} {f : α → Program σ β} (hp : Returns p) (hf : ∀ a, Returns (f a)) :
    Returns (p >>= f) := by
  intro s
  obtain ⟨a, ha⟩ := hp s
  obtain ⟨b, hb⟩ := hf a (p.final s)
  refine ⟨b, ?_⟩
  rw [final_bind_of_some ha, exec_bind_of_some ha, hb]

theorem ite {c : Prop} {_ : Decidable c} {p q : Program σ α} (hp : Returns p) (hq : Returns q) :
    Returns (if c then p else q) := by
  by_cases h : c
  · rw [if_pos h]
    exact hp
  · rw [if_neg h]
    exact hq

theorem get_bind {f : σ → Program σ α} (hf : ∀ t, Returns (f t)) : Returns (get >>= f) :=
  bind (fun s => ⟨s, rfl⟩) hf

end Returns

/-! ### Postconditions -/

/-- If the program returns from `s`, its result and the state that it leaves meet `Q`. -/
def Ensures (p : Program σ α) (s : σ) (Q : α → σ → Prop) : Prop :=
  ∀ a t, p.exec s = (some a, t) → Q a t

namespace Ensures

variable {s : σ} {Q : α → σ → Prop}

theorem mono {p : Program σ α} {Q' : α → σ → Prop} (hp : Ensures p s Q)
    (h : ∀ a t, Q a t → Q' a t) : Ensures p s Q' :=
  fun a t hexec => h a t (hp a t hexec)

/-- A program that is known to return. -/
theorem of_exec {p : Program σ α} {a : α} {t : σ} (h : p.exec s = (some a, t)) (hQ : Q a t) :
    Ensures p s Q := by
  intro b u hexec
  rw [h] at hexec
  obtain ⟨ha, rfl⟩ := Prod.mk.inj hexec
  exact Option.some.inj ha ▸ hQ

theorem pure {a : α} (h : Q a s) : Ensures (pure a) s Q := of_exec (exec_pure a s) h

theorem exit : Ensures exit s Q := by
  intro a t hexec
  simp at hexec

theorem bind {p : Program σ β} {f : β → Program σ α} {R : β → σ → Prop} (hp : Ensures p s R)
    (hf : ∀ b t, R b t → Ensures (f b) t Q) : Ensures (p >>= f) s Q := by
  intro a t hexec
  rw [exec_bind] at hexec
  rcases hfirst : p.exec s with ⟨_ | b, u⟩ <;> rw [hfirst] at hexec
  · exact absurd (congrArg Prod.fst hexec) (by simp)
  · exact hf b u (hp b u hfirst) a t hexec

/-- A first part that may do anything. -/
theorem after {p : Program σ β} {f : β → Program σ α} (hf : ∀ b t, Ensures (f b) t Q) :
    Ensures (p >>= f) s Q :=
  bind (R := fun _ _ => True) (fun _ _ _ => trivial) fun b t _ => hf b t

theorem get_bind {f : σ → Program σ α} (hf : Ensures (f s) s Q) : Ensures (get >>= f) s Q :=
  bind (of_exec (exec_get s) (Q := fun b t => b = s ∧ t = s) ⟨rfl, rfl⟩) fun _ _ h => by
    rw [h.1, h.2]
    exact hf

theorem ite {c : Prop} {_ : Decidable c} {p q : Program σ α} (hp : c → Ensures p s Q)
    (hq : ¬c → Ensures q s Q) : Ensures (if c then p else q) s Q := by
  by_cases h : c
  · rw [if_pos h]
    exact hp h
  · rw [if_neg h]
    exact hq h

theorem when {c : Prop} {_ : Decidable c} {p : Program σ Unit} {Q : Unit → σ → Prop}
    (hp : c → Ensures p s Q) (hskip : ¬c → Q () s) : Ensures (when c p) s Q :=
  ite hp fun h => pure (hskip h)

/-- A sequence whose second part depends on what the first one ensures. -/
theorem keeps_bind {R : σ → σ → Prop} [IsTrans σ R] {p : Program σ α} {f : α → Program σ β}
    {Q : α → Prop} (hp : Keeps R p) (hQ : ∀ s, Ensures p s fun a _ => Q a)
    (hf : ∀ a, Q a → Keeps R (f a)) : Keeps R (p >>= f) := by
  intro s
  have hfirst : R s (p.exec s).2 := hp s
  rw [final, exec_bind]
  rcases h : p.exec s with ⟨_ | a, t⟩ <;> rw [h] at hfirst
  · exact hfirst
  · exact IsTrans.trans _ _ _ hfirst (hf a (hQ s a t h) t)

/-- What every run of the program keeps, whether it returns or exits. -/
theorem of_keeps {R : σ → σ → Prop} {p : Program σ α} (hp : Keeps R p) :
    Ensures p s fun _ t => R s t := by
  intro a t hexec
  have h : R s (p.exec s).2 := hp s
  rwa [hexec] at h

theorem and {p : Program σ α} {R : α → σ → Prop} (hQ : Ensures p s Q) (hR : Ensures p s R) :
    Ensures p s fun a t => Q a t ∧ R a t :=
  fun a t hexec => ⟨hQ a t hexec, hR a t hexec⟩

end Ensures

/-- A property of the state behind a sequence, from one that the first program ensures. -/
theorem final_bind_of_ensures {P : σ → Prop} {p : Program σ α} {f : α → Program σ β} {s : σ}
    {R : α → σ → Prop} (hp : Ensures p s R) (hexit : P (p.final s))
    (hf : ∀ a t, R a t → P ((f a).final t)) : P ((p >>= f).final s) := by
  rw [final] at hexit
  rw [final, exec_bind]
  rcases h : p.exec s with ⟨_ | a, t⟩ <;> rw [h] at hexit
  · exact hexit
  · exact hf a t (hp a t h)

end Program
