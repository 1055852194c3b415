import Sjasmplus.Lib.Program

/-!
# Programs that accept or refuse

A check runs through a number of conditions and exits at the first that fails.  `Decides R E p C a`
says that `p` returns `a` exactly when `C` holds, that it moves the state along `R` only, and that
the states of its exits meet `E`.  The conditions of a sequence are collected by `Decides.bind`.
-/

namespace Program

variable {σ α β : Type} {R : σ → σ → Prop} {E : σ → Prop}

/-- The program returns `a` where `C` holds, and exits elsewhere. -/
def Decides (R : σ → σ → Prop) (E : σ → Prop) (p : Program σ α) (C : Prop) (a : α) : Prop :=
  ∀ s, (C ∧ ∃ t, R s t ∧ p.exec s = (some a, t)) ∨ (¬C ∧ ∃ t, R s t ∧ E t ∧ p.exec s = (none, t))

namespace Decides

variable {p : Program σ α} {C D : Prop} {a : α}

theorem returns (h : Decides R E p C a) (hC : C) (s : σ) : ∃ t, R s t ∧ p.exec s = (some a, t) :=
  (h s).elim And.right fun hno => absurd hC hno.1

theorem exits (h : Decides R E p C a) (hC : ¬C) (s : σ) : ∃ t, R s t ∧ E t ∧ p.exec s = (none, t) :=
  (h s).elim (fun hyes => absurd hyes.1 hC) And.right

/-- A program that always returns. -/
theorem always (h : ∀ s, ∃ t, R s t ∧ p.exec s = (some a, t)) : Decides R E p True a :=
  fun s => .inl ⟨trivial, h s⟩

/-- A program that always exits. -/
theorem never (h : ∀ s, ∃ t, R s t ∧ E t ∧ p.exec s = (none, t)) : Decides R E p False a :=
  fun s => .inr ⟨not_false, h s⟩

theorem congr (h : Decides R E p C a) (hiff : C ↔ D) : Decides R E p D a := by
  rwa [← propext hiff]

theorem pure [Std.Refl R] (a : α) : Decides R E (pure a) True a :=
  always fun s => ⟨s, refl s, exec_pure a s⟩

/-- A branch, where either part decides. -/
theorem ite {c : Prop} {_ : Decidable c} {q : Program σ α} (hp : c → Decides R E p C a)
    (hq : ¬c → Decides R E q C a) : Decides R E (if c then p else q) C a := by
  by_cases h : c
  · rw [if_pos h]
    exact hp h
  · rw [if_neg h]
    exact hq h

/-- A statement behind a condition. -/
theorem when [Std.Refl R] {c : Prop} {_ : Decidable c} {p : Program σ Unit}
    (hp : Decides R E p C ()) : Decides R E (when c p) (c → C) () :=
  ite (fun hc => hp.congr ⟨fun hC _ => hC, fun h => h hc⟩)
    fun hc => (pure ()).congr ⟨fun _ h => absurd h hc, fun _ => trivial⟩

/-- The second part only has to decide behind the first. -/
theorem bind [IsTrans σ R] {f : α → Program σ β} {b : β} (hp : Decides R E p C a)
    (hf : C → Decides R E (f a) D b) : Decides R E (p >>= f) (C ∧ D) b := by
  intro s
  rcases hp s with ⟨hC, t, ht, hexec⟩ | ⟨hC, t, ht, hE, hexec⟩
  · rw [exec_bind_of_some hexec]
    rcases hf hC t with ⟨hD, u, hu, hnext⟩ | ⟨hD, u, hu, hE, hnext⟩
    · exact .inl ⟨⟨hC, hD⟩, u, IsTrans.trans _ _ _ ht hu, hnext⟩
    · exact .inr ⟨fun h => hD h.2, u, IsTrans.trans _ _ _ ht hu, hE, hnext⟩
  · refine .inr ⟨fun h => hC h.1, t, ht, hE, ?_⟩
    rw [exec_bind, hexec]

/-- A first part that always returns. -/
theorem always_bind [IsTrans σ R] {f : α → Program σ β} {b : β} (hp : Decides R E p True a)
    (hf : Decides R E (f a) D b) : Decides R E (p >>= f) D b :=
  (hp.bind fun _ => hf).congr ⟨And.right, fun hD => ⟨trivial, hD⟩⟩

end Decides

end Program
