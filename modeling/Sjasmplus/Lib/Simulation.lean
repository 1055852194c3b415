import Sjasmplus.Lib.Restoration

/-!
# Programs that run alike from related states

`RunsLike R V p q` compares two programs, perhaps over different states: from states related by `R`,
either both return, with results related by `V`, or both exit, and the states that they leave are
related again.  It goes through sequences, branches, loops and brackets, so that two programs run alike
once their primitive statements do.
-/

namespace Program

variable {σ τ α β γ δ : Type}

/-- From related states, both programs return related results or both exit, and they leave related
states. -/
def RunsLike (R : σ → τ → Prop) (V : α → β → Prop) (p : Program σ α) (q : Program τ β) : Prop :=
  ∀ s t, R s t → Option.Rel V (p.exec s).1 (q.exec t).1 ∧ R (p.final s) (q.final t)

namespace RunsLike

variable {R : σ → τ → Prop} {V : α → β → Prop} {W : γ → δ → Prop}

/-- Two programs that return. -/
theorem of_exec {p : Program σ α} {q : Program τ β} {s s' : σ} {t t' : τ} {a : α} {b : β}
    (hp : p.exec s = (some a, s')) (hq : q.exec t = (some b, t')) (hV : V a b) (hR : R s' t') :
    Option.Rel V (p.exec s).1 (q.exec t).1 ∧ R (p.final s) (q.final t) := by
  rw [final, final, hp, hq]
  exact ⟨.some hV, hR⟩

theorem eq_of_rel {a b : Option α} (h : Option.Rel Eq a b) : a = b := by
  cases h with
  | none => rfl
  | some h => rw [h]

theorem pure {a : α} {b : β} (h : V a b) : RunsLike R V (pure a) (pure b) :=
  fun s t hst => of_exec (exec_pure a s) (exec_pure b t) h hst

theorem exit : RunsLike R V exit exit := fun _ _ hst => ⟨.none, hst⟩

theorem get : RunsLike R R get get := fun s t hst => of_exec (exec_get s) (exec_get t) hst hst

theorem asks {f : σ → α} {g : τ → β} (h : ∀ s t, R s t → V (f s) (g t)) :
    RunsLike R V (asks f) (asks g) :=
  fun s t hst => of_exec (exec_asks f s) (exec_asks g t) (h s t hst) hst

/-- Two updates that keep the relation. -/
theorem modify {f : σ → σ} {g : τ → τ} (h : ∀ s t, R s t → R (f s) (g t)) :
    RunsLike R Eq (modify f : Program σ PUnit) (modify g) :=
  fun s t hst => of_exec (exec_modify f s) (exec_modify g t) rfl (h s t hst)

theorem bind {p : Program σ α} {q : Program τ β} {f : α → Program σ γ} {g : β → Program τ δ}
    (hp : RunsLike R V p q) (hf : ∀ a b, V a b → RunsLike R W (f a) (g b)) :
    RunsLike R W (p >>= f) (q >>= g) := by
  intro s t hst
  obtain ⟨hresult, hbehind⟩ := hp s t hst
  rw [final, final] at hbehind
  rw [final, final, exec_bind, exec_bind]
  rcases hp' : p.exec s with ⟨a, s'⟩
  rcases hq' : q.exec t with ⟨b, t'⟩
  rw [hp', hq'] at hresult hbehind
  cases hresult with
  | none => exact ⟨.none, hbehind⟩
  | some hV => exact hf _ _ hV s' t' hbehind

/-- A first part with equal results. -/
theorem bind_eq {p : Program σ α} {q : Program τ α} {f : α → Program σ γ} {g : α → Program τ δ}
    (hp : RunsLike R Eq p q) (hf : ∀ a, RunsLike R W (f a) (g a)) :
    RunsLike R W (p >>= f) (q >>= g) :=
  hp.bind fun a _ hab => hab ▸ hf a

theorem ite {c : Prop} {_ : Decidable c} {p p' : Program σ α} {q q' : Program τ β}
    (hp : RunsLike R V p q) (hp' : RunsLike R V p' q') :
    RunsLike R V (if c then p else p') (if c then q else q') := by
  by_cases h : c
  · rw [if_pos h, if_pos h]
    exact hp
  · rw [if_neg h, if_neg h]
    exact hp'

theorem when {c : Prop} {_ : Decidable c} {p : Program σ Unit} {q : Program τ Unit}
    (hp : RunsLike R Eq p q) : RunsLike R Eq (when c p) (when c q) :=
  ite hp (pure rfl)

/-- A loop runs alike when its turns do. -/
theorem loop {body : β → Program σ (β ⊕ α)} {body' : β → Program τ (β ⊕ α)}
    (hbody : ∀ b, RunsLike R Eq (body b) (body' b)) (fuel : Nat) (b : β) :
    RunsLike R Eq (loop body fuel b) (loop body' fuel b) := by
  induction fuel generalizing b with
  | zero => exact exit
  | succ fuel ih =>
    refine (hbody b).bind_eq fun turn => ?_
    cases turn with
    | inl b => exact ih b
    | inr a => exact pure rfl

/-- A bracket whose ends keep the states related. -/
theorem bracket {enter : σ → σ} {enter' : τ → τ} {leave : σ → σ → σ} {leave' : τ → τ → τ}
    {body : Program σ α} {body' : Program τ β} (hbody : RunsLike R V body body')
    (henter : ∀ s t, R s t → R (enter s) (enter' t))
    (hleave : ∀ olds oldt s t, R olds oldt → R s t → R (leave olds s) (leave' oldt t)) :
    RunsLike R V (bracket enter leave body) (bracket enter' leave' body') := by
  refine get.bind fun olds oldt hold => (modify henter).bind_eq fun _ => ?_
  refine hbody.bind fun a b hab => ?_
  exact (modify fun s t hst => hleave olds oldt s t hold hst).bind_eq fun _ => pure hab

end RunsLike

end Program
