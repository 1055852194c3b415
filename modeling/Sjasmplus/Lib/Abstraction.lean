import Sjasmplus.Lib.Loops

/-!
# Programs that cannot see a part of the state

A function `φ` takes a state to one that stands for all states with the same image: it forgets how
some data is kept.  `Follows φ Lost Pre p Post` says that `p` runs from `φ s` as it does from `s`, and
ends in the image of where it ended, unless that run gets lost.  With its conditions before and behind
the program it goes through sequences, branches and loops, so that a program follows `φ` once its
primitive statements do.
-/

namespace Program

variable {σ α β γ : Type}

/-! ### Forgetting a part of the state -/

/-- From a state that meets `Pre`, the program runs from the image of the state as it does from the
state, and `Post` holds behind it, as long as its run from the state is not lost.  What is lost stays
lost. -/
structure Follows (φ : σ → σ) (Lost : σ → Prop) (Pre : σ → Prop) (p : Program σ α)
    (Post : α → σ → Prop) : Prop where
  lost : ∀ s, Lost s → Lost (p.final s)
  run : ∀ s, Pre s → ¬Lost (p.final s) → p.exec (φ s) = ((p.exec s).1, φ (p.final s)) ∧
    ∀ a, (p.exec s).1 = some a → Post a (p.final s)

namespace Follows

variable {φ : σ → σ} {Lost Pre : σ → Prop} {Post : α → σ → Prop}

theorem mono {p : Program σ α} {Pre' : σ → Prop} {Post' : α → σ → Prop}
    (hp : Follows φ Lost Pre p Post) (hpre : ∀ s, Pre' s → Pre s)
    (hpost : ∀ a s, Post a s → Post' a s) : Follows φ Lost Pre' p Post' where
  lost := hp.lost
  run s hs hkept := by
    obtain ⟨hexec, hbehind⟩ := hp.run s (hpre s hs) hkept
    exact ⟨hexec, fun a ha => hpost a _ (hbehind a ha)⟩

theorem pure {a : α} (h : ∀ s, Pre s → Post a s) :
    Follows φ Lost Pre (pure a : Program σ α) Post where
  lost _ hs := hs
  run s hs _ := ⟨rfl, fun _ hb => Option.some.inj hb ▸ h s hs⟩

theorem exit : Follows φ Lost Pre (exit : Program σ α) Post where
  lost _ hs := hs
  run _ _ _ := ⟨rfl, fun _ hb => by cases hb⟩

/-- A function of the state that does not see what is forgotten. -/
theorem asks {f : σ → α} (h : ∀ s, Pre s → f (φ s) = f s) (hpost : ∀ s, Pre s → Post (f s) s) :
    Follows φ Lost Pre (asks f) Post where
  lost _ hs := hs
  run s hs _ := by
    constructor
    · rw [exec_asks, exec_asks, h s hs]
      rfl
    · intro a ha
      rw [exec_asks] at ha
      exact Option.some.inj ha ▸ hpost s hs

/-- An update of what is not forgotten. -/
theorem modify {f : σ → σ} {Post : PUnit → σ → Prop} (hlost : ∀ s, Lost s → Lost (f s))
    (h : ∀ s, Pre s → f (φ s) = φ (f s)) (hpost : ∀ s, Pre s → Post ⟨⟩ (f s)) :
    Follows φ Lost Pre (modify f : Program σ PUnit) Post where
  lost s hs := hlost s hs
  run s hs _ := by
    constructor
    · rw [exec_modify, exec_modify, h s hs]
      rfl
    · exact fun _ _ => hpost s hs

theorem bind {p : Program σ α} {f : α → Program σ β} {Post : β → σ → Prop} {Mid : α → σ → Prop}
    (hp : Follows φ Lost Pre p Mid) (hf : ∀ a, Follows φ Lost (Mid a) (f a) Post) :
    Follows φ Lost Pre (p >>= f) Post where
  lost s hs := final_bind_of (hp.lost s hs) fun a t ht => (hf a).lost t ht
  run s hs hkept := by
    have hfirst := hp.run s hs
    rw [final] at hfirst hkept ⊢
    rw [exec_bind] at hkept ⊢
    rw [exec_bind]
    rcases h : p.exec s with ⟨_ | a, t⟩
    · rw [h] at hfirst hkept
      rw [(hfirst hkept).1]
      exact ⟨rfl, fun _ hb => by cases hb⟩
    · rw [h] at hfirst hkept
      -- what is lost behind the first part would be lost behind both
      have hbetween : ¬Lost t := fun hlost => hkept ((hf a).lost t hlost)
      obtain ⟨hexec, hmid⟩ := hfirst hbetween
      rw [hexec]
      exact (hf a).run t (hmid a rfl) hkept

theorem ite {c : Prop} {_ : Decidable c} {p q : Program σ α} (hp : Follows φ Lost Pre p Post)
    (hq : Follows φ Lost Pre q Post) : Follows φ Lost Pre (if c then p else q) Post := by
  by_cases h : c
  · rw [if_pos h]
    exact hp
  · rw [if_neg h]
    exact hq

theorem when {c : Prop} {_ : Decidable c} {p : Program σ Unit} {Post : Unit → σ → Prop}
    (hp : Follows φ Lost Pre p Post) (h : ∀ s, Pre s → Post () s) :
    Follows φ Lost Pre (when c p) Post :=
  ite hp (pure h)

/-- A loop with fuel keeps what each of its turns keeps. -/
theorem loop {Inv : σ → Prop} {body : β → Program σ (β ⊕ α)}
    (hbody : ∀ b, Follows φ Lost Inv (body b) fun _ => Inv) (fuel : Nat) (b : β) :
    Follows φ Lost Inv (loop body fuel b) fun _ => Inv := by
  induction fuel generalizing b with
  | zero => exact exit
  | succ fuel ih =>
    rw [Program.loop]
    refine (hbody b).bind fun turn => ?_
    cases turn with
    | inl b => exact ih b
    | inr a => exact pure fun _ hs => hs

/-- So does a loop whose fuel is measured, when the measure does not see what is forgotten. -/
theorem whileLoop {Inv : σ → Prop} {body : β → Program σ (β ⊕ α)} {measure : σ → Nat}
    (hmeasure : ∀ s, Inv s → measure (φ s) = measure s)
    (hbody : ∀ b, Follows φ Lost Inv (body b) fun _ => Inv) (b : β) :
    Follows φ Lost Inv (whileLoop measure body b) fun _ => Inv := by
  have hfuel : Follows φ Lost Inv (Program.asks measure) fun _ => Inv :=
    Follows.asks hmeasure fun _ hs => hs
  exact hfuel.bind fun fuel => Follows.loop hbody (fuel + 1) b

end Follows

end Program
