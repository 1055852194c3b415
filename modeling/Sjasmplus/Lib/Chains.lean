import Mathlib.Data.List.Nodup
import Mathlib.Logic.Function.Basic

/-!
# Hash tables with chains

The items with one hash value form a chain, and a look-up goes through the chain of the key.  As long as
every item stands in the chain of its own key and no key is there twice (`Lawful`), a look-up finds
exactly the item of the key (`lookup_eq_some_iff`), whatever the hash function is.
-/

namespace Chains

variable {κ β α : Type*} [DecidableEq κ] [DecidableEq β] (key : α → κ) (hash : κ → β)

/-- The first item of the key in its chain. -/
def lookup (chains : β → List α) (name : κ) : Option α := (chains (hash name)).find? (key · = name)

/-- The item ahead of its chain. -/
def insert (chains : β → List α) (a : α) : β → List α :=
  Function.update chains (hash (key a)) (a :: chains (hash (key a)))

/-- The item is in some chain. -/
def Holds (chains : β → List α) (a : α) : Prop := ∃ b, a ∈ chains b

/-- Every item stands in the chain of its key, and no key is there twice. -/
structure Lawful (chains : β → List α) : Prop where
  chained : ∀ b, ∀ a ∈ chains b, hash (key a) = b
  nodup : ∀ b, ((chains b).map key).Nodup

variable {key hash} {chains : β → List α}

omit [DecidableEq β] in
theorem lookup_eq_none_iff {name : κ} :
    lookup key hash chains name = none ↔ ∀ a ∈ chains (hash name), key a ≠ name := by
  rw [lookup, List.find?_eq_none]
  simp

omit [DecidableEq κ] [DecidableEq β] in
theorem lawful_empty : Lawful key hash fun _ => [] where
  chained _ _ ha := absurd ha List.not_mem_nil
  nodup _ := .nil

namespace Lawful

variable (h : Lawful key hash chains)

include h

/-- An item with a new key may be inserted. -/
theorem insert {a : α} (hnew : lookup key hash chains (key a) = none) :
    Lawful key hash (insert key hash chains a) where
  chained b c hc := by
    by_cases hb : b = hash (key a)
    · subst hb
      rw [Chains.insert, Function.update_self] at hc
      rcases List.mem_cons.mp hc with rfl | hc
      · rfl
      · exact h.chained _ c hc
    · rw [Chains.insert, Function.update_of_ne hb] at hc
      exact h.chained b c hc
  nodup b := by
    by_cases hb : b = hash (key a)
    · subst hb
      rw [Chains.insert, Function.update_self, List.map_cons, List.nodup_cons]
      refine ⟨fun hold => ?_, h.nodup _⟩
      obtain ⟨c, hc, hkey⟩ := List.mem_map.mp hold
      exact lookup_eq_none_iff.mp hnew c hc hkey
    · rw [Chains.insert, Function.update_of_ne hb]
      exact h.nodup b

omit [DecidableEq κ] [DecidableEq β] in
/-- Items may change, but for their keys. -/
theorem map {f : α → α} (hf : ∀ a, key (f a) = key a) :
    Lawful key hash fun b => (chains b).map f where
  chained b c hc := by
    obtain ⟨a, ha, rfl⟩ := List.mem_map.mp hc
    rw [hf]
    exact h.chained b a ha
  nodup b := by
    have hkeys : key ∘ f = key := funext hf
    rw [List.map_map, hkeys]
    exact h.nodup b

omit [DecidableEq β] in
/-- A look-up finds exactly the item of the key. -/
theorem lookup_eq_some_iff {name : κ} {a : α} :
    lookup key hash chains name = some a ↔ Holds chains a ∧ key a = name := by
  constructor
  · intro hfind
    exact ⟨⟨_, List.mem_of_find?_eq_some hfind⟩, by simpa using List.find?_some hfind⟩
  · rintro ⟨⟨b, ha⟩, rfl⟩
    obtain rfl := h.chained b a ha
    cases hfind : lookup key hash chains (key a) with
    | none => exact absurd rfl (lookup_eq_none_iff.mp hfind a ha)
    | some c =>
      -- the key is there once, so this is the item
      have hkey : key c = key a := by simpa using List.find?_some hfind
      have hc : c ∈ chains (hash (key a)) := List.mem_of_find?_eq_some hfind
      rw [List.inj_on_of_nodup_map (h.nodup _) hc ha hkey]

omit [DecidableEq β] in
/-- A look-up finds none exactly when the key is not there. -/
theorem lookup_eq_none_iff_holds {name : κ} :
    lookup key hash chains name = none ↔ ∀ a, Holds chains a → key a ≠ name := by
  rw [Option.eq_none_iff_forall_ne_some]
  constructor
  · intro hnone a ha hname
    exact hnone a (h.lookup_eq_some_iff.mpr ⟨ha, hname⟩)
  · intro hnone a ha
    obtain ⟨hholds, hname⟩ := h.lookup_eq_some_iff.mp ha
    exact hnone a hholds hname

end Lawful

end Chains
