import Sjasmplus.Defines
import Sjasmplus.Lib.Chains
import Sjasmplus.StructureInstance

/-!
# Looking up structures (`CStructureTable` of `tables.cpp`)

A structure is registered under its full name, and a look-up composes the full name that the name has at
the current place.  Inside a module it then tries the name without the module: it drops as many
characters as the module and a dot have, without asking if they are those of the module.

They are, but for a name with a dot in front under a main label that a global label set.  What is left
there may be the name of some other structure, or begin behind the end of the text
(`isStructureOf_iff`).  The buffer for the full name holds `LINEMAX` characters and is not checked
either.
-/

namespace Sjasmplus

open Parsing ParseFn

/-! ### The program -/

/-- `CStructureTable`. -/
structure CStructureTable where
  strs : Fin 128 → List Structure

/-- The full name of a structure: inside a module it has the module in front, with a dot in front the
main label, and in global mode it is the name itself. -/
def qualifiedName (scope : LabelScope) (naam : Text) (gl : Bool) : Text :=
  if gl then naam
  else if cur naam = '.' then scope.vorlab ++ naam
  else if scope.moduleName ≠ [] then scope.moduleName ++ '.' :: naam
  else naam

namespace CStructureTable

variable (table : CStructureTable)

/-- The constructor, and `ReInit`. -/
def init : CStructureTable := ⟨fun _ => []⟩

/-- The loop over the chain of a name. -/
def find (naam : Text) : Option Structure :=
  Chains.lookup Structure.naam DefineTable.bucket table.strs naam

/-- `FindDuplicate`. -/
def findDuplicate (naam : Text) : Bool := (table.find naam).isSome

/-- `Add`: the new structure, and the table. -/
def add (naam : Text) (offset : Aint) : Reported (Option Structure × CStructureTable) :=
  if table.findDuplicate naam then
    ((none, table), [.error "[STRUCT] Structure already exist" (some naam) .pass3])
  else
    let st := Structure.init naam offset
    ((some st, ⟨Chains.insert Structure.naam DefineTable.bucket table.strs st⟩), [])

/-- The name that `zoek` composes in its buffer: `STRCAT` adds so many characters at most. -/
def composedName (scope : LabelScope) (naam : Text) (gl : Bool) : Text :=
  qualifiedName scope (naam.take (lineMax - 1)) gl

/-- `zoek`. -/
def zoek (scope : LabelScope) (naam : Text) (gl : Bool) : Reported (Option Structure) :=
  let sn := composedName scope naam gl
  if lineMax ≤ sn.length then (none, [.undefined "write behind the end of the buffer sn"])
  else
    match table.find sn with
    | some p => (some p, [])
    | none =>
      if gl ∨ scope.moduleName = [] then (none, [])
      -- nothing says that the characters in front are those of the module
      else if sn.length < 1 + scope.moduleName.length then
        (none, [.undefined "read behind the end of the text in sn"])
      else (table.find (sn.drop (1 + scope.moduleName.length)), [])

/-! ### Tables of the program -/

/-- The tables that definitions leave; a structure changes while its fields are defined, but its name
stays. -/
inductive Reached : CStructureTable → Prop
  | init : Reached init
  | add {table : CStructureTable} (naam : Text) (offset : Aint) (h : Reached table) :
      Reached (table.add naam offset).1.2
  | change {table : CStructureTable} (f : Structure → Structure) (hf : ∀ st, (f st).naam = st.naam)
      (h : Reached table) : Reached ⟨fun b => (table.strs b).map f⟩

/-- The structure is in the table. -/
def Holds (st : Structure) : Prop := Chains.Holds table.strs st

/-- The look-up as it is meant: the structure with the full name if there is one, and otherwise, inside
a module, the one with the full name without the module; no structure has any other name. -/
structure IsStructureOf (scope : LabelScope) (naam : Text) (gl : Bool) (found : Option Structure) :
    Prop where
  qualified : ∀ st, table.Holds st → st.naam = qualifiedName scope naam gl → found = some st
  withoutModule : (∀ st, table.Holds st → st.naam ≠ qualifiedName scope naam gl) → gl = false →
    scope.moduleName ≠ [] → ∀ st, table.Holds st →
      scope.moduleName ++ '.' :: st.naam = qualifiedName scope naam gl → found = some st
  noOther : ∀ st, found = some st → table.Holds st ∧
    (st.naam = qualifiedName scope naam gl ∨ gl = false ∧ scope.moduleName ≠ [] ∧
      scope.moduleName ++ '.' :: st.naam = qualifiedName scope naam gl)

/-- The look-up stays in its buffer and finds what it is meant to find. -/
def FindsStructure (scope : LabelScope) (naam : Text) (gl : Bool) : Prop :=
  (table.zoek scope naam gl).2 = [] ∧ table.IsStructureOf scope naam gl (table.zoek scope naam gl).1

/-- The full name fits the buffer, and the look-up needs no name without the module, or the full name
has the module in front, or what is left of it without so many characters is no name of a structure. -/
def NameHandled (scope : LabelScope) (naam : Text) (gl : Bool) : Prop :=
  let sn := qualifiedName scope naam gl
  sn.length < lineMax ∧
    (gl = true ∨ scope.moduleName = [] ∨ (∃ st, table.Holds st ∧ st.naam = sn) ∨
      scope.moduleName ++ ['.'] <+: sn ∨
      (scope.moduleName.length < sn.length ∧
        ∀ st, table.Holds st → st.naam ≠ sn.drop (1 + scope.moduleName.length)))

/-! ### The chains -/

variable {table}

/-- Every structure stands in the chain of its name, and no name is there twice. -/
theorem Reached.lawful (h : Reached table) :
    Chains.Lawful Structure.naam DefineTable.bucket table.strs := by
  induction h with
  | init => exact Chains.lawful_empty
  | add naam offset _ ih =>
    unfold CStructureTable.add
    split_ifs with hold
    · exact ih
    · apply ih.insert
      have hnaam : (Structure.init naam offset).naam = naam := by
        unfold Structure.init
        split_ifs <;> rfl
      rw [hnaam]
      exact Option.not_isSome_iff_eq_none.mp hold
  | change f hf _ ih => exact ih.map hf

theorem Reached.find_eq_some_iff (h : Reached table) {naam : Text} {st : Structure} :
    table.find naam = some st ↔ table.Holds st ∧ st.naam = naam :=
  h.lawful.lookup_eq_some_iff

theorem Reached.find_eq_none_iff (h : Reached table) {naam : Text} :
    table.find naam = none ↔ ∀ st, table.Holds st → st.naam ≠ naam :=
  h.lawful.lookup_eq_none_iff_holds

/-! ### The full name -/

variable {scope : LabelScope} {naam : Text} {gl : Bool}

/-- A name that fits its buffer is not cut. -/
theorem composedName_eq (hname : naam.length < lineMax) :
    composedName scope naam gl = qualifiedName scope naam gl := by
  rw [composedName, List.take_of_length_le (by omega)]

/-- Without the module and the dot the rest of a full name is left. -/
theorem drop_eq_of_append {st : Text} (h : scope.moduleName ++ '.' :: st = qualifiedName scope naam gl) :
    (qualifiedName scope naam gl).drop (1 + scope.moduleName.length) = st := by
  rw [← h, Nat.add_comm, ← List.drop_drop, List.drop_left]
  rfl

/-- What is left of a full name that has the module in front is its name without the module. -/
theorem append_drop_eq (hmodule : scope.moduleName ++ ['.'] <+: qualifiedName scope naam gl) :
    scope.moduleName ++ '.' :: (qualifiedName scope naam gl).drop (1 + scope.moduleName.length)
      = qualifiedName scope naam gl := by
  obtain ⟨rest, hrest⟩ := hmodule
  rw [List.append_assoc, List.singleton_append] at hrest
  rw [drop_eq_of_append hrest, hrest]

/-! ### The look-up -/

/-- The look-up as a function of the full name. -/
theorem zoek_eq (hname : naam.length < lineMax) :
    table.zoek scope naam gl =
      let sn := qualifiedName scope naam gl
      if lineMax ≤ sn.length then (none, [.undefined "write behind the end of the buffer sn"])
      else
        match table.find sn with
        | some p => (some p, [])
        | none =>
          if gl ∨ scope.moduleName = [] then (none, [])
          else if sn.length < 1 + scope.moduleName.length then
            (none, [.undefined "read behind the end of the text in sn"])
          else (table.find (sn.drop (1 + scope.moduleName.length)), []) := by
  rw [zoek, composedName_eq hname]

/-- A structure with the full name is found. -/
theorem findsStructure_of_find (h : Reached table) (hname : naam.length < lineMax)
    (hfits : (qualifiedName scope naam gl).length < lineMax) {st : Structure}
    (hfind : table.find (qualifiedName scope naam gl) = some st) :
    table.FindsStructure scope naam gl := by
  have hst := h.find_eq_some_iff.mp hfind
  rw [FindsStructure, zoek_eq hname]
  dsimp only
  rw [if_neg (by omega), hfind]
  refine ⟨rfl, fun other hother hnaam => ?_, fun hnone => absurd hst.2 (hnone st hst.1), ?_⟩
  · exact hfind.symm.trans (h.find_eq_some_iff.mpr ⟨hother, hnaam⟩)
  · rintro other ⟨⟩
    exact ⟨hst.1, .inl hst.2⟩

/-- Without a second look-up there is no other name. -/
theorem findsStructure_of_global (h : Reached table) (hname : naam.length < lineMax)
    (hfits : (qualifiedName scope naam gl).length < lineMax)
    (hfind : table.find (qualifiedName scope naam gl) = none)
    (hglobal : gl = true ∨ scope.moduleName = []) : table.FindsStructure scope naam gl := by
  rw [FindsStructure, zoek_eq hname]
  dsimp only
  rw [if_neg (by omega), hfind]
  dsimp only
  rw [if_pos hglobal]
  refine ⟨rfl, fun st hst hnaam => ?_, fun _ hgl hmodule => ?_, ?_⟩
  · exact absurd hnaam (h.find_eq_none_iff.mp hfind st hst)
  · rcases hglobal with hgl' | hmodule'
    · exact absurd (hgl.symm.trans hgl') Bool.false_ne_true
    · exact absurd hmodule' hmodule
  · rintro st ⟨⟩

/-- The result of the second look-up. -/
theorem zoek_of_module (hname : naam.length < lineMax)
    (hfits : (qualifiedName scope naam gl).length < lineMax)
    (hfind : table.find (qualifiedName scope naam gl) = none)
    (hglobal : ¬ (gl = true ∨ scope.moduleName = [])) :
    table.zoek scope naam gl =
      if (qualifiedName scope naam gl).length < 1 + scope.moduleName.length then
        (none, [.undefined "read behind the end of the text in sn"])
      else
        (table.find ((qualifiedName scope naam gl).drop (1 + scope.moduleName.length)), []) := by
  rw [zoek_eq hname]
  dsimp only
  rw [if_neg (by omega), hfind]
  dsimp only
  rw [if_neg hglobal]

/-- The second look-up is right exactly when the full name has the module in front, or nothing is found
under what is left of it. -/
theorem findsStructure_iff_of_module (h : Reached table) (hname : naam.length < lineMax)
    (hfits : (qualifiedName scope naam gl).length < lineMax)
    (hfind : table.find (qualifiedName scope naam gl) = none)
    (hglobal : ¬ (gl = true ∨ scope.moduleName = [])) :
    table.FindsStructure scope naam gl ↔
      scope.moduleName ++ ['.'] <+: qualifiedName scope naam gl ∨
        (scope.moduleName.length < (qualifiedName scope naam gl).length ∧
          table.find ((qualifiedName scope naam gl).drop (1 + scope.moduleName.length)) = none) := by
  have hnone := h.find_eq_none_iff.mp hfind
  rw [not_or, Bool.not_eq_true] at hglobal
  rw [FindsStructure, zoek_of_module hname hfits hfind (by rw [not_or, Bool.not_eq_true]; exact hglobal)]
  -- a short name leaves nothing behind the module
  by_cases hinside : (qualifiedName scope naam gl).length < 1 + scope.moduleName.length
  · -- the second look-up begins behind the text
    rw [if_pos hinside]
    constructor
    · rintro ⟨hlog, -⟩
      cases hlog
    · rintro (hfront | ⟨hlength, -⟩)
      · have hlength := hfront.length_le
        rw [List.length_append, List.length_singleton] at hlength
        omega
      · omega
  · rw [if_neg hinside]
    constructor
    · rintro ⟨-, hspec⟩
      -- what the second look-up finds must be a name of the module
      cases hsecond : table.find ((qualifiedName scope naam gl).drop (1 + scope.moduleName.length)) with
      | none => exact .inr ⟨by omega, rfl⟩
      | some st =>
        obtain ⟨hst, hqualified | ⟨-, -, hmodule⟩⟩ := hspec.noOther st hsecond
        · exact absurd hqualified (hnone st hst)
        · refine .inl ⟨st.naam, ?_⟩
          rw [← hmodule, List.append_assoc, List.singleton_append]
    -- the module in front is what the second look-up has taken off
    · intro hcases
      refine ⟨rfl, fun st hst hnaam => absurd hnaam (hnone st hst), fun _ _ _ st hst hmodule => ?_,
        fun st hsecond => ?_⟩
      · exact h.find_eq_some_iff.mpr ⟨hst, (drop_eq_of_append hmodule).symm⟩
      · rcases hcases with hfront | ⟨-, hmissing⟩
        · obtain ⟨hst, hnaam⟩ := h.find_eq_some_iff.mp hsecond
          refine ⟨hst, .inr ⟨hglobal.1, hglobal.2, ?_⟩⟩
          rw [hnaam]
          exact append_drop_eq hfront
        · exact absurd (hmissing.symm.trans hsecond) (by simp)

/-- **Looking up structures.**  For every table of the program, every scope, and every name that fits the
buffer of `GetID`, the look-up stays in its buffer and finds the structure it is meant to find if and
only if the name is handled. -/
theorem isStructureOf_iff (h : Reached table) (hname : naam.length < lineMax) (scope : LabelScope)
    (gl : Bool) : table.FindsStructure scope naam gl ↔ table.NameHandled scope naam gl := by
  unfold NameHandled
  dsimp only
  by_cases hfits : (qualifiedName scope naam gl).length < lineMax
  · cases hfind : table.find (qualifiedName scope naam gl) with
    | some st =>
      have hst := h.find_eq_some_iff.mp hfind
      exact iff_of_true (findsStructure_of_find h hname hfits hfind)
        ⟨hfits, .inr (.inr (.inl ⟨st, hst⟩))⟩
    | none =>
      have hnone := h.find_eq_none_iff.mp hfind
      by_cases hglobal : gl = true ∨ scope.moduleName = []
      · exact iff_of_true (findsStructure_of_global h hname hfits hfind hglobal)
          ⟨hfits, hglobal.imp_right .inl⟩
      · rw [findsStructure_iff_of_module h hname hfits hfind hglobal, h.find_eq_none_iff]
        constructor
        · intro hcases
          exact ⟨hfits, .inr (.inr (.inr hcases))⟩
        · rintro ⟨-, hgl | hmodule | ⟨st, hst, hnaam⟩ | hcases⟩
          · exact absurd (.inl hgl) hglobal
          · exact absurd (.inr hmodule) hglobal
          · exact absurd hnaam (hnone st hst)
          · exact hcases
  · refine iff_of_false (fun hfinds => ?_) fun hhandled => hfits hhandled.1
    -- the full name does not fit its buffer
    rw [FindsStructure, zoek_eq hname] at hfinds
    dsimp only at hfinds
    rw [if_pos (by omega)] at hfinds
    cases hfinds.1

/-! ### A main label of no module -/

/-- In module `m`, under the main label that `@xyS` set. -/
def underGlobalLabel : LabelScope := ⟨['m'], ['x', 'y', 'S'], none⟩

/-- The table with a structure `S.f`. -/
def tableOfSf : CStructureTable := (init.add ['S', '.', 'f'] 0).1.2

theorem reached_tableOfSf : Reached tableOfSf := Reached.init.add _ _

/-- The look-up of `.g` there: `S.g` is no structure. -/
theorem isStructureOf_iff_underGlobalLabel :
    ['.', 'g'].length < lineMax ∧
      (tableOfSf.FindsStructure underGlobalLabel ['.', 'g'] false ↔
        tableOfSf.NameHandled underGlobalLabel ['.', 'g'] false) :=
  ⟨by decide, isStructureOf_iff reached_tableOfSf (by decide) _ _⟩

/-- The look-up of `.f` there finds `S.f`. -/
theorem not_isStructureOf :
    ¬ ∀ table : CStructureTable, Reached table → ∀ (scope : LabelScope) (naam : Text) (gl : Bool),
      naam.length < lineMax → table.FindsStructure scope naam gl := by
  intro h
  obtain ⟨-, hspec⟩ := h tableOfSf reached_tableOfSf underGlobalLabel ['.', 'f'] false (by decide)
  have hfound : (tableOfSf.zoek underGlobalLabel ['.', 'f'] false).1
      = some (Structure.init ['S', '.', 'f'] 0) := by decide
  rw [hfound] at hspec
  obtain ⟨-, hqualified | ⟨-, -, hmodule⟩⟩ := hspec.noOther _ rfl
  · exact absurd hqualified (by decide)
  · exact absurd hmodule (by decide)

end CStructureTable

end Sjasmplus
