import Mathlib.Data.List.TakeWhile
import Mathlib.Logic.Function.Basic
import Sjasmplus.Aint
import Sjasmplus.Diagnostics
import Sjasmplus.Lib.Refinement

/-!
# The define table (`CDefineTable` of `tables.cpp`)

The table has 128 chains of entries, one for each value of the first character of the name.  A look-up
answers from the entry of the name that is ahead of the others, so `Add` hides older entries of a name
without removing them.

`defineTable_isMap_iff` — the tables answer as finite maps all along a run exactly when no step of it
brings a hidden entry back: no `Remove` of a name with an older entry, and no assignment of a table in
which the oldest entry of a name differs from the newest.
-/

namespace Sjasmplus

/-! ### The table -/

/-- `CDefineTableEntry`. -/
structure DefineEntry where
  name : Text
  value : Text
  nss : List Text
deriving DecidableEq, Repr

/-- A character that ends the value of a new entry. -/
def isLineEnd (c : Char) : Bool := c = '\n' || c = '\r'

/-- The value that the constructor of `CDefineTableEntry` keeps. -/
def lineValue (nvalue : Text) : Text := nvalue.takeWhile (!isLineEnd ·)

/-- `CDefineTable`. -/
structure DefineTable where
  defs : Fin 128 → List DefineEntry
  defArrayList : List Text

namespace DefineTable

variable (table : DefineTable)

/-- `Init`. -/
def init : DefineTable := ⟨fun _ => [], []⟩

/-- `(*name)&127`. -/
def bucket (name : Text) : Fin 128 := ⟨(cur name).toNat % 128, by omega⟩

/-- `defs[(*name)&127]`. -/
def chain (name : Text) : List DefineEntry := table.defs (bucket name)

def setChain (name : Text) (entries : List DefineEntry) : DefineTable :=
  { table with defs := Function.update table.defs (bucket name) entries }

/-- A new entry ahead of the chain. -/
def push (name value : Text) (nss : List Text) : DefineTable :=
  table.setChain name (⟨name, lineValue value, nss⟩ :: table.chain name)

/-- `FindDuplicate`. -/
def findDuplicate (name : Text) : Bool := (table.chain name).any (·.name = name)

/-- `Add`. -/
def add (name value : Text) (nss : List Text) : Reported DefineTable :=
  (table.push name value nss,
    if table.findDuplicate name then
      [.error "Duplicate define (replacing old value)" (some name) .pass03]
    else [])

/-- `Get`, with `PredefinedCounter` and the line of the source position. -/
def get (name : Text) (predefinedCounter line : Int) : Option Text × DefineTable × Int :=
  let reset := { table with defArrayList := [] }
  if name = [] then (none, reset, predefinedCounter)
  -- these two have a fully dynamic custom implementation
  else if cur name.tail = '_' ∧ name = "__COUNTER__".toList then
    (some (toString predefinedCounter).toList, reset, predefinedCounter + 1)
  else if cur name.tail = '_' ∧ name = "__LINE__".toList then
    (some (toString line).toList, reset, predefinedCounter)
  else match (table.chain name).find? (·.name = name) with
    | none => (none, reset, predefinedCounter)
    | some p => (some p.value, { table with defArrayList := p.nss }, predefinedCounter)

/-- The loop of `Replace`: none when the name is not there. -/
def replaceFirst (name value : Text) : List DefineEntry → Option (List DefineEntry)
  | [] => none
  | p :: next =>
    if p.name = name then some ({ p with value := value } :: next)
    else (replaceFirst name value next).map (p :: ·)

/-- `Replace`: whether the name is new, and the table. -/
def replace (name value : Text) : Bool × DefineTable :=
  match replaceFirst name value (table.chain name) with
  | some entries => (false, table.setChain name entries)
  | none => (true, table.push name value [])

/-- `Remove`: whether the name was there, and the table. -/
def remove (name : Text) : Bool × DefineTable :=
  if table.findDuplicate name then
    -- unchain the first item of the name
    let entries := (table.chain name).eraseP (·.name = name)
    (true, { table.setChain name entries with defArrayList := [] })
  else (false, table)

/-- `RemoveAll`. -/
def removeAll (_ : DefineTable) : DefineTable := init

/-- The entries in the order of the loops of `operator=`. -/
def entries : List DefineEntry := (List.finRange 128).flatMap table.defs

/-- The loops of `operator=`. -/
def addAll (entries : List DefineEntry) : Reported DefineTable :=
  entries.foldl (fun r srcD =>
    let added := r.1.add srcD.name srcD.value srcD.nss
    (added.1, r.2 ++ added.2)) (table, [])

end DefineTable

/-- `operator=` among the tables of the program. -/
def assignDefines {ι : Type} [DecidableEq ι] (tables : ι → DefineTable) (this defTable : ι) :
    Reported (ι → DefineTable) :=
  let tables := Function.update tables this (tables this).removeAll
  let added := (tables this).addAll (tables defTable).entries
  (Function.update tables this added.1, added.2)

/-! ### Operations on the tables -/

/-- A value without line ends. -/
abbrev DefineValue := { value : Text // ∀ c ∈ value, isLineEnd c = false }

/-- What is done to the tables. -/
inductive DefineOp (ι : Type)
  | add (table : ι) (name : Text) (value : DefineValue) (nss : List Text)
  | replace (table : ι) (name : Text) (value : DefineValue)
  | remove (table : ι) (name : Text)
  | removeAll (table : ι)
  | assign (this defTable : ι)

section

variable {ι : Type} [DecidableEq ι]

/-- An operation as the tables do it. -/
def stepDefines (tables : ι → DefineTable) : DefineOp ι → ι → DefineTable
  | .add i name value nss => Function.update tables i ((tables i).add name value nss).1
  | .replace i name value => Function.update tables i ((tables i).replace name value).2
  | .remove i name => Function.update tables i ((tables i).remove name).2
  | .removeAll i => Function.update tables i (tables i).removeAll
  | .assign this defTable => (assignDefines tables this defTable).1

/-- An operation as finite maps do it. -/
def stepMaps (maps : ι → Text → Option Text) : DefineOp ι → ι → Text → Option Text
  | .add i name value _ => Function.update maps i (Function.update (maps i) name (some value))
  | .replace i name value => Function.update maps i (Function.update (maps i) name (some value))
  | .remove i name => Function.update maps i (Function.update (maps i) name none)
  | .removeAll i => Function.update maps i fun _ => none
  | .assign this defTable => Function.update maps this (maps defTable)

end

/-- The names that `Get` does not look up. -/
def isDynamicName (name : Text) : Bool := name = "__COUNTER__".toList || name = "__LINE__".toList

namespace DefineTable

variable (table : DefineTable)

/-- The table answers as the map does. -/
structure Answers (map : Text → Option Text) : Prop where
  get : ∀ name, isDynamicName name = false → ∀ predefinedCounter line,
    (table.get name predefinedCounter line).1 = map name
  findDuplicate : ∀ name, isDynamicName name = false →
    table.findDuplicate name = (map name).isSome

/-- The value of the entry of a name that is ahead of the others. -/
def newest (name : Text) : Option Text :=
  ((table.chain name).find? (·.name = name)).map DefineEntry.value

/-- The value of the entry of a name that is behind the others. -/
def oldest (name : Text) : Option Text :=
  (table.entries.reverse.find? (·.name = name)).map DefineEntry.value

/-- Every name has its newest value in its oldest entry too. -/
def Unshadowed : Prop :=
  ∀ p ∈ table.entries, isDynamicName p.name = false → table.oldest p.name = table.newest p.name

instance : Decidable table.Unshadowed := inferInstanceAs (Decidable (∀ p ∈ _, _ → _))

/-- Entries stand in the chain of their name, and have values without line ends. -/
structure WellFormed : Prop where
  chained : ∀ b, ∀ p ∈ table.defs b, bucket p.name = b
  clean : ∀ b, ∀ p ∈ table.defs b, lineValue p.value = p.value

end DefineTable

/-- The step brings no hidden entry back. -/
def FitsMaps {ι : Type} [DecidableEq ι] (tables : ι → DefineTable) : DefineOp ι → Prop
  | .add _ name _ _ => name ≠ []
  | .replace _ name _ => name ≠ []
  | .remove i name =>
    isDynamicName name = true ∨ ((tables i).chain name).countP (·.name = name) ≤ 1
  | .removeAll _ => True
  | .assign this defTable =>
    if this = defTable then ∀ p ∈ (tables defTable).entries, isDynamicName p.name = true
    else (tables defTable).Unshadowed

/-! ### Chains -/

/-- A value without line ends is kept as it is. -/
theorem lineValue_eq {value : Text} (h : ∀ c ∈ value, isLineEnd c = false) :
    lineValue value = value :=
  List.takeWhile_eq_self_iff.mpr fun c hc => by simp [h c hc]

@[simp] theorem lineValue_lineValue (value : Text) : lineValue (lineValue value) = lineValue value :=
  List.takeWhile_idem

namespace DefineTable

/-- Where the first entry of a name is erased, none is left exactly if there was no second one. -/
theorem find?_eraseP_eq_none_iff (name : Text) (entries : List DefineEntry) :
    (entries.eraseP (·.name = name)).find? (·.name = name) = none ↔
      entries.countP (·.name = name) ≤ 1 := by
  induction entries with
  | nil => simp
  | cons p next ih =>
    by_cases hname : p.name = name
    · rw [List.eraseP_cons_of_pos (by simpa using hname), List.countP_cons_of_pos (by simpa using hname),
        List.find?_eq_none, ← List.countP_eq_zero]
      omega
    · rw [List.eraseP_cons_of_neg (by simpa using hname), List.countP_cons_of_neg (by simpa using hname),
        List.find?_cons_of_neg (by simpa using hname), ih]

/-- Erasing an entry of a name leaves those of the others. -/
theorem find?_eraseP_of_ne {name other : Text} (hne : other ≠ name) (entries : List DefineEntry) :
    (entries.eraseP (·.name = name)).find? (·.name = other) = entries.find? (·.name = other) := by
  induction entries with
  | nil => rfl
  | cons p next ih =>
    by_cases hname : p.name = name
    · have hother : ¬p.name = other := fun h => hne (h.symm.trans hname)
      rw [List.eraseP_cons_of_pos (by simpa using hname), List.find?_cons_of_neg (by simpa using hother)]
    · rw [List.eraseP_cons_of_neg (by simpa using hname), List.find?_cons, List.find?_cons, ih]

/-- `Replace` keeps the entries, but for the value of one. -/
theorem mem_replaceFirst {name value : Text} {entries entries' : List DefineEntry}
    (h : replaceFirst name value entries = some entries') {p : DefineEntry} (hp : p ∈ entries') :
    p ∈ entries ∨ ∃ q ∈ entries, p = { q with value := value } := by
  -- by induction on the entries: the first one of the name is replaced, and those behind it are
  -- kept
  induction entries generalizing entries' with
  | nil => simp [replaceFirst] at h
  | cons q next ih =>
    by_cases hname : q.name = name
    · obtain rfl : { q with value := value } :: next = entries' := by
        simpa [replaceFirst, hname] using h
      rcases List.mem_cons.mp hp with rfl | hp
      · exact .inr ⟨q, List.mem_cons_self, rfl⟩
      · exact .inl (List.mem_cons_of_mem _ hp)
    · obtain ⟨rest, hrest, rfl⟩ : ∃ rest, replaceFirst name value next = some rest ∧
          q :: rest = entries' := by
        simpa [replaceFirst, hname] using h
      rcases List.mem_cons.mp hp with rfl | hp
      · exact .inl List.mem_cons_self
      · rcases ih hrest hp with hp | ⟨q', hq', rfl⟩
        · exact .inl (List.mem_cons_of_mem _ hp)
        · exact .inr ⟨q', List.mem_cons_of_mem _ hq', rfl⟩

/-- `Replace` sets the value of the entry that a look-up finds, and of no other one. -/
theorem find?_replaceFirst {name value : Text} {entries entries' : List DefineEntry}
    (h : replaceFirst name value entries = some entries') (other : Text) :
    (entries'.find? (·.name = other)).map DefineEntry.value =
      if other = name then some value
      else (entries.find? (·.name = other)).map DefineEntry.value := by
  induction entries generalizing entries' with
  | nil => simp [replaceFirst] at h
  | cons p next ih =>
    by_cases hname : p.name = name
    · obtain rfl : { p with value := value } :: next = entries' := by
        simpa [replaceFirst, hname] using h
      by_cases hother : other = name
      · simp [hname, hother]
      · have hp : ¬p.name = other := fun heq => hother (heq.symm.trans hname)
        simp [hp, hother]
    · obtain ⟨rest, hrest, rfl⟩ : ∃ rest, replaceFirst name value next = some rest ∧
          p :: rest = entries' := by
        simpa [replaceFirst, hname] using h
      -- the entry in front has another name than the one that is replaced
      by_cases hp : p.name = other
      · have hother : ¬other = name := fun heq => hname (hp.trans heq)
        simp [hp, hother]
      · rw [List.find?_cons_of_neg (by simpa using hp), List.find?_cons_of_neg (by simpa using hp),
          ih hrest]

/-! ### What the operations do to the newest values -/

variable (table : DefineTable)

theorem findDuplicate_eq (name : Text) : table.findDuplicate name = (table.newest name).isSome := by
  rw [newest, Option.isSome_map, findDuplicate, Bool.eq_iff_iff, List.any_eq_true,
    List.find?_isSome]

theorem get_eq {name : Text} (hdynamic : isDynamicName name = false) (hname : name ≠ [])
    (predefinedCounter line : Int) :
    (table.get name predefinedCounter line).1 = table.newest name := by
  obtain ⟨hcounter, hline⟩ := Bool.or_eq_false_iff.mp hdynamic
  rw [get, if_neg hname, if_neg (fun h => of_decide_eq_false hcounter h.2),
    if_neg (fun h => of_decide_eq_false hline h.2), newest]
  cases (table.chain name).find? (·.name = name) <;> rfl

theorem get_nil (predefinedCounter line : Int) :
    (table.get [] predefinedCounter line).1 = none := rfl

/-- A table answers as a map does by its newest values; a blank name is never found. -/
theorem answers_iff {map : Text → Option Text} :
    table.Answers map ↔
      table.newest [] = none ∧ ∀ name, isDynamicName name = false → table.newest name = map name := by
  constructor
  · intro h
    -- a blank name is not found in the map either
    have hblank : map [] = none := (h.get [] (by decide) 0 0).symm.trans (table.get_nil 0 0)
    have hnil : table.newest [] = none := by
      have hdup := h.findDuplicate [] (by decide)
      rw [hblank, findDuplicate_eq] at hdup
      simpa using hdup
    refine ⟨hnil, fun name hdynamic => ?_⟩
    by_cases hname : name = []
    · rw [hname, hnil, hblank]
    · rw [← h.get name hdynamic 0 0, table.get_eq hdynamic hname]
  · rintro ⟨hnil, hnewest⟩
    refine ⟨fun name hdynamic c l => ?_, fun name hdynamic => ?_⟩
    · by_cases hname : name = []
      · rw [hname, get_nil, ← hnewest [] (by decide), hnil]
      · rw [table.get_eq hdynamic hname, hnewest name hdynamic]
    · rw [findDuplicate_eq, hnewest name hdynamic]

@[simp] theorem defs_setChain (name : Text) (entries : List DefineEntry) :
    (table.setChain name entries).defs = Function.update table.defs (bucket name) entries := rfl

/-- A new chain for the bucket of a name shows in the look-ups of that bucket only. -/
theorem newest_setChain {name : Text} {entries : List DefineEntry} {value : Option Text}
    (hself : (entries.find? (·.name = name)).map DefineEntry.value = value)
    (hother : ∀ other, other ≠ name → (entries.find? (·.name = other)).map DefineEntry.value
      = ((table.chain name).find? (·.name = other)).map DefineEntry.value) (other : Text) :
    (table.setChain name entries).newest other
      = if other = name then value else table.newest other := by
  by_cases hname : other = name
  · rw [hname, if_pos rfl, newest, chain, defs_setChain, Function.update_self, hself]
  · rw [if_neg hname, newest, newest, chain, defs_setChain]
    by_cases hbucket : bucket other = bucket name
    · rw [hbucket, Function.update_self, hother other hname, chain, chain, hbucket]
    · rw [Function.update_of_ne hbucket, chain]

theorem newest_push (name value : Text) (nss : List Text) (other : Text) :
    (table.push name value nss).newest other
      = if other = name then some (lineValue value) else table.newest other := by
  refine table.newest_setChain (by simp) (fun other hne => ?_) other
  rw [List.find?_cons_of_neg (by simpa using hne.symm)]

theorem newest_replace (name : Text) (value : DefineValue) (other : Text) :
    (table.replace name value).2.newest other
      = if other = name then some value.val else table.newest other := by
  unfold replace
  cases hfirst : replaceFirst name value (table.chain name) with
  | none =>
    dsimp only
    rw [newest_push, lineValue_eq value.property]
  | some entries =>
    have hfind := find?_replaceFirst hfirst
    refine table.newest_setChain ?_ (fun other hne => ?_) other
    · rw [hfind, if_pos rfl]
    · rw [hfind, if_neg hne]

theorem newest_remove (name other : Text) :
    (table.remove name).2.newest other
      = if other = name then
          (((table.chain name).eraseP (·.name = name)).find? (·.name = name)).map DefineEntry.value
        else table.newest other := by
  unfold remove
  by_cases hdup : table.findDuplicate name = true
  · rw [if_pos hdup]
    refine table.newest_setChain rfl (fun other hne => ?_) other
    rw [find?_eraseP_of_ne hne]
  -- without an entry of the name nothing is removed
  · have hnone : ∀ p ∈ table.chain name, ¬decide (p.name = name) = true := by
      simpa [findDuplicate] using hdup
    rw [if_neg hdup, List.eraseP_of_forall_not hnone]
    split_ifs with hname
    · rw [hname, newest]
    · rfl

@[simp] theorem newest_removeAll (name : Text) : table.removeAll.newest name = none := rfl

theorem add_eq_push (name value : Text) (nss : List Text) :
    (table.add name value nss).1 = table.push name value nss := rfl

/-- Adding entries turns their order around: the last one of a name answers. -/
theorem newest_addAll (entries : List DefineEntry)
    (hclean : ∀ p ∈ entries, lineValue p.value = p.value) (name : Text) :
    (table.addAll entries).1.newest name
      = ((entries.reverse.find? (·.name = name)).map DefineEntry.value).or (table.newest name) := by
  -- by induction on the entries from the end: the last one that was added is the first of its chain
  induction entries using List.reverseRecOn with
  | nil => rfl
  | append_singleton entries p ih =>
    have hrest := ih fun q hq => hclean q (List.mem_append_left _ hq)
    rw [addAll, List.foldl_append, List.foldl_cons, List.foldl_nil, ← addAll]
    dsimp only
    rw [add_eq_push, newest_push, hrest, hclean p (by simp), List.reverse_append,
      List.reverse_singleton, List.singleton_append, List.find?_cons]
    by_cases hname : name = p.name
    · simp [hname]
    · have hp : ¬p.name = name := fun h => hname h.symm
      simp [hname, hp]

/-! ### Well-formed tables -/

namespace WellFormed

theorem init : init.WellFormed := ⟨fun _ _ hp => by simp [DefineTable.init] at hp,
  fun _ _ hp => by simp [DefineTable.init] at hp⟩

variable {table} (h : table.WellFormed)
include h

/-- A chain may be replaced by entries that belong into it. -/
theorem setChain {name : Text} {entries : List DefineEntry}
    (hentries : ∀ p ∈ entries, bucket p.name = bucket name ∧ lineValue p.value = p.value) :
    (table.setChain name entries).WellFormed := by
  constructor
  all_goals
    intro b p hp
    rw [defs_setChain] at hp
    by_cases hb : b = bucket name
    · subst hb
      rw [Function.update_self] at hp
      first | exact (hentries p hp).1 | exact (hentries p hp).2
    · rw [Function.update_of_ne hb] at hp
      first | exact h.chained b p hp | exact h.clean b p hp

theorem mem_chain {name : Text} {p : DefineEntry} (hp : p ∈ table.chain name) :
    bucket p.name = bucket name ∧ lineValue p.value = p.value :=
  ⟨h.chained _ p hp, h.clean _ p hp⟩

theorem push (name value : Text) (nss : List Text) : (table.push name value nss).WellFormed := by
  refine h.setChain fun p hp => ?_
  rcases List.mem_cons.mp hp with rfl | hp
  · exact ⟨rfl, lineValue_lineValue value⟩
  · exact h.mem_chain hp

theorem addAll (entries : List DefineEntry) : (table.addAll entries).1.WellFormed := by
  induction entries using List.reverseRecOn with
  | nil => exact h
  | append_singleton entries p ih =>
    rw [DefineTable.addAll, List.foldl_append, List.foldl_cons, List.foldl_nil,
      ← DefineTable.addAll]
    exact ih.push _ _ _

theorem replace (name : Text) (value : DefineValue) : (table.replace name value).2.WellFormed := by
  unfold DefineTable.replace
  cases hfirst : replaceFirst name value (table.chain name) with
  | none => exact h.push _ _ _
  | some entries =>
    refine h.setChain fun p hp => ?_
    rcases mem_replaceFirst hfirst hp with hp | ⟨q, hq, rfl⟩
    · exact h.mem_chain hp
    · exact ⟨(h.mem_chain hq).1, lineValue_eq value.property⟩

theorem remove (name : Text) : (table.remove name).2.WellFormed := by
  unfold DefineTable.remove
  split_ifs
  · have hset := h.setChain (fun p hp => h.mem_chain (List.mem_of_mem_eraseP hp) :
      ∀ p ∈ (table.chain name).eraseP (·.name = name), _)
    exact ⟨hset.chained, hset.clean⟩
  · exact h

end WellFormed

/-! ### Hidden entries -/

theorem mem_entries {b : Fin 128} {p : DefineEntry} (hp : p ∈ table.defs b) : p ∈ table.entries :=
  List.mem_flatMap.mpr ⟨b, List.mem_finRange b, hp⟩

/-- Only names with an entry can be shadowed. -/
theorem unshadowed_iff :
    table.Unshadowed ↔
      ∀ name, isDynamicName name = false → table.oldest name = table.newest name := by
  constructor
  · intro h name hdynamic
    by_cases hname : ∃ p ∈ table.entries, p.name = name
    · obtain ⟨p, hp, rfl⟩ := hname
      exact h p hp hdynamic
    -- a name without an entry is found in neither order
    · have hall : ∀ p ∈ table.entries, ¬decide (p.name = name) = true :=
        fun p hp heq => hname ⟨p, hp, of_decide_eq_true heq⟩
      have hchain : ∀ p ∈ table.chain name, ¬decide (p.name = name) = true :=
        fun p hp => hall p (table.mem_entries hp)
      rw [oldest, newest, List.find?_eq_none.mpr fun p hp => hall p (List.mem_reverse.mp hp),
        List.find?_eq_none.mpr hchain]
  · exact fun h p _ hdynamic => h p.name hdynamic

/-- A table without looked-up names finds none. -/
theorem WellFormed.forall_newest_eq_none_iff (h : table.WellFormed) :
    (∀ name, isDynamicName name = false → table.newest name = none) ↔
      ∀ p ∈ table.entries, isDynamicName p.name = true := by
  constructor
  · intro hnone p hp
    by_contra hdynamic
    obtain ⟨b, -, hp⟩ := List.mem_flatMap.mp hp
    have hfind := hnone p.name (by simpa using hdynamic)
    rw [newest, Option.map_eq_none_iff, List.find?_eq_none] at hfind
    exact hfind p (by rwa [chain, h.chained b p hp]) (by simp)
  · intro hall name hdynamic
    rw [newest, Option.map_eq_none_iff, List.find?_eq_none]
    intro p hp hname
    rw [← of_decide_eq_true hname, hall p (table.mem_entries hp)] at hdynamic
    cases hdynamic

/-! ### Steps -/

/-- Where only the value of one name changes, that value decides. -/
theorem Answers.set_iff {table table' : DefineTable} {map : Text → Option Text}
    (h : table.Answers map) {name : Text} {newest' value : Option Text}
    (hset : ∀ other, table'.newest other
      = if other = name then newest' else table.newest other) :
    table'.Answers (Function.update map name value) ↔
      (name = [] → newest' = none) ∧ (isDynamicName name = false → newest' = value) := by
  obtain ⟨hnil, hnewest⟩ := table.answers_iff.mp h
  rw [answers_iff]
  constructor
  · rintro ⟨hnil', hnewest'⟩
    refine ⟨fun hname => ?_, fun hdynamic => ?_⟩
    · rwa [hset, if_pos hname.symm] at hnil'
    · have hself := hnewest' name hdynamic
      rwa [hset, if_pos rfl, Function.update_self] at hself
  -- a blank name is found in no table, so nothing may be stored for it
  · rintro ⟨hblank, hself⟩
    refine ⟨?_, fun other hdynamic => ?_⟩
    · rw [hset]
      split_ifs with hname
      · exact hblank hname.symm
      · exact hnil
    · rw [hset]
      split_ifs with hname
      · rw [hname, Function.update_self, hself (hname ▸ hdynamic)]
      · rw [Function.update_of_ne hname, hnewest other hdynamic]

/-- A name that gets a value must not be blank. -/
theorem Answers.set_some_iff {table table' : DefineTable} {map : Text → Option Text}
    (h : table.Answers map) {name value : Text}
    (hset : ∀ other, table'.newest other
      = if other = name then some value else table.newest other) :
    table'.Answers (Function.update map name (some value)) ↔ name ≠ [] := by
  rw [h.set_iff hset]
  simp

theorem Answers.remove_iff {table : DefineTable} {map : Text → Option Text}
    (h : table.Answers map) (name : Text) :
    (table.remove name).2.Answers (Function.update map name none) ↔
      isDynamicName name = true ∨ (table.chain name).countP (·.name = name) ≤ 1 := by
  rw [h.set_iff (table.newest_remove name), Option.map_eq_none_iff, find?_eraseP_eq_none_iff]
  constructor
  · rintro ⟨-, hvisible⟩
    by_cases hdynamic : isDynamicName name = true
    · exact .inl hdynamic
    · exact .inr (hvisible (by simpa using hdynamic))
  · rintro (hdynamic | hcount)
    · refine ⟨fun hname => ?_, fun hvisible => ?_⟩
      · rw [hname] at hdynamic
        cases hdynamic
      · rw [hdynamic] at hvisible
        cases hvisible
    · exact ⟨fun _ => hcount, fun _ => hcount⟩

theorem answers_removeAll : table.removeAll.Answers fun _ => none :=
  table.removeAll.answers_iff.mpr ⟨rfl, fun _ _ => rfl⟩

/-- A copy answers as the map of its source exactly when nothing is shadowed there. -/
theorem Answers.copy_iff {table source : DefineTable} {map : Text → Option Text}
    (h : source.Answers map) (hsource : source.WellFormed) :
    (table.removeAll.addAll source.entries).1.Answers map ↔ source.Unshadowed := by
  obtain ⟨hnil, hnewest⟩ := source.answers_iff.mp h
  have hclean : ∀ p ∈ source.entries, lineValue p.value = p.value := by
    intro p hp
    obtain ⟨b, -, hp⟩ := List.mem_flatMap.mp hp
    exact hsource.clean b p hp
  -- the copy is added in the order of the chains, which the look-up turns around
  have hcopy : ∀ name, (table.removeAll.addAll source.entries).1.newest name = source.oldest name :=
    fun name => by rw [newest_addAll _ _ hclean, newest_removeAll, Option.or_none, oldest]
  rw [answers_iff, unshadowed_iff]
  constructor
  · rintro ⟨-, hall⟩ name hdynamic
    rw [← hcopy, hall name hdynamic, hnewest name hdynamic]
  · intro hall
    refine ⟨?_, fun name hdynamic => ?_⟩
    · rw [hcopy, hall [] (by decide), hnil]
    · rw [hcopy, hall name hdynamic, hnewest name hdynamic]

/-- A table that is assigned to itself is lost. -/
theorem Answers.lost_iff {table : DefineTable} {map : Text → Option Text}
    (h : table.Answers map) (htable : table.WellFormed) :
    table.removeAll.Answers map ↔ ∀ p ∈ table.entries, isDynamicName p.name = true := by
  obtain ⟨-, hnewest⟩ := table.answers_iff.mp h
  rw [← htable.forall_newest_eq_none_iff, answers_iff]
  constructor
  · rintro ⟨-, hall⟩ name hdynamic
    rw [hnewest name hdynamic, ← hall name hdynamic, newest_removeAll]
  · intro hall
    refine ⟨rfl, fun name hdynamic => ?_⟩
    rw [newest_removeAll, ← hnewest name hdynamic, hall name hdynamic]

end DefineTable

section

variable {ι : Type} [DecidableEq ι]

open DefineTable

/-- What one table answers decides, when only that one changes. -/
theorem forall_answers_update_iff {tables : ι → DefineTable} {maps : ι → Text → Option Text}
    (h : ∀ i, (tables i).Answers (maps i)) (i : ι) (table : DefineTable)
    (map : Text → Option Text) :
    (∀ j, (Function.update tables i table j).Answers (Function.update maps i map j)) ↔
      table.Answers map := by
  constructor
  · intro hall
    have hself := hall i
    rwa [Function.update_self, Function.update_self] at hself
  · intro hself j
    by_cases hj : j = i
    · rw [hj, Function.update_self, Function.update_self]
      exact hself
    · rw [Function.update_of_ne hj, Function.update_of_ne hj]
      exact h j

theorem wellFormed_update {tables : ι → DefineTable} (h : ∀ i, (tables i).WellFormed) (i : ι)
    {table : DefineTable} (htable : table.WellFormed) (j : ι) :
    (Function.update tables i table j).WellFormed := by
  by_cases hj : j = i
  · rw [hj, Function.update_self]
    exact htable
  · rw [Function.update_of_ne hj]
    exact h j

/-- What the assignment of a table to itself, or to another one, leaves there. -/
theorem assignDefines_eq (tables : ι → DefineTable) (this defTable : ι) :
    (assignDefines tables this defTable).1 = Function.update tables this
      (if this = defTable then (tables this).removeAll
      else ((tables this).removeAll.addAll (tables defTable).entries).1) := by
  unfold assignDefines
  dsimp only
  rw [Function.update_self, Function.update_idem]
  by_cases hself : this = defTable
  · subst hself
    rw [if_pos rfl, Function.update_self]
    rfl
  · rw [if_neg hself, Function.update_of_ne (fun h => hself h.symm)]

theorem exactSteps_defines : Refinement.ExactSteps (stepDefines (ι := ι)) stepMaps
    (fun tables => ∀ i, (tables i).WellFormed) (fun tables maps => ∀ i, (tables i).Answers (maps i))
    FitsMaps where
  inv tables op h := by
    cases op with
    | add i name value nss => exact wellFormed_update h i ((h i).push _ _ _)
    | replace i name value => exact wellFormed_update h i ((h i).replace _ _)
    | remove i name => exact wellFormed_update h i ((h i).remove _)
    | removeAll i => exact wellFormed_update h i .init
    | assign this defTable =>
      rw [stepDefines, assignDefines_eq]
      refine wellFormed_update h this ?_
      split_ifs
      · exact .init
      · exact WellFormed.addAll .init _
  rel_iff tables maps op hwell h := by
    cases op with
    | add i name value nss =>
      refine (forall_answers_update_iff h i _ _).trans ((h i).set_some_iff fun other => ?_)
      rw [add_eq_push, newest_push, lineValue_eq value.property]
    | replace i name value =>
      exact (forall_answers_update_iff h i _ _).trans
        ((h i).set_some_iff ((tables i).newest_replace name value))
    | remove i name =>
      exact (forall_answers_update_iff h i _ _).trans ((h i).remove_iff name)
    | removeAll i =>
      exact (forall_answers_update_iff h i _ _).trans (iff_true_intro (tables i).answers_removeAll)
    | assign this defTable =>
      rw [stepDefines, assignDefines_eq, stepMaps, forall_answers_update_iff h, FitsMaps]
      -- a table that is assigned to itself is emptied before it is copied
      by_cases hself : this = defTable
      · subst hself
        rw [if_pos rfl, if_pos rfl]
        exact (h this).lost_iff (hwell this)
      · rw [if_neg hself, if_neg hself]
        exact (h defTable).copy_iff (hwell defTable)

/-- The define tables are finite maps all along a run exactly when every step of it fits. -/
theorem defineTable_isMap_iff (ops : List (DefineOp ι)) :
    (∀ done todo, ops = done ++ todo →
      ∀ i, ((done.foldl stepDefines fun _ => DefineTable.init) i).Answers
        ((done.foldl stepMaps fun _ _ => none) i)) ↔
      ∀ done op todo, ops = done ++ op :: todo →
        FitsMaps (done.foldl stepDefines fun _ => DefineTable.init) op :=
  exactSteps_defines.forall_rel_iff ops (fun _ => .init)
    fun _ => DefineTable.init.answers_removeAll

end

/-- `DEFINE a 1`, `DEFINE a 2`, `UNDEFINE a`. -/
def exampleDefines : List (DefineOp Unit) :=
  [.add () ['a'] ⟨['1'], List.forall_mem_singleton.mpr rfl⟩ [],
    .add () ['a'] ⟨['2'], List.forall_mem_singleton.mpr rfl⟩ [], .remove () ['a']]

/-- `UNDEFINE` brings the value of the first `DEFINE` back. -/
theorem not_answers_exampleDefines :
    ¬∀ i, ((exampleDefines.foldl stepDefines fun _ => DefineTable.init) i).Answers
      ((exampleDefines.foldl stepMaps fun _ _ => none) i) := by
  intro h
  have hget := (h ()).get ['a'] (by decide) 0 0
  revert hget
  decide

end Sjasmplus
