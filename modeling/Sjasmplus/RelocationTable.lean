import Sjasmplus.DefinitionClass

/-!
# The relocation table (`addOffsetToRelocate`, `refreshMaxTableCount`, `dirRELOCATE_TABLE`)

`RELOCATE_TABLE` may stand in front of the blocks whose offsets it emits, so it reads the offsets of
the previous pass where this pass has none yet, up to the running maximum of their number.

* In every reachable state each entry of the table is one of this pass or of the previous one
  (`Collected.tableValid`).
* In a pass that collects the same offsets as the pass before every table is the complete one
  (`tableComplete`).
* `relocate_count` is its length behind the first directive that refreshes it; in front of that
  directive it is what the pass before has left (`relocationTable_iff`).
-/

namespace Sjasmplus

open Parsing ParseFn Program AsmState AsmProgram

variable {n m : Nat}

/-! ### Statements and the table -/

/-- The symbol with the number of offsets. -/
def relocateCount : Text := "relocate_count".toList

/-- What leaves the data of `relocate.cpp` and its symbol alone, except that looking the symbol up may
leave a placeholder. -/
structure SameTable (s t : AsmState n m) : Prop where
  offsets : t.offsets = s.offsets
  offsetsPrevious : t.offsetsPrevious = s.offsetsPrevious
  maxTableCount : t.maxTableCount = s.maxTableCount
  symbol : ∀ label, s.symbols relocateCount = some label → t.symbols relocateCount = some label
  placeholder : s.symbols relocateCount = none →
    ∀ label, t.symbols relocateCount = some label → label.page = labelPageUndefined

namespace SameTable

theorem of_symbols {s t : AsmState n m} (hoffsets : t.offsets = s.offsets)
    (hprevious : t.offsetsPrevious = s.offsetsPrevious) (hcount : t.maxTableCount = s.maxTableCount)
    (hsymbols : t.symbols = s.symbols) : SameTable s t where
  offsets := hoffsets
  offsetsPrevious := hprevious
  maxTableCount := hcount
  symbol label h := by rw [hsymbols, h]
  placeholder h label hlabel := by
    rw [hsymbols, h] at hlabel
    exact absurd hlabel (by simp)

instance : Std.Refl (SameTable (n := n) (m := m)) := ⟨fun _ => of_symbols rfl rfl rfl rfl⟩

/-- A look-up leaves a placeholder at most. -/
theorem find_eq {s t : AsmState n m} (h : SameTable s t) :
    t.find relocateCount = s.find relocateCount := by
  unfold find
  rcases hold : s.symbols relocateCount with _ | label
  · rcases hnew : t.symbols relocateCount with _ | label
    · rfl
    · rw [Option.filter_some, if_neg (by simp [h.placeholder hold label hnew])]
      rfl
  · rw [h.symbol label hold]

instance : IsTrans (AsmState n m) SameTable where
  trans s t u h h' := by
    refine ⟨h'.offsets.trans h.offsets, h'.offsetsPrevious.trans h.offsetsPrevious,
      h'.maxTableCount.trans h.maxTableCount,
      fun label hlabel => h'.symbol label (h.symbol label hlabel), fun hnone label hlabel => ?_⟩
    rcases hmid : t.symbols relocateCount with _ | old
    · exact h'.placeholder hmid label hlabel
    · have hold := h.placeholder hnone old hmid
      rw [h'.symbol old hmid, Option.some.injEq] at hlabel
      rwa [← hlabel]

/-- Looking up labels. -/
theorem noteLookup (s : AsmState n m) (e : Event) : SameTable s (s.noteLookup e) := by
  have heval := evaluates_noteLookup s e
  suffices h : (s.noteLookup e).offsets = s.offsets ∧
      (s.noteLookup e).offsetsPrevious = s.offsetsPrevious ∧
      (s.noteLookup e).maxTableCount = s.maxTableCount from
    ⟨h.1, h.2.1, h.2.2, heval.symbols _, fun hnone label => heval.placeholders _ label hnone⟩
  unfold AsmState.noteLookup
  split
  · dsimp only
    -- a label that is not found gets a placeholder, which is no definition
    split_ifs
    · rename_i findName _ _
      rcases hinsert : ({ s with isLabelNotFound := true } : AsmState n m).insert findName 0
          { isUndefined := true } with _ | t
      · exact ⟨rfl, rfl, rfl⟩
      · obtain ⟨symbol, rfl, -⟩ := insert_eq hinsert
        exact ⟨rfl, rfl, rfl⟩
    · exact ⟨rfl, rfl, rfl⟩
  · exact ⟨rfl, rfl, rfl⟩

theorem foldl_noteLookup (l : List Event) (s : AsmState n m) :
    SameTable s (l.foldl AsmState.noteLookup s) := by
  induction l generalizing s with
  | nil => exact refl s
  | cons e l ih => exact IsTrans.trans _ _ _ (noteLookup s e) (ih (s.noteLookup e))

/-- The operand of `RELOCATE_TABLE`. -/
theorem subtractOffset : Keeps (SameTable (n := n) (m := m)) AsmProgram.subtractOffset := by
  have hskip : Keeps (SameTable (n := n) (m := m)) AsmProgram.skipBlanks :=
    fun _ => of_symbols rfl rfl rfl rfl
  refine .bind hskip fun atEnd => .ite (.pure _) fun s => ?_
  have hfold := foldl_noteLookup
    (Sjasmplus.parseExpression (s.exprEnv false) s.flags s.lp).1.log s
  exact IsTrans.trans _ _ _ hfold (of_symbols rfl rfl rfl rfl)

end SameTable

/-! ### `refreshMaxTableCount` -/

namespace AsmState

/-- The symbol is a `DEFL` or a placeholder, so that it is due for an update at any time. -/
def CountReady (s : AsmState n m) : Prop :=
  ∀ label, s.symbols relocateCount = some label →
    label.traits.isDefl = true ∨ label.page = labelPageUndefined

theorem CountReady.insertable {s : AsmState n m} (h : s.CountReady) :
    s.Insertable relocateCount := by
  intro label hlabel
  unfold needsUpdate
  rcases h label hlabel with hdefl | hpage
  · simp [hdefl]
  · simp [hpage]

theorem CountReady.of_sameTable {s t : AsmState n m} (hs : s.CountReady) (h : SameTable s t) :
    t.CountReady := by
  intro label hlabel
  rcases hold : s.symbols relocateCount with _ | old
  · exact .inr (h.placeholder hold label hlabel)
  · rw [h.symbol old hold, Option.some.injEq] at hlabel
    exact hlabel ▸ hs old hold

/-- The number of offsets that a refresh finds. -/
def refreshedCount (s : AsmState n m) : Nat := max s.maxTableCount s.offsets.length

/-- The refresh writes the symbols. -/
def WritesCount (s : AsmState n m) : Prop := s.relocationType ≠ .off ∨ s.refreshedCount ≠ 0

instance (s : AsmState n m) : Decidable s.WritesCount := inferInstanceAs (Decidable (_ ∨ _))

end AsmState

/-- What `refreshMaxTableCount` does. -/
structure RefreshedTo (s t : AsmState n m) : Prop where
  toEmitState : t.toEmitState = s.toEmitState
  offsets : t.offsets = s.offsets
  offsetsPrevious : t.offsetsPrevious = s.offsetsPrevious
  maxTableCount : t.maxTableCount = s.refreshedCount
  ready : t.CountReady
  written : s.WritesCount →
    (t.find relocateCount).map (·.value) = some (BitVec.ofNat 32 s.refreshedCount)
  kept : ¬s.WritesCount → t.find relocateCount = s.find relocateCount

/-- A `DEFL` label that is due for an update is set. -/
theorem exec_tryInsert_defl (tp : Text) (val : Aint) {s : AsmState n m} (h : s.Insertable tp) :
    ∃ symbol, (tryInsert tp val { isDefl := true } labelPageUndefined).exec s
        = (some true, s.setSymbol tp symbol) ∧
      symbol.value = val ∧ symbol.page ≠ labelPageUndefined ∧ symbol.traits.isDefl = true := by
  have hpage := s.insertPage_ne val { isDefl := true } labelPageUndefined
  rw [tryInsert, exec_bind_of_some (exec_get s)]
  unfold AsmState.insert
  rcases hlabel : s.symbols tp with _ | label
  · exact ⟨_, rfl, rfl, hpage, rfl⟩
  · dsimp only
    rw [if_pos (h label hlabel)]
    exact ⟨_, rfl, rfl, hpage, rfl⟩

theorem exec_tryInsert_other {tp : Text} (val : Aint) (traits : Traits) (page : Page)
    (s : AsmState n m) {name : Text} (hne : name ≠ tp) :
    ∃ inserted t, (tryInsert tp val traits page).exec s = (some inserted, t) ∧
      t.symbols name = s.symbols name ∧ t.toEmitState = s.toEmitState ∧ t.offsets = s.offsets ∧
      t.offsetsPrevious = s.offsetsPrevious ∧ t.maxTableCount = s.maxTableCount := by
  rw [tryInsert, exec_bind_of_some (exec_get s)]
  rcases hinsert : s.insert tp val traits page with _ | t
  · exact ⟨false, s, rfl, rfl, rfl, rfl, rfl, rfl⟩
  · obtain ⟨symbol, rfl, -⟩ := insert_eq hinsert
    exact ⟨true, _, rfl, if_neg hne, rfl, rfl, rfl, rfl⟩

theorem refreshedTo_refreshMaxTableCount {s : AsmState n m} (hready : s.CountReady) :
    RefreshedTo s (refreshMaxTableCount.final s) := by
  set u : AsmState n m := { s with maxTableCount := s.refreshedCount } with hu
  rw [refreshMaxTableCount, final_bind_of_some (exec_modify _ s), final_bind_of_some (exec_get _)]
  change RefreshedTo s
    (Program.final (Program.when (u.relocationType ≠ .off ∨ u.maxTableCount ≠ 0) _) u)
  -- the symbol is written in a block, and behind one when there are offsets
  by_cases hwrites : s.WritesCount
  · have hwrites' : u.relocationType ≠ .off ∨ u.maxTableCount ≠ 0 := hwrites
    rw [Program.when, if_pos hwrites', final_bind_of_some (exec_modify _ _)]
    set v : AsmState n m := { u with flags := ⟨false, .off⟩ } with hv
    have hinsertable : v.Insertable relocateCount := hready.insertable
    obtain ⟨symbol, hexec, hvalue, hpage, hdefl⟩ := exec_tryInsert_defl relocateCount
      (BitVec.ofNat 32 s.refreshedCount) hinsertable
    obtain ⟨inserted, t, ht, hsymbols, hemit, hoffsets, hprevious, hcount⟩ :=
      exec_tryInsert_other (BitVec.ofNat 32 s.refreshedCount * 2) { isDefl := true }
        labelPageUndefined (v.setSymbol relocateCount symbol)
        (show relocateCount ≠ "relocate_size".toList by decide)
    have hsymbol : t.symbols relocateCount = some symbol :=
      hsymbols.trans (by simp [setSymbol])
    -- the size is inserted behind the count, and has another name
    have hfinal : t = Program.final (do
        let _ ← tryInsert relocateCount (BitVec.ofNat 32 s.refreshedCount) { isDefl := true }
          labelPageUndefined
        let _ ← tryInsert "relocate_size".toList (BitVec.ofNat 32 s.refreshedCount * 2)
          { isDefl := true } labelPageUndefined) v := by
      rw [final_bind_of_some hexec, final_bind_of_some ht]
      rfl
    refine hfinal ▸ ⟨hemit, hoffsets, hprevious, hcount, fun label hlabel => ?_, fun _ => ?_,
      fun h => absurd hwrites h⟩
    · rw [hsymbol, Option.some.injEq] at hlabel
      exact .inl (hlabel ▸ hdefl)
    · rw [find, hsymbol, Option.filter_some, if_pos (by simpa using hpage), Option.map_some, hvalue]
  · have hwrites' : ¬(u.relocationType ≠ .off ∨ u.maxTableCount ≠ 0) := hwrites
    rw [Program.when, if_neg hwrites']
    exact ⟨rfl, rfl, rfl, rfl, hready, fun h => absurd h hwrites, fun _ => rfl⟩

/-! ### Steps -/

/-- A statement that reaches `relocate.cpp` only by what it leaves in the flags of an expression. -/
structure TableBystander (n m : Nat) where
  program : AsmProgram n m Unit
  keeps : Keeps SameTable program

/-- What happens to the table. -/
inductive TableStep (n m : Nat)
  | start
  | finish
  | table
  | resolve (opcodeRelOffset : Option Int) (minType : Relocation.EType)
  | other (statement : TableBystander n m)

namespace TableStep

def program : TableStep n m → AsmProgram n m Unit
  | start => dirRELOCATE_START
  | finish => dirRELOCATE_END
  | table => dirRELOCATE_TABLE
  | resolve opcodeRelOffset minType => resolveRelocationAffected opcodeRelOffset minType
  | other statement => statement.program

/-- The step writes `relocate_count`. -/
def Refreshes (s : AsmState n m) : TableStep n m → Prop
  | start => s.relocationType = .off ∧ ∃ isHigh, (highKeyword.exec s).1 = some isHigh ∧
      ¬(s.alternativeOffset ≠ 0 ∧ s.alternativeOffset
        ≠ if isHigh then Relocation.alternativeOffsetHigh else Relocation.alternativeOffsetWord)
  | finish => s.relocationType ≠ .off ∧ s.pseudoORG ≠ .insideRelocate ∧ s.refreshedCount ≠ 0
  | table => (∃ subtractOffset, (AsmProgram.subtractOffset.exec s).1 = some (some subtractOffset)) ∧
      (AsmProgram.subtractOffset.final s).WritesCount
  | resolve _ _ | other _ => False

end TableStep

/-- What a step does to the table and to its symbol. -/
structure TableStepped (refreshes : Prop) (s t : AsmState n m) : Prop where
  offsets : s.offsets <+: t.offsets
  offsetsPrevious : t.offsetsPrevious = s.offsetsPrevious
  le_maxTableCount : s.maxTableCount ≤ t.maxTableCount
  maxTableCount_le : t.maxTableCount ≤ s.refreshedCount
  ready : t.CountReady
  written : refreshes →
    (t.find relocateCount).map (·.value) = some (BitVec.ofNat 32 s.refreshedCount)
  kept : ¬refreshes → t.find relocateCount = s.find relocateCount

namespace TableStepped

theorem of_sameTable {refreshes : Prop} {s t : AsmState n m} (hready : s.CountReady)
    (h : SameTable s t) (hrefreshes : ¬refreshes) : TableStepped refreshes s t where
  offsets := by rw [h.offsets]
  offsetsPrevious := h.offsetsPrevious
  le_maxTableCount := h.maxTableCount.ge
  maxTableCount_le := h.maxTableCount.le.trans (le_max_left _ _)
  ready := hready.of_sameTable h
  written h := absurd h hrefreshes
  kept _ := h.find_eq

/-- A refresh behind what leaves the table alone, with an emission that follows. -/
theorem of_refreshedTo {refreshes : Prop} {s u v w : AsmState n m} (hsame : SameTable s u)
    (h : RefreshedTo u v) (hwrites : refreshes ↔ u.WritesCount) (hemit : SameTable v w) :
    TableStepped refreshes s w := by
  have hcount : u.refreshedCount = s.refreshedCount := by
    rw [refreshedCount, refreshedCount, hsame.offsets, hsame.maxTableCount]
  have hmax : w.maxTableCount = s.refreshedCount :=
    hemit.maxTableCount.trans (h.maxTableCount.trans hcount)
  constructor
  · rw [hemit.offsets, h.offsets, hsame.offsets]
  · rw [hemit.offsetsPrevious, h.offsetsPrevious, hsame.offsetsPrevious]
  · rw [hmax]
    exact le_max_left _ _
  · exact hmax.le
  · exact h.ready.of_sameTable hemit
  · intro hrefreshes
    rw [hemit.find_eq, ← hcount]
    exact h.written (hwrites.mp hrefreshes)
  · intro hrefreshes
    rw [hemit.find_eq, h.kept fun hu => hrefreshes (hwrites.mpr hu), hsame.find_eq]

end TableStepped

/-- A message changes nothing of the table. -/
theorem sameTable_error {message : String} {badValueMessage : Option Text} {type : EStatus} :
    Keeps (SameTable (n := n) (m := m)) (error message badValueMessage type) :=
  fun _ => .of_symbols rfl rfl rfl rfl

theorem tableStepped_start {s : AsmState n m} (hready : s.CountReady) :
    TableStepped (TableStep.start.Refreshes s) s (dirRELOCATE_START.final s) := by
  obtain ⟨isHigh, u, hhigh, hu⟩ : ∃ isHigh u, (highKeyword (n := n) (m := m)).exec s
      = (some isHigh, u) ∧ u = { s with lp := u.lp } := ⟨_, _, rfl, rfl⟩
  -- the keyword moves the text alone
  have hsame : SameTable s u := by
    rw [hu]
    exact .of_symbols rfl rfl rfl rfl
  rw [dirRELOCATE_START, final_bind_of_some hhigh, final_bind_of_some (exec_get u)]
  have htype : u.relocationType = s.relocationType := by rw [hu]
  have halt : u.alternativeOffset = s.alternativeOffset := by rw [hu]
  have hfst : (highKeyword.exec s).1 = some isHigh := congrArg Prod.fst hhigh
  rw [htype, halt]
  by_cases hoff : s.relocationType = .off
  · rw [if_neg (not_not_intro hoff)]
    dsimp only
    -- all of the blocks of a source have the same mode
    by_cases hmode : s.alternativeOffset ≠ 0 ∧ s.alternativeOffset
        ≠ if isHigh then Relocation.alternativeOffsetHigh else Relocation.alternativeOffsetWord
    · rw [if_pos hmode]
      refine .of_sameTable hready (IsTrans.trans _ _ _ hsame (sameTable_error u)) ?_
      rintro ⟨-, isHigh', hhigh', haccepted⟩
      rw [hfst, Option.some.injEq] at hhigh'
      subst hhigh'
      exact haccepted hmode
    · -- the block is open when the table is refreshed
      rw [if_neg hmode, final_bind_of_some (exec_modify _ u)]
      set v : AsmState n m := { u with
        alternativeOffset := if isHigh then Relocation.alternativeOffsetHigh
          else Relocation.alternativeOffsetWord
        relocationType := if isHigh then .high else .regular } with hv
      have hsame' : SameTable s v :=
        IsTrans.trans _ _ _ hsame (.of_symbols rfl rfl rfl rfl)
      have hwrites : v.WritesCount := .inl (by cases isHigh <;> simp [hv])
      refine .of_refreshedTo hsame' (refreshedTo_refreshMaxTableCount (hready.of_sameTable hsame'))
        ⟨fun _ => hwrites, fun _ => ⟨hoff, isHigh, hfst, hmode⟩⟩ (refl _)
  · rw [if_pos hoff]
    exact .of_sameTable hready (IsTrans.trans _ _ _ hsame (sameTable_error u)) fun h => hoff h.1

theorem tableStepped_finish {s : AsmState n m} (hready : s.CountReady) :
    TableStepped (TableStep.finish.Refreshes s) s (dirRELOCATE_END.final s) := by
  rw [dirRELOCATE_END, final_bind_of_some (exec_get s)]
  -- an `END` without its start, and one inside of a displaced block, are errors
  split_ifs with hoff hinside
  · exact .of_sameTable hready (sameTable_error s) fun h => h.1 hoff
  · exact .of_sameTable hready (sameTable_error s) fun h => h.2.1 hinside
  · rw [final_bind_of_some (exec_modify _ s)]
    set v : AsmState n m := { s with relocationType := .off } with hv
    have hsame : SameTable s v := .of_symbols rfl rfl rfl rfl
    refine .of_refreshedTo hsame (refreshedTo_refreshMaxTableCount (hready.of_sameTable hsame))
      ⟨fun h => .inr h.2.2, fun h => ⟨hoff, hinside, ?_⟩⟩ (refl _)
    rcases h with htype | hcount
    · exact absurd rfl htype
    · exact hcount

/-! ### `RELOCATE_TABLE` -/

/-- The operand is read to its end. -/
theorem exec_subtractOffset (s : AsmState n m) :
    ∃ o, subtractOffset.exec s = (some o, subtractOffset.final s) := by
  obtain ⟨atEnd, t, ht⟩ : ∃ atEnd t, AsmProgram.skipBlanks.exec s = (some atEnd, t) := ⟨_, _, rfl⟩
  rw [final, subtractOffset, exec_bind_of_some ht]
  cases atEnd with
  | true => exact ⟨some 0, rfl⟩
  | false => exact ⟨_, rfl⟩

/-- A refresh always comes to its end. -/
theorem exec_refreshMaxTableCount (s : AsmState n m) :
    refreshMaxTableCount.exec s = (some (), refreshMaxTableCount.final s) := by
  -- inserting a label never fails, it only says whether it was inserted
  have hreturns : ∀ (tp : Text) (val : Aint) (traits : Traits) (page : Page) (s : AsmState n m),
      ∃ inserted t, (tryInsert tp val traits page).exec s = (some inserted, t) := by
    intro tp val traits page s
    rw [tryInsert, exec_bind_of_some (exec_get s)]
    cases s.insert tp val traits page with
    | none => exact ⟨false, s, rfl⟩
    | some t => exact ⟨true, t, rfl⟩
  refine exec_of_fst ?_
  rw [refreshMaxTableCount, exec_bind_of_some (exec_modify _ s), exec_bind_of_some (exec_get _)]
  unfold Program.when
  split_ifs
  · rw [exec_bind_of_some (exec_modify _ _)]
    dsimp only
    obtain ⟨inserted, t, ht⟩ := hreturns "relocate_count".toList _ _ _ _
    obtain ⟨inserted', t', ht'⟩ := hreturns "relocate_size".toList _ _ _ t
    rw [exec_bind_of_some ht, exec_bind_of_some ht']
    rfl
  · rfl

namespace AsmState

/-- `RELOCATE_TABLE` reads the table at `v`, to subtract the operand. -/
def ReadsTable (s : AsmState n m) (subtractOffset : Aint) (v : AsmState n m) : Prop :=
  (AsmProgram.subtractOffset.exec s).1 = some (some subtractOffset) ∧
    v = refreshMaxTableCount.final (AsmProgram.subtractOffset.final s)

/-- Every entry of the table is one of this pass or of the previous one. -/
def TableValid (s : AsmState n m) : Prop :=
  ∀ i < s.maxTableCount, i < s.offsets.length ∨ i < s.offsetsPrevious.length

/-- What a table reads is the sequence, each of its offsets minus the operand in 16 bits. -/
def TableComplete (sequence : List (BitVec 16)) (s : AsmState n m) : Prop :=
  ∀ subtractOffset v, s.ReadsTable subtractOffset v →
    (dirRELOCATE_TABLE.final s).toEmitState = v.toEmitState.emitWords
      (sequence.map fun offset => (offset - subtractOffset.setWidth 16).setWidth 32)

/-- `relocate_count`, if it is defined, is the length of the sequence. -/
def CountRight (sequence : List (BitVec 16)) (s : AsmState n m) : Prop :=
  ∀ count, (s.find relocateCount).map (·.value) = some count →
    count = BitVec.ofNat 32 sequence.length

end AsmState

/-- What the directive does once it has its operand. -/
theorem final_dirRELOCATE_TABLE {s v : AsmState n m} {subtract : Aint}
    (h : s.ReadsTable subtract v) : dirRELOCATE_TABLE.final s
      = { v with toEmitState := v.toEmitState.emitWords ((tableWords v).map (· - subtract)) } := by
  obtain ⟨hfst, rfl⟩ := h
  rw [dirRELOCATE_TABLE, final_bind_of_some (exec_of_fst hfst)]
  dsimp only
  rw [final_bind_of_some (exec_refreshMaxTableCount _), final_bind_of_some (exec_get _)]
  rfl

theorem sameTable_emitWords (s : AsmState n m) (words : List Aint) :
    SameTable s { s with toEmitState := s.toEmitState.emitWords words } :=
  .of_symbols rfl rfl rfl rfl

theorem tableStepped_table {s : AsmState n m} (hready : s.CountReady) :
    TableStepped (TableStep.table.Refreshes s) s (dirRELOCATE_TABLE.final s) := by
  obtain ⟨o, hexec⟩ := exec_subtractOffset s
  have hsame : SameTable s (subtractOffset.final s) := SameTable.subtractOffset s
  have hfst : (subtractOffset.exec s).1 = some o := congrArg Prod.fst hexec
  -- the value to subtract may be missing
  cases o with
  | none =>
    rw [dirRELOCATE_TABLE, final_bind_of_some hexec]
    refine .of_sameTable hready (IsTrans.trans _ _ _ hsame (sameTable_error _)) ?_
    rintro ⟨⟨subtract, hsome⟩, -⟩
    rw [hfst] at hsome
    simp at hsome
  | some subtract =>
    rw [final_dirRELOCATE_TABLE ⟨hfst, rfl⟩]
    exact .of_refreshedTo hsame (refreshedTo_refreshMaxTableCount (hready.of_sameTable hsame))
      ⟨fun h => h.2, fun h => ⟨⟨subtract, hfst⟩, h⟩⟩ (sameTable_emitWords _ _)

/-- Recording an offset. -/
theorem tableStepped_resolve {s : AsmState n m} (hready : s.CountReady)
    (opcodeRelOffset : Option Int) (minType : Relocation.EType) :
    TableStepped False s ((resolveRelocationAffected opcodeRelOffset minType).final s) := by
  have hflags : ∀ flags : Relocation.Flags, SameTable s { s with flags := flags } :=
    fun _ => .of_symbols rfl rfl rfl rfl
  rw [resolveRelocationAffected, final_bind_of_some (exec_get s)]
  unfold Program.when
  by_cases haffected : minType.toNat ≤ s.relocationType.toNat ∧ s.flags.isResultAffected
  · rw [if_pos haffected, final_bind_of_some (exec_modify _ s)]
    -- the offset is recorded only when the word itself moves
    by_cases hmin : minType.toNat ≤ s.flags.deltaType.toNat
    · rw [if_pos hmin]
      cases opcodeRelOffset with
      | none => exact .of_sameTable hready (hflags _) not_false
      | some opcodeRelOffset =>
        exact ⟨List.prefix_append _ _, rfl, le_rfl, le_max_left _ _, hready, False.elim,
          fun _ => rfl⟩
    · rw [if_neg hmin]
      exact .of_sameTable hready (.of_symbols rfl rfl rfl rfl) not_false
  · rw [if_neg haffected]
    exact .of_sameTable hready (refl s) not_false

/-- **The step lemma.** -/
theorem TableStep.stepped (step : TableStep n m) {s : AsmState n m} (hready : s.CountReady) :
    TableStepped (step.Refreshes s) s (step.program.final s) := by
  cases step with
  | start => exact tableStepped_start hready
  | finish => exact tableStepped_finish hready
  | table => exact tableStepped_table hready
  | resolve opcodeRelOffset minType => exact tableStepped_resolve hready opcodeRelOffset minType
  | other statement => exact .of_sameTable hready (statement.keeps s) not_false

/-! ### A complete table -/

theorem getLsbD_255 : ∀ i < 32, (0xFF : Aint).getLsbD i = decide (i < 8) := by decide

/-- `EmitWord` takes the low 16 bits. -/
theorem emitWord_setWidth (s : EmitState n m) (word : Aint) :
    s.emitWord ((word.setWidth 16).setWidth 32) = s.emitWord word := by
  -- the two bytes are among the low 16 bits
  have hlow : (word.setWidth 16).setWidth 32 &&& 0xFF = word &&& 0xFF := by
    refine BitVec.eq_of_getLsbD_eq fun i hi => ?_
    rw [BitVec.getLsbD_and, BitVec.getLsbD_and, getLsbD_255 i hi, BitVec.getLsbD_setWidth,
      BitVec.getLsbD_setWidth]
    by_cases h : i < 8
    · simp [hi, show i < 16 by omega]
    · simp [h]
  have hhigh : ((word.setWidth 16).setWidth 32).sshiftRight 8 &&& 0xFF
      = word.sshiftRight 8 &&& 0xFF := by
    refine BitVec.eq_of_getLsbD_eq fun i hi => ?_
    rw [BitVec.getLsbD_and, BitVec.getLsbD_and, getLsbD_255 i hi, BitVec.getLsbD_sshiftRight,
      BitVec.getLsbD_sshiftRight]
    by_cases h : i < 8
    · simp [show 8 + i < 16 by omega, show 8 + i < 32 by omega]
    · simp [h]
  rw [EmitState.emitWord, EmitState.emitWord, hlow, hhigh]

/-- Subtracting in 32 bits is subtracting in 16 bits for what is emitted. -/
theorem emitWords_sub (s : EmitState n m) (sequence : List (BitVec 16)) (subtract : Aint) :
    s.emitWords ((sequence.map fun offset => offset.setWidth 32).map (· - subtract))
      = s.emitWords (sequence.map fun offset => (offset - subtract.setWidth 16).setWidth 32) := by
  unfold EmitState.emitWords
  induction sequence generalizing s with
  | nil => rfl
  | cons offset sequence ih =>
    have hword : (offset.setWidth 32 - subtract).setWidth 16 = offset - subtract.setWidth 16 := by
      rw [BitVec.sub_eq_add_neg, BitVec.setWidth_add _ _ (by decide),
        BitVec.setWidth_neg_of_le (by decide), BitVec.setWidth_setWidth_of_le _ (by decide),
        BitVec.setWidth_eq, ← BitVec.sub_eq_add_neg]
    rw [List.map_cons, List.map_cons, List.map_cons, List.foldl_cons, List.foldl_cons, ih,
      ← hword, emitWord_setWidth]

/-- A table whose offsets are all of one sequence. -/
theorem tableWords_eq {s : AsmState n m} {sequence : List (BitVec 16)}
    (hoffsets : s.offsets <+: sequence) (hprevious : s.offsetsPrevious = sequence)
    (hcount : s.maxTableCount = sequence.length) :
    tableWords s = sequence.map fun offset => offset.setWidth 32 := by
  refine List.ext_getElem (by simp [tableWords, hcount]) fun i hi hi' => ?_
  have hlt : i < sequence.length := by simpa using hi'
  simp only [tableWords, List.getElem_map, List.getElem_range, hprevious]
  congr 1
  by_cases h : i < s.offsets.length
  · rw [List.getD_eq_getElem?_getD, List.getElem?_eq_getElem h, Option.getD_some,
      hoffsets.getElem h]
  · rw [List.getD_eq_getElem?_getD, List.getElem?_eq_none (by omega), Option.getD_none,
      List.getD_eq_getElem?_getD, List.getElem?_eq_getElem hlt, Option.getD_some]

/-! ### Passes -/

/-- A pass from its first state on. -/
inductive PassRun {k l : Nat} (first : AsmState k l) : {n m : Nat} → AsmState n m → Type
  | nil : PassRun first first
  | device {n m n' m' : Nat} {s : AsmState n m} (device : Option (Device n' m'))
      (currentSlot : Option (Fin n')) : PassRun first s → PassRun first (s.withDevice device currentSlot)
  | step {n m : Nat} {s : AsmState n m} (step : TableStep n m) :
      PassRun first s → PassRun first (step.program.final s)

/-- A directive of the pass has written `relocate_count`. -/
def PassRun.Refreshed {k l : Nat} {first : AsmState k l} :
    {n m : Nat} → {s : AsmState n m} → PassRun first s → Prop
  | _, _, _, .nil => False
  | _, _, _, .device _ _ run => run.Refreshed
  | _, _, _, .step (s := s) directive run => run.Refreshed ∨ directive.Refreshes s

/-- The states of all passes. -/
inductive Collected : {n m : Nat} → AsmState n m → Prop
  | start (n m : Nat) : Collected (AsmState.start n m)
  | pass {n m : Nat} {s : AsmState n m} : Collected s → Collected s.initPass
  | device {n m n' m' : Nat} {s : AsmState n m} (device : Option (Device n' m'))
      (currentSlot : Option (Fin n')) : Collected s → Collected (s.withDevice device currentSlot)
  | step {n m : Nat} {s : AsmState n m} (step : TableStep n m) :
      Collected s → Collected (step.program.final s)

/-- The symbol is due for an update at any time, and no count exceeds what the passes have. -/
theorem Collected.invariant {s : AsmState n m} (h : Collected s) :
    s.CountReady ∧ s.maxTableCount ≤ max s.offsets.length s.offsetsPrevious.length := by
  -- by induction on what was collected: a step counts no more than it has
  induction h with
  | start n m => exact ⟨fun label hlabel => by simp [AsmState.start] at hlabel, Nat.zero_le _⟩
  | pass _ ih => exact ⟨ih.1, le_max_right _ _⟩
  | device _ _ _ ih => exact ih
  | @step n m s step _ ih =>
    obtain ⟨hready, hle⟩ := ih
    have hstep := step.stepped hready
    have hoffsets := hstep.offsets.length_le
    have hcount := hstep.maxTableCount_le
    refine ⟨hstep.ready, ?_⟩
    rw [hstep.offsetsPrevious]
    rw [refreshedCount] at hcount
    omega

/-- **Every entry that a table reads is there**, in every pass. -/
theorem Collected.tableValid {s : AsmState n m} (h : Collected s) {subtract : Aint}
    {v : AsmState n m} (hreads : s.ReadsTable subtract v) : v.TableValid := by
  obtain ⟨hready, hle⟩ := h.invariant
  obtain ⟨-, rfl⟩ := hreads
  have hsame : SameTable s (subtractOffset.final s) := SameTable.subtractOffset s
  have hrefreshed := refreshedTo_refreshMaxTableCount (hready.of_sameTable hsame)
  intro i hi
  rw [hrefreshed.maxTableCount, refreshedCount, hsame.maxTableCount, hsame.offsets] at hi
  rw [hrefreshed.offsets, hrefreshed.offsetsPrevious, hsame.offsets, hsame.offsetsPrevious]
  omega

/-- What a pass does to the table: offsets are added, and the counts grow with them. -/
structure Collects {k l : Nat} (first : AsmState k l) (s : AsmState n m) : Prop where
  offsets : first.offsets <+: s.offsets
  offsetsPrevious : s.offsetsPrevious = first.offsetsPrevious
  le_maxTableCount : first.maxTableCount ≤ s.maxTableCount
  maxTableCount_le : s.maxTableCount ≤ max first.maxTableCount s.offsets.length
  ready : s.CountReady

/-- **The run lemma** of a pass. -/
theorem PassRun.collects {k l : Nat} {first : AsmState k l} (hready : first.CountReady)
    {s : AsmState n m} (run : PassRun first s) : Collects first s := by
  -- by induction on the run of the pass
  induction run with
  | nil => exact ⟨List.prefix_refl _, rfl, le_rfl, le_max_left _ _, hready⟩
  | device _ _ _ ih => exact ⟨ih.offsets, ih.offsetsPrevious, ih.le_maxTableCount,
      ih.maxTableCount_le, ih.ready⟩
  | @step n m s directive _ ih =>
    have hstep := directive.stepped ih.ready
    have hlength := hstep.offsets.length_le
    have hcount := hstep.maxTableCount_le
    have hbound := ih.maxTableCount_le
    rw [refreshedCount] at hcount
    refine ⟨ih.offsets.trans hstep.offsets, hstep.offsetsPrevious.trans ih.offsetsPrevious,
      ih.le_maxTableCount.trans hstep.le_maxTableCount, ?_, hstep.ready⟩
    omega

/-- In a pass whose offsets are part of the sequence of the pass before, the symbol is right once a
directive has written it, and otherwise it is as it was. -/
theorem PassRun.countRight_iff {k l : Nat} {first : AsmState k l} {sequence : List (BitVec 16)}
    (hready : first.CountReady) (hcount : first.maxTableCount = sequence.length)
    {s : AsmState n m} (run : PassRun first s) (hpart : s.offsets <+: sequence) :
    s.CountRight sequence ↔ run.Refreshed ∨ first.CountRight sequence := by
  -- by induction on the run: the last directive writes the symbol, or it leaves it
  induction run with
  | nil => exact ⟨.inr, fun h => h.resolve_left not_false⟩
  | device _ _ _ ih => exact ih hpart
  | @step n m s directive run ih =>
    have hcollects := run.collects hready
    have hstep := directive.stepped hcollects.ready
    have hbefore := hstep.offsets.trans hpart
    have hlength := hbefore.length_le
    have hbound := hcollects.maxTableCount_le
    have hle := hcollects.le_maxTableCount
    -- the offsets are a part of the sequence, whose length the pass before has counted
    have hrefreshed : s.refreshedCount = sequence.length := by
      rw [refreshedCount]
      omega
    show _ ↔ (run.Refreshed ∨ directive.Refreshes s) ∨ _
    by_cases hrefreshes : directive.Refreshes s
    · -- the directive writes the length of the sequence
      have hwritten := hstep.written hrefreshes
      rw [hrefreshed] at hwritten
      refine ⟨fun _ => .inl (.inr hrefreshes), fun _ count hcount => ?_⟩
      rw [hwritten, Option.some.injEq] at hcount
      exact hcount.symm
    · have hkept : (directive.program.final s).CountRight sequence ↔ s.CountRight sequence := by
        rw [CountRight, CountRight, hstep.kept hrefreshes]
      rw [hkept, ih hbefore]
      simp only [hrefreshes, or_false]

/-- **Every table of such a pass is the complete sequence.** -/
theorem PassRun.tableComplete {k l : Nat} {first : AsmState k l} {sequence : List (BitVec 16)}
    (hready : first.CountReady) (hcount : first.maxTableCount = sequence.length)
    (hprevious : first.offsetsPrevious = sequence)
    {s : AsmState n m} (run : PassRun first s) (hpart : s.offsets <+: sequence) :
    s.TableComplete sequence := by
  intro subtract v hreads
  have hcollects := run.collects hready
  have hsame : SameTable s (subtractOffset.final s) := SameTable.subtractOffset s
  have hrefreshed := refreshedTo_refreshMaxTableCount (hcollects.ready.of_sameTable hsame)
  rw [final_dirRELOCATE_TABLE hreads]
  obtain ⟨-, rfl⟩ := hreads
  have hoffsets := hrefreshed.offsets.trans hsame.offsets
  have hlength := hpart.length_le
  have hbound := hcollects.maxTableCount_le
  have hle := hcollects.le_maxTableCount
  set v := refreshMaxTableCount.final (subtractOffset.final s) with hv
  have hpart' : v.offsets <+: sequence := by rwa [hoffsets]
  have hprevious' : v.offsetsPrevious = sequence := by
    rw [hrefreshed.offsetsPrevious, hsame.offsetsPrevious, hcollects.offsetsPrevious, hprevious]
  -- the count is that of the pass before, and so the table has the rest of its offsets
  have hcount' : v.maxTableCount = sequence.length := by
    rw [hrefreshed.maxTableCount, refreshedCount, hsame.maxTableCount, hsame.offsets]
    omega
  have hwords := tableWords_eq hpart' hprevious' hcount'
  dsimp only
  rw [hwords, emitWords_sub]

/-- **The relocation table.**  A table never reads what is not there, and in a pass that collects the
offsets of the pass before every table is complete and `relocate_count` is right, exactly when a
directive of the pass has written the symbol, or the pass before has left it right. -/
theorem relocationTable_iff {k l n' m' : Nat} {previous : AsmState k l} (hprevious : Collected previous)
    {s : AsmState n m} (run : PassRun previous.initPass s) {last : AsmState n' m'}
    (rest : PassRun s last) (hsame : last.offsets = previous.offsets) :
    ((∀ {n m : Nat} {u v : AsmState n m} {subtract : Aint}, Collected u →
        u.ReadsTable subtract v → v.TableValid) ∧
      s.TableComplete previous.offsets ∧ s.CountRight previous.offsets) ↔
    run.Refreshed ∨ previous.initPass.CountRight previous.offsets := by
  have hready : previous.initPass.CountReady := hprevious.invariant.1
  -- the offsets of a part of the pass are a prefix of all of them
  have hpart : s.offsets <+: previous.offsets :=
    hsame ▸ (rest.collects (run.collects hready).ready).offsets
  constructor
  · rintro ⟨-, -, hright⟩
    exact (run.countRight_iff hready rfl hpart).mp hright
  · intro h
    exact ⟨fun hu hreads => hu.tableValid hreads, run.tableComplete hready rfl rfl hpart,
      (run.countRight_iff hready rfl hpart).mpr h⟩

/-! ### An example -/

namespace TableBystander

/-- An expression of a statement. -/
def expression (text : Text) : TableBystander n m where
  program := do
    modify fun s => { s with lp := text }
    let _ ← parseExpressionNoSyntaxError
  keeps := by
    have hparse : Keeps (SameTable (n := n) (m := m)) parseExpressionNoSyntaxError := fun s =>
      IsTrans.trans _ _ _ (SameTable.foldl_noteLookup
        (Sjasmplus.parseExpression (s.exprEnv false) s.flags s.lp).1.log s)
        (.of_symbols rfl rfl rfl rfl)
    exact .bind (fun _ => .of_symbols rfl rfl rfl rfl) fun _ => .bind hparse fun _ => .pure _

/-- A label for the current address. -/
def label (name : Text) (hne : relocateCount ≠ name) : TableBystander n m where
  program := do
    let _ ← tryInsert name (BitVec.ofInt 32 (← get).curAddress) {} labelPageUndefined
  keeps := by
    refine .get_bind fun t => .bind (fun s => ?_) fun _ => .pure _
    obtain ⟨inserted, u, hu, hsymbols, -, hoffsets, hprevious, hcount⟩ := exec_tryInsert_other
      (BitVec.ofInt 32 t.curAddress) {} labelPageUndefined s hne
    rw [final, hu]
    refine ⟨hoffsets, hprevious, hcount, fun label h => hsymbols.trans h, fun hnone label h => ?_⟩
    rw [hsymbols, hnone] at h
    exact absurd h (by simp)

/-- A word in the machine code. -/
def word (word : Aint) : TableBystander n m where
  program := emit (·.emitWord word)
  keeps := fun _ => .of_symbols rfl rfl rfl rfl

end TableBystander

/-- Steps one after the other. -/
def runTableSteps (s : AsmState n m) (steps : List (TableStep n m)) : AsmState n m :=
  steps.foldl (fun s step => step.program.final s) s

def PassRun.runSteps {k l : Nat} {first : AsmState k l} :
    {s : AsmState n m} → PassRun first s → (steps : List (TableStep n m)) →
      PassRun first (runTableSteps s steps)
  | _, run, [] => run
  | _, run, directive :: steps => (run.step directive).runSteps steps

theorem Collected.runSteps {s : AsmState n m} (h : Collected s) (steps : List (TableStep n m)) :
    Collected (runTableSteps s steps) := by
  induction steps generalizing s with
  | nil => exact h
  | cons directive steps ih => exact ih (h.step directive)

/-- A block with `a: dw a-f` and `f:` behind it. -/
def exampleBlockSteps : List (TableStep 0 0) :=
  [.start, .other (.label ['a'] (by decide)), .other (.expression "a-f".toList),
    .resolve (some 0) .regular, .other (.word 0), .other (.label ['f'] (by decide)), .finish]

/-- The end of each pass over the block. -/
def exampleTablePass : Nat → AsmState 0 0
  | 0 => AsmState.start 0 0
  | k + 1 => runTableSteps (exampleTablePass k).initPass exampleBlockSteps

theorem collected_exampleTablePass (k : Nat) : Collected (exampleTablePass k) := by
  induction k with
  | zero => exact .start 0 0
  | succ k ih => exact ih.pass.runSteps exampleBlockSteps

/-- In front of the block in the last pass. -/
theorem relocationTable_exampleTablePass :
    ((∀ {n m : Nat} {u v : AsmState n m} {subtract : Aint}, Collected u →
        u.ReadsTable subtract v → v.TableValid) ∧
      (exampleTablePass 2).initPass.TableComplete (exampleTablePass 2).offsets ∧
      (exampleTablePass 2).initPass.CountRight (exampleTablePass 2).offsets) ↔
    (PassRun.nil : PassRun (exampleTablePass 2).initPass (exampleTablePass 2).initPass).Refreshed ∨
      (exampleTablePass 2).initPass.CountRight (exampleTablePass 2).offsets :=
  relocationTable_iff (collected_exampleTablePass 2) .nil (PassRun.nil.runSteps exampleBlockSteps)
    (by decide +kernel)

/-- There `relocate_count` is 1 as in the first pass, which did not know `f` at `a-f`; the table has
no entry in the passes behind it. -/
theorem not_relocationTable_exampleTablePass :
    ¬∀ previous s last : AsmState 0 0, Collected previous → PassRun previous.initPass s →
      PassRun s last → last.offsets = previous.offsets → s.CountRight previous.offsets := by
  intro h
  have hright := h (exampleTablePass 2) (exampleTablePass 2).initPass (exampleTablePass 3)
    (collected_exampleTablePass 2) .nil (PassRun.nil.runSteps exampleBlockSteps) (by decide +kernel)
  have hcount := hright 1 (by decide +kernel)
  have hempty : (exampleTablePass 2).offsets = [] := by decide +kernel
  rw [hempty] at hcount
  exact absurd hcount (by decide)

end Sjasmplus
