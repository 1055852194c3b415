import Sjasmplus.Runs

/-!
# The relocation class of the current address

Four pieces of code decide whether the current address follows the load address: the one that inserts
a label of a line, the one that makes a temporary label, the one that inserts the labels of an
instance of a structure, and `$` in an expression.  The first and the last look at the kind of
displacement, the other two do not, so the four agree exactly as long as no displacement is open that
started inside the relocation block (`addressClass_iff`).  In the last pass labels keep the class
that they got in the pass before.
-/

namespace Sjasmplus

open Parsing ParseFn Program AsmState AsmProgram

variable {n m : Nat}

/-! ### The class of an expression -/

namespace AsmState

/-- The class of the expression at `p`: off outside of relocation blocks and where there is no
value. -/
def expressionClass (s : AsmState n m) (p : Text) : Relocation.EType :=
  if s.relocationType = .off then .off
  else (parseExpression (s.exprEnv false) ⟨false, .off⟩ p).2.deltaType

/-- The class that the current address has for a label of a structure. -/
def blockClass (s : AsmState n m) : Relocation.EType :=
  if s.relocationType ≠ .off then .regular else .off

end AsmState

/-- At the end of the text every level of the expression grammar stops. -/
theorem ladder_at_end {unair : Reader Aint} {p : Text} {v : Aint}
    (h : unair p = ⟨some v, [], []⟩) (k : Nat) :
    Parsing.ladder unair levelOper levelApply k p = ⟨some v, [], []⟩ := by
  induction k with
  | zero => exact h
  | succ k ih =>
    rw [ladder, chainLeft, bind_silent ih]
    exact chainLeftRest_stop (levelOper_laws k) v (levelOper_laws k).atEnd

/-- The value of `$`. -/
theorem parseExpressionEntry_dollar (env : ExprEnv) :
    parseExpressionEntry env ['$'] = ⟨some (env.curAddress +
      if env.relocationType ≠ .off ∧ env.areLabelsOffset ∧ env.pseudoORG ≠ .insideRelocate then
        env.alternativeOffset else 0), [], []⟩ := by
  have hkw : ∀ kw ∈ operatorWords, cmphstr ['$'] kw true = none := by decide
  -- `$` alone is none of the longer operands that start with it
  have hoperand : parseOperand env ['$'] = ⟨some (env.curAddress +
      if env.relocationType ≠ .off ∧ env.areLabelsOffset ∧ env.pseudoORG ≠ .insideRelocate then
        env.alternativeOffset else 0), [], []⟩ := by
    rw [parseOperand, bind_silent (peek_apply _)]
    simp only [show cur ['$'] = '$' from rfl,
      show isLabelStart ['$'] = false from rfl, show dollarLabel 4 ['$'] = false from rfl,
      show dollarLabel 3 ['$'] = false from rfl, show (cur (['$'] : Text).tail).isAlphanum = false from rfl,
      show ¬(['$'] : Text).take 3 = ['$', '$', '$'] by decide,
      show ¬(['$'] : Text).take 2 = ['$', '$'] by decide, show ¬ '$' = '#' by decide,
      show ¬ '$' = '%' by decide, show ¬ '$' = '?' by decide, Bool.false_eq_true, false_and, and_false,
      or_self, if_false, if_true]
    rfl
  -- no operator stands in front of it, and none behind
  have hunair := hoperand
  rw [← parseExpPrim_operand parseExpressionEntry env rfl (by decide)
    (fun h => absurd h (by decide)), ← parseExpUnair_prim env rfl hkw (by decide)] at hunair
  rw [parseExpressionEntry, parseExpLogOr_eq_ladder]
  exact ladder_at_end hunair 11

/-- The class of `$`: it is relocatable inside a block, unless in a displacement that started
there. -/
theorem expressionClass_dollar {s : AsmState n m} (hs : ModesAgree s) :
    s.expressionClass ['$']
      = if s.relocationType ≠ .off ∧ s.pseudoORG ≠ .insideRelocate then .regular else .off := by
  unfold expressionClass parseExpression
  by_cases hoff : s.relocationType = .off
  · simp only [hoff, ne_eq, not_true_eq_false, false_and, if_true, if_false]
  · simp only [hoff, parseExpressionEntry_dollar, exprEnv, ne_eq, not_false_eq_true, true_and,
      Bool.false_eq_true, false_and, if_false, Outcome.after_mk]
    -- the two evaluations differ by the alternative offset or not at all
    have hword : s.relocationType = .regular ∨ s.relocationType = .high := by
      cases h : s.relocationType <;> simp_all
    by_cases hinside : s.pseudoORG = .insideRelocate
    · rcases hword with h | h
      · simp [relocationDelta, hinside, h, hs.regular h, Relocation.alternativeOffsetWord]
      · simp [relocationDelta, hinside, h, hs.high h, Relocation.alternativeOffsetHigh]
    · simp [relocationDelta, hinside]

/-! ### Classes in the symbol table -/

namespace AsmState

/-- The class that the symbol table has for a name. -/
def classOf (s : AsmState n m) (name : Text) : Option Relocation.EType :=
  (s.symbols name).map (·.isRelocatable)

/-- The name is new or due for an update, so that `CLabelTable::Insert` writes it. -/
def Insertable (s : AsmState n m) (name : Text) : Prop :=
  ∀ label, s.symbols name = some label → s.needsUpdate label = true

/-- `Insert` writes what is new or due for an update, and nothing else. -/
theorem insert_eq_none_iff {s : AsmState n m} {name : Text} {value : Aint} {traits : Traits}
    {page : Page} : s.insert name value traits page = none ↔ ¬s.Insertable name := by
  unfold insert Insertable
  rcases hlabel : s.symbols name with _ | label
  · simp
  · simp

/-- The name has the class, or it will get it in this pass. -/
def Ready (name : Text) (c : Relocation.EType) (s : AsmState n m) : Prop :=
  s.classOf name = some c ∨ (s.pass ≠ lastPass ∧ s.Insertable name)

theorem classOf_setSymbol (s : AsmState n m) (nname name : Text) (symbol : Symbol) :
    (s.setSymbol nname symbol).classOf name
      = if name = nname then some symbol.isRelocatable else s.classOf name := by
  unfold classOf setSymbol
  dsimp only
  split_ifs <;> rfl

/-- A label that is inserted with the class is ready for it then. -/
theorem ready_insert {s t : AsmState n m} {name nname : Text} {c : Relocation.EType} {value : Aint}
    {traits : Traits} {page : Page} (h : s.insert nname value traits page = some t)
    (htraits : traits.isUndefined = false) (hclass : s.insertDeltaType traits = c)
    (hready : Ready name c s) : Ready name c t ∧ (name = nname → t.classOf name = some c) := by
  obtain ⟨symbol, rfl, hsymbol, -⟩ := insert_eq h
  rw [htraits, Bool.and_false, if_neg Bool.false_ne_true, hclass] at hsymbol
  by_cases heq : name = nname
  · have hc : (s.setSymbol nname symbol).classOf name = some c := by
      rw [classOf_setSymbol, if_pos heq, hsymbol]
    exact ⟨.inl hc, fun _ => hc⟩
  · refine ⟨?_, fun hname => absurd hname heq⟩
    rcases hready with hc | ⟨hpass, hinsertable⟩
    · exact .inl (by rw [classOf_setSymbol, if_neg heq, hc])
    · refine .inr ⟨hpass, fun label hlabel => ?_⟩
      have hlabel : (if name = nname then some symbol else s.symbols name) = some label := hlabel
      rw [if_neg heq] at hlabel
      exact hinsertable label hlabel

/-- A duplicate that is ready has its class already. -/
theorem classOf_of_insert_none {s : AsmState n m} {name : Text} {c : Relocation.EType} {value : Aint}
    {traits : Traits} {page : Page} (h : s.insert name value traits page = none)
    (hready : Ready name c s) : s.classOf name = some c := by
  rcases hready with hc | ⟨-, hinsertable⟩
  · exact hc
  · unfold insert at h
    rcases hlabel : s.symbols name with _ | label
    · simp [hlabel] at h
    · simp [hlabel, hinsertable label hlabel] at h

/-- Evaluating keeps classes. -/
theorem classOf_of_evaluates {s t : AsmState n m} (h : Evaluates s t) {name : Text}
    {c : Relocation.EType} (hc : s.classOf name = some c) : t.classOf name = some c := by
  obtain ⟨symbol, hsymbol, hc⟩ := Option.map_eq_some_iff.mp hc
  rw [classOf, h.symbols name symbol hsymbol, Option.map_some, hc]

/-- Evaluating keeps a name insertable. -/
theorem insertable_of_evaluates {s t : AsmState n m} (h : Evaluates s t) {name : Text}
    (hinsertable : s.Insertable name) : t.Insertable name := by
  intro label hlabel
  rcases hold : s.symbols name with _ | old
  · -- only a placeholder may be new
    simp [needsUpdate, h.placeholders name label hold hlabel]
  · rw [h.symbols name old hold] at hlabel
    rw [show t.needsUpdate label = s.needsUpdate label by simp only [needsUpdate, h.mode.pass]]
    exact hinsertable label (hold.trans hlabel)

end AsmState

/-! ### The labels of an instance -/

/-- What the labels of an instance keep: the modes, a class that a name has already, and that a name
can be inserted or has the class. -/
structure KeepsReady (name : Text) (c : Relocation.EType) (s t : AsmState n m) : Prop where
  mode : SameMode s t
  class' : s.classOf name = some c → t.classOf name = some c
  ready : Ready name c s → Ready name c t

namespace KeepsReady

variable {name : Text} {c : Relocation.EType}

instance : Std.Refl (KeepsReady (n := n) (m := m) name c) := ⟨fun s => ⟨.refl s, id, id⟩⟩

instance : IsTrans (AsmState n m) (KeepsReady name c) :=
  ⟨fun _ _ _ h h' => ⟨h.mode.trans h'.mode, h'.class' ∘ h.class', h'.ready ∘ h.ready⟩⟩

theorem of_evaluates {α : Type} {p : AsmProgram n m α} (hp : Keeps Evaluates p) :
    Keeps (KeepsReady name c) p := by
  refine .mono (fun s t h => ⟨h.sameMode, classOf_of_evaluates h, ?_⟩) hp
  rintro (hc | ⟨hpass, hinsertable⟩)
  · exact .inl (classOf_of_evaluates h hc)
  · exact .inr ⟨h.mode.pass ▸ hpass, insertable_of_evaluates h hinsertable⟩

/-- Entries that keep their class and whether they are due for an update. -/
theorem of_entry {s t : AsmState n m} (hmode : SameMode s t)
    (hentry : ∀ name, t.symbols name = s.symbols name ∨ ∃ old new, s.symbols name = some old ∧
      t.symbols name = some new ∧ new.isRelocatable = old.isRelocatable ∧
      s.needsUpdate new = s.needsUpdate old) : KeepsReady name c s t := by
  have hclass : s.classOf name = some c → t.classOf name = some c := by
    intro hc
    -- the entry of the name is the same, or has the same class and is due in the same passes
    rcases hentry name with hsame | ⟨old, new, hold, hnew, hclass, -⟩
    · rwa [classOf, hsame]
    · rw [classOf, hold, Option.map_some] at hc
      rw [classOf, hnew, Option.map_some, hclass, hc]
  refine ⟨hmode, hclass, ?_⟩
  rintro (hc | ⟨hpass, hinsertable⟩)
  · exact .inl (hclass hc)
  · refine .inr ⟨hmode.pass ▸ hpass, fun label hlabel => ?_⟩
    rw [show t.needsUpdate label = s.needsUpdate label by simp only [needsUpdate, hmode.pass]]
    rcases hentry name with hsame | ⟨old, new, hold, hnew, -, hneeds⟩
    · exact hinsertable label (hsame ▸ hlabel)
    · rw [hnew] at hlabel
      rw [← Option.some.inj hlabel, hneeds]
      exact hinsertable old hold

/-- Programs that do not touch the symbols. -/
theorem of_symbols {s t : AsmState n m} (hmode : SameMode s t) (hsymbols : t.symbols = s.symbols) :
    KeepsReady name c s t :=
  of_entry hmode fun name => .inl (congrFun hsymbols name)

theorem validateLabel {naam : Text} {setNameSpace ignoreCharAfter : Bool} :
    Keeps (KeepsReady (n := n) (m := m) name c)
      (AsmProgram.validateLabel naam setNameSpace ignoreCharAfter) := by
  have hmain : ∀ label, Keeps (KeepsReady (n := n) (m := m) name c)
      (modify (setMainLabel setNameSpace naam label)) := by
    intro label s
    cases label with
    | none => exact refl s
    | some label =>
      show KeepsReady name c s (if setNameSpace then _ else _)
      split_ifs
      · exact of_symbols ⟨rfl, rfl, rfl, rfl⟩ rfl
      · exact refl s
  exact .get_bind fun t => .bind (of_evaluates evaluates_report) fun _ => .bind (hmain _) fun _ =>
    .pure _

theorem setSize {nname : Text} {size : Aint} :
    Keeps (KeepsReady (n := n) (m := m) name c) (AsmProgram.setSize nname size) := by
  intro s
  rcases final_setSize nname size s with ⟨-, hs⟩ | ⟨label, hfind, hs⟩ <;> rw [hs]
  · exact refl s
  · refine of_entry ⟨rfl, rfl, rfl, rfl⟩ fun other => ?_
    by_cases heq : other = nname
    · obtain ⟨hsymbol, -⟩ := Option.filter_eq_some_iff.mp hfind
      exact .inr ⟨label, { label with size := size }, heq ▸ hsymbol, if_pos heq, rfl, rfl⟩
    · exact .inl (if_neg heq)

theorem labelValue {nname : Text} :
    Keeps (KeepsReady (n := n) (m := m) name c) (AsmProgram.labelValue nname) :=
  .get_bind fun _ => .bind (of_evaluates (evaluates_modify fun _ => rfl)) fun _ => .get_bind fun _ =>
    .bind (of_evaluates evaluates_read) fun _ => .bind (of_evaluates (evaluates_modify fun _ => rfl)) fun _ =>
      .pure _

/-- Inserting a label of the class. -/
theorem tryInsert {nname : Text} {value : Aint} {isRelocatable isDefine : Bool}
    (hc : (if isRelocatable then Relocation.EType.regular else .off) = c) :
    Keeps (KeepsReady (n := n) (m := m) name c)
      (AsmProgram.tryInsert nname value (structTraits isRelocatable isDefine)
        labelPageUndefined) := by
  intro s
  rw [final, AsmProgram.tryInsert, exec_bind, exec_get]
  dsimp only
  rcases h : s.insert nname value (structTraits isRelocatable isDefine) labelPageUndefined with _ | t
  · exact refl s
  · have hready : Ready name c s → _ := ready_insert h rfl hc
    obtain ⟨symbol, rfl, hsymbol, -⟩ := insert_eq h
    refine ⟨⟨rfl, rfl, rfl, rfl⟩, fun hclass => ?_, fun hr => (hready hr).1⟩
    by_cases heq : name = nname
    · exact (hready (.inl hclass)).2 heq
    · exact ((classOf_setSymbol _ _ _ _).trans (if_neg heq)).trans hclass

theorem checkStructLabel {nname fullName : Text} {value : Aint} :
    Keeps (KeepsReady (n := n) (m := m) name c)
      (AsmProgram.checkStructLabel nname fullName value) := by
  refine .bind labelValue fun oval => ?_
  cases oval with
  | none => exact .bind (of_evaluates evaluates_error) fun _ => .exit
  | some oval => exact .when (of_evaluates evaluates_error)

theorem insertSingleStructLabel {setNameSpace : Bool} {nname : Text} {isRelocatable : Bool}
    {value : Aint} (hc : (if isRelocatable then Relocation.EType.regular else .off) = c) :
    Keeps (KeepsReady (n := n) (m := m) name c)
      (AsmProgram.insertSingleStructLabel setNameSpace nname isRelocatable value false) := by
  refine .bind (.ite (.pure _) validateLabel) fun fullName => ?_
  cases fullName with
  | none => exact .pure _
  | some fullName =>
    exact .get_bind fun _ => .ite checkStructLabel
      (.bind (fun s => of_symbols ⟨rfl, rfl, rfl, rfl⟩ rfl) fun _ => .bind (tryInsert hc) fun _ =>
        .ite (.when setSize) (of_evaluates evaluates_error))

theorem insertStructSubLabels {mainName : Text} {isRelocatable : Bool} {address : Aint}
    {members : List StructureLabel}
    (hc : (if isRelocatable then Relocation.EType.regular else .off) = c) :
    Keeps (KeepsReady (n := n) (m := m) name c)
      (AsmProgram.insertStructSubLabels mainName isRelocatable address false members) := by
  induction members with
  | nil => exact .pure _
  | cons member members ih => exact .bind (insertSingleStructLabel hc) fun _ => ih

end KeepsReady

/-- Inserting a label that is ready gives it the class. -/
theorem exec_tryInsert_ready {nname : Text} (value : Aint) {isRelocatable : Bool} (isDefine : Bool)
    {s : AsmState n m} (hready : Ready nname (if isRelocatable then .regular else .off) s) :
    ∃ inserted t, (AsmProgram.tryInsert nname value (structTraits isRelocatable isDefine)
        labelPageUndefined).exec s = (some inserted, t) ∧
      t.classOf nname = some (if isRelocatable then .regular else .off) := by
  rw [AsmProgram.tryInsert, exec_bind_of_some (exec_get s)]
  rcases h : s.insert nname value (structTraits isRelocatable isDefine) labelPageUndefined with _ | t
  · exact ⟨false, s, rfl, classOf_of_insert_none h hready⟩
  · exact ⟨true, t, rfl, (ready_insert h rfl rfl hready).2 rfl⟩

/-- `ValidateLabel` returns the full name of the label. -/
theorem exec_validateLabel (naam : Text) (setNameSpace ignoreCharAfter : Bool) (s : AsmState n m) :
    (AsmProgram.validateLabel naam setNameSpace ignoreCharAfter).exec s
      = (some (Sjasmplus.validateLabel s.scope setNameSpace ignoreCharAfter naam).1,
        (AsmProgram.validateLabel naam setNameSpace ignoreCharAfter).final s) :=
  rfl

/-- **A label of an instance gets the class of its instance**, in a pass that inserts it, or has it. -/
theorem classOf_insertSingleStructLabel {setNameSpace : Bool} {name : Text} {isRelocatable : Bool}
    (value : Aint) {s : AsmState n m} {fullName : Text}
    (hname : (Sjasmplus.validateLabel s.scope setNameSpace false name).1 = some fullName)
    (hready : Ready fullName (if isRelocatable then .regular else .off) s) :
    ((AsmProgram.insertSingleStructLabel setNameSpace name isRelocatable value false).final s).classOf
      fullName = some (if isRelocatable then .regular else .off) := by
  have hvalid : KeepsReady fullName (if isRelocatable then .regular else .off) s
      ((AsmProgram.validateLabel name setNameSpace false).final s) := KeepsReady.validateLabel s
  have hfull : structLabelName setNameSpace name false
      = AsmProgram.validateLabel (n := n) (m := m) name setNameSpace false :=
    if_neg Bool.false_ne_true
  rw [final, AsmProgram.insertSingleStructLabel, hfull,
    exec_bind_of_some (exec_validateLabel name setNameSpace false s), hname]
  generalize (AsmProgram.validateLabel name setNameSpace false).final s = t at hvalid
  have hready := hvalid.ready hready
  rw [exec_bind_of_some (exec_get t)]
  by_cases hpass : t.pass = lastPass
  · -- the last pass only compares
    rw [if_pos hpass]
    exact (KeepsReady.checkStructLabel t).class' (hready.resolve_right fun h => h.1 hpass)
  · rw [if_neg hpass, defineStructLabel, exec_bind_of_some (exec_modify _ t)]
    set u : AsmState n m := { t with
      flags := ⟨isRelocatable, if isRelocatable then .regular else .off⟩ }
    have hready : Ready fullName (if isRelocatable then .regular else .off) u :=
      (KeepsReady.of_symbols ⟨rfl, rfl, rfl, rfl⟩ rfl : KeepsReady _ _ t u).ready hready
    obtain ⟨inserted, v, hv, hclass⟩ := exec_tryInsert_ready value false hready
    rw [exec_bind_of_some hv]
    exact (Keeps.ite (.when KeepsReady.setSize) (KeepsReady.of_evaluates evaluates_error) v).class'
      hclass

/-! ### The scope of field labels -/

/-- The scope behind the own label of an instance, which may be a main label. -/
def instanceScope (scope : LabelScope) (iid : Text) : LabelScope :=
  match (Sjasmplus.validateLabel scope true false iid).1 with
  | some label => newMainLabel scope iid label
  | none => scope

/-- Field labels set no main label. -/
def SameScope (s t : AsmState n m) : Prop := t.scope = s.scope

namespace SameScope

instance : Std.Refl (SameScope (n := n) (m := m)) := ⟨fun _ => rfl⟩

instance : IsTrans (AsmState n m) SameScope := ⟨fun _ _ _ h h' => Eq.trans h' h⟩

theorem of_evaluates {α : Type} {p : AsmProgram n m α} (hp : Keeps Evaluates p) :
    Keeps SameScope p :=
  .mono (fun _ _ h => h.scope) hp

theorem tryInsert {nname : Text} {value : Aint} {traits : Traits} {page : Page} :
    Keeps (SameScope (n := n) (m := m)) (AsmProgram.tryInsert nname value traits page) := by
  intro s
  rw [final, AsmProgram.tryInsert, exec_bind, exec_get]
  dsimp only
  rcases h : s.insert nname value traits page with _ | t
  · rfl
  · obtain ⟨symbol, rfl, -⟩ := insert_eq h
    rfl

theorem setSize {nname : Text} {size : Aint} :
    Keeps (SameScope (n := n) (m := m)) (AsmProgram.setSize nname size) := by
  intro s
  rcases final_setSize nname size s with ⟨-, hs⟩ | ⟨label, -, hs⟩ <;> rw [hs]
  · exact refl s
  · rfl

/-- The labels of an instance keep the scope once their full name is known. -/
theorem insertLabel {name fullName : Text} {setNameSpace isRelocatable isDefine : Bool}
    {value : Aint} : Keeps (SameScope (n := n) (m := m)) (get >>= fun s =>
      if s.pass = lastPass then checkStructLabel name fullName value
      else defineStructLabel setNameSpace fullName isRelocatable value isDefine) := by
  have hvalue : Keeps (SameScope (n := n) (m := m)) (labelValue name) :=
    .get_bind fun _ => .bind (of_evaluates (evaluates_modify fun _ => rfl)) fun _ => .get_bind fun _ =>
      .bind (of_evaluates evaluates_read) fun _ => .bind (of_evaluates (evaluates_modify fun _ => rfl)) fun _ =>
        .pure _
  refine .get_bind fun _ => .ite (.bind hvalue fun oval => ?_) ?_
  · cases oval with
    | none => exact .bind (of_evaluates evaluates_error) fun _ => .exit
    | some oval => exact .when (of_evaluates evaluates_error)
  · exact .bind (fun _ => rfl) fun _ => .bind tryInsert fun _ =>
      .ite (.when setSize) (of_evaluates evaluates_error)

theorem insertFieldLabel {name : Text} {isRelocatable : Bool} {value : Aint} :
    Keeps (SameScope (n := n) (m := m))
      (insertSingleStructLabel false name isRelocatable value false) := by
  have hmain : ∀ label, Keeps (SameScope (n := n) (m := m)) (modify (setMainLabel false name label)) :=
    fun label s => by cases label <;> rfl
  have hvalid : Keeps (SameScope (n := n) (m := m)) (AsmProgram.validateLabel name false false) :=
    .get_bind fun _ => .bind (of_evaluates evaluates_report) fun _ => .bind (hmain _) fun _ =>
      .pure _
  refine .bind (.ite (.pure _) hvalid) fun fullName => ?_
  cases fullName with
  | none => exact .pure _
  | some fullName => exact insertLabel

/-- The main label of an instance sets the scope as `ValidateLabel` does. -/
theorem insertMainLabel (name : Text) (isRelocatable : Bool) (value : Aint) (s : AsmState n m) :
    ((insertSingleStructLabel true name isRelocatable value false).final s).scope
      = instanceScope s.scope name := by
  have hfull : structLabelName true name false
      = AsmProgram.validateLabel (n := n) (m := m) name true false :=
    if_neg Bool.false_ne_true
  have hscope : ((AsmProgram.validateLabel name true false).final s).scope
      = instanceScope s.scope name := by
    show (setMainLabel true name (Sjasmplus.validateLabel s.scope true false name).1 _).scope = _
    unfold instanceScope
    cases (Sjasmplus.validateLabel s.scope true false name).1 <;> rfl
  rw [final, insertSingleStructLabel, hfull, exec_bind_of_some (exec_validateLabel name true false s)]
  cases (Sjasmplus.validateLabel s.scope true false name).1 with
  | none => exact hscope
  | some fullName => exact (insertLabel _).trans hscope

end SameScope

/-- Before the last pass inserting a label of an instance never ends the program. -/
theorem exec_insertSingleStructLabel (setNameSpace : Bool) (name : Text) (isRelocatable : Bool)
    (value : Aint) {s : AsmState n m} (hpass : s.pass ≠ lastPass) :
    ∃ t, (insertSingleStructLabel setNameSpace name isRelocatable value false).exec s
      = (some (), t) := by
  have hfull : structLabelName setNameSpace name false
      = AsmProgram.validateLabel (n := n) (m := m) name setNameSpace false :=
    if_neg Bool.false_ne_true
  have hmode : SameMode s ((AsmProgram.validateLabel name setNameSpace false).final s) :=
    sameMode_validateLabel s
  rw [insertSingleStructLabel, hfull,
    exec_bind_of_some (exec_validateLabel name setNameSpace false s)]
  generalize (AsmProgram.validateLabel name setNameSpace false).final s = t at hmode
  -- a bad name returns at once, and a label that is there is an error
  rcases (Sjasmplus.validateLabel s.scope setNameSpace false name).1 with _ | fullName
  · exact ⟨t, rfl⟩
  · rw [exec_bind_of_some (exec_get t), if_neg (hmode.pass ▸ hpass), defineStructLabel,
      exec_bind_of_some (exec_modify _ t), AsmProgram.tryInsert]
    generalize ({ t with flags := _ } : AsmState n m) = u
    rw [exec_bind, exec_bind_of_some (exec_get u)]
    rcases u.insert fullName value (structTraits isRelocatable false) labelPageUndefined with _ | v
    · exact ⟨_, rfl⟩
    · exact ⟨_, rfl⟩

/-- **A field label of an instance gets the class of its instance.** -/
theorem classOf_insertStructSubLabels {mainName : Text} {isRelocatable : Bool} {address : Aint}
    {members : List StructureLabel} {member : StructureLabel} (hmember : member ∈ members)
    {s : AsmState n m} {fullName : Text}
    (hname : (Sjasmplus.validateLabel s.scope false false (mainName ++ '.' :: member.naam)).1
      = some fullName)
    (hready : Ready fullName (if isRelocatable then .regular else .off) s) :
    ((insertStructSubLabels mainName isRelocatable address false members).final s).classOf
      fullName = some (if isRelocatable then .regular else .off) := by
  set c : Relocation.EType := if isRelocatable then .regular else .off with hc
  by_cases hpass : s.pass = lastPass
  · -- the last pass only compares
    exact (KeepsReady.insertStructSubLabels hc.symm s).class'
      (hready.resolve_right fun h => h.1 hpass)
  -- by induction on the labels: the others of the instance leave this one alone
  · induction members generalizing s with
    | nil => simp at hmember
    | cons first members ih =>
      set insertFirst : AsmProgram n m Unit := insertSingleStructLabel false
        (mainName ++ '.' :: first.naam) isRelocatable (first.offset + address) false with hinsert
      have hhead : KeepsReady fullName c s (insertFirst.final s) :=
        KeepsReady.insertSingleStructLabel hc.symm s
      have hscope : SameScope s (insertFirst.final s) := SameScope.insertFieldLabel s
      have hclass := fun heq : member = first =>
        classOf_insertSingleStructLabel (first.offset + address) (heq ▸ hname) hready
      rw [← hinsert] at hclass
      obtain ⟨t, ht⟩ : ∃ t, insertFirst.exec s = (some (), t) :=
        exec_insertSingleStructLabel _ _ _ _ hpass
      rw [final, insertStructSubLabels, exec_bind_of_some ht]
      simp only [final, ht] at hhead hscope hclass
      rcases List.mem_cons.mp hmember with heq | hmember
      · exact (KeepsReady.insertStructSubLabels hc.symm t).class' (hclass heq)
      · exact ih hmember (by rw [hscope]; exact hname) (hhead.ready hready) (hhead.mode.pass ▸ hpass)

/-! ### Statements that define labels -/

section Instance

variable {st : Structure} {iid : Text} {address : Aint} {isRelocatable : Bool}

theorem KeepsReady.emitlab {name : Text} {c : Relocation.EType}
    (hc : (if isRelocatable then Relocation.EType.regular else .off) = c) :
    Keeps (KeepsReady (n := n) (m := m) name c) (AsmProgram.emitlab st iid address isRelocatable) :=
  .bind (.when (of_evaluates evaluates_warning)) fun _ => .bind (insertSingleStructLabel hc) fun _ =>
    .bind (insertStructSubLabels hc) fun _ => setSize

/-- The labels that an instance defines: its own one, and one for each field. -/
def InstanceLabel (st : Structure) (iid : Text) (scope : LabelScope) (fullName : Text) : Prop :=
  (Sjasmplus.validateLabel scope true false iid).1 = some fullName ∨
    ∃ member ∈ st.labels, (Sjasmplus.validateLabel (instanceScope scope iid) false false
      (iid ++ '.' :: member.naam)).1 = some fullName

/-- **Every label of an instance gets the class of the instance.** -/
theorem classOf_emitlab {s : AsmState n m} {fullName : Text}
    (hname : InstanceLabel st iid s.scope fullName)
    (hready : Ready fullName (if isRelocatable then .regular else .off) s) :
    ((emitlab st iid address isRelocatable).final s).classOf fullName
      = some (if isRelocatable then .regular else .off) := by
  set c : Relocation.EType := if isRelocatable then .regular else .off with hc
  by_cases hpass : s.pass = lastPass
  · exact (KeepsReady.emitlab hc.symm s).class' (hready.resolve_right fun h => h.1 hpass)
  · -- the warning changes nothing of interest
    obtain ⟨w, hw, hscope, hkeeps⟩ : ∃ w, (warnMisaligned st address).exec s = (some (), w) ∧
        w.scope = s.scope ∧ KeepsReady fullName c s w := by
      unfold warnMisaligned Program.when
      dsimp only
      generalize (if st.maxAlignment ≠ 0 then -address &&& (st.maxAlignment - 1) else 0) = gap
      by_cases h : gap ≠ 0
      · rw [if_pos h]
        exact ⟨_, rfl, rfl, .of_symbols ⟨rfl, rfl, rfl, rfl⟩ rfl⟩
      · rw [if_neg h]
        exact ⟨s, rfl, rfl, refl s⟩
    have hready := hkeeps.ready hready
    rw [← hscope] at hname
    obtain ⟨t, ht⟩ := exec_insertSingleStructLabel true iid isRelocatable address
      (hkeeps.mode.pass ▸ hpass)
    have hmain : KeepsReady fullName c w
        ((insertSingleStructLabel true iid isRelocatable address false).final w) :=
      KeepsReady.insertSingleStructLabel hc.symm w
    have hmainScope := SameScope.insertMainLabel iid isRelocatable address w
    have hclass : (Sjasmplus.validateLabel w.scope true false iid).1 = some fullName → _ :=
      fun hvalid => classOf_insertSingleStructLabel address hvalid hready
    rw [emitlab, final_bind_of_some hw, final_bind_of_some ht]
    simp only [final, ht] at hmain hmainScope hclass
    refine final_bind_of (P := fun u : AsmState n m => u.classOf fullName = some c) ?_ fun _ u hu =>
      (KeepsReady.setSize u).class' hu
    -- the label of the instance itself, or one of its fields
    rcases hname with hvalid | ⟨member, hmember, hvalid⟩
    · exact (KeepsReady.insertStructSubLabels hc.symm t).class' (hclass hvalid)
    · exact classOf_insertStructSubLabels hmember (hmainScope ▸ hvalid) (hmain.ready hready)

/-- The text behind the name of a structure designs no address. -/
def NoDesignedAddress (p : Text) : Prop := cur (Sjasmplus.skipBlanks p) ≠ '='

/-- **Every label of an instance at the current address gets the class of the block.** -/
theorem classOf_structureInstance {temp : Text} {s : AsmState n m} {fullName : Text}
    (hname : InstanceLabel st temp s.scope fullName) (htext : NoDesignedAddress s.lp)
    (hready : Ready fullName s.blockClass s) (smcOffset : Aint) :
    ((structureInstance st temp smcOffset).final s).classOf fullName = some s.blockClass := by
  -- without a designed address the instance is at the current one
  obtain ⟨t, ht, hkeeps, hscope, hrel⟩ : ∃ t, (parseDesignedAddress (n := n) (m := m)).exec s
      = (some noDesignedAddress, t) ∧ KeepsReady fullName s.blockClass s t ∧ t.scope = s.scope ∧
        t.relocationType = s.relocationType := by
    refine ⟨{ s with lp := Sjasmplus.skipBlanks s.lp }, ?_, .of_symbols ⟨rfl, rfl, rfl, rfl⟩ rfl,
      rfl, rfl⟩
    rw [parseDesignedAddress, exec_bind_of_some (p := AsmProgram.skipBlanks) rfl,
      exec_bind_of_some (exec_get _)]
    exact congrArg (exec · _) (if_neg htext)
  have hclass : (if decide ((if t.relocationType ≠ .off then Relocation.EType.regular else .off)
      = .regular) then Relocation.EType.regular else .off) = s.blockClass := by
    unfold blockClass
    rw [hrel]
    cases s.relocationType <;> rfl
  refine final_bind_of (P := fun u : AsmState n m => u.classOf fullName = some s.blockClass) ?_ fun _ u hu =>
    final_bind_of (P := fun u : AsmState n m => u.classOf fullName = some s.blockClass) ?_ fun _ u hu =>
      ((Keeps.bind KeepsReady.validateLabel fun _ => .pure _) u).class' hu
  · rw [emitStructure, final_bind_of_some ht]
    refine final_bind_of (P := fun u : AsmState n m => u.classOf fullName = some s.blockClass) ?_ fun _ u hu => ?_
    · rw [emitLabels, final_bind_of_some (exec_get t)]
      dsimp only
      rw [if_pos rfl, ← hclass]
      exact classOf_emitlab (hscope ▸ hname) (hclass ▸ hkeeps.ready hready)
    · exact (KeepsReady.of_evaluates (.when evaluates_emitmembs) u).class' hu
  · exact (KeepsReady.of_evaluates (.when evaluates_error) u).class' hu

end Instance

/-- `CLabelTable::Update` keeps classes. -/
theorem AsmState.classOf_update (s : AsmState n m) (tp name : Text) (value : Aint) :
    (s.update tp value).classOf name = s.classOf name := by
  unfold update
  rcases hsymbol : s.symbols tp with _ | label
  · rfl
  · dsimp only
    rw [classOf_setSymbol]
    by_cases heq : name = tp
    · rw [if_pos heq, classOf, heq, hsymbol, Option.map_some]
      split_ifs <;> rfl
    · rw [if_neg heq]

/-- Inserting a label that is ready, or finding it to be a duplicate. -/
theorem exec_tryInsert_classOf {tp : Text} (value : Aint) {traits : Traits} (page : Page)
    {s : AsmState n m} (htraits : traits.isUndefined = false)
    (hready : Ready tp (s.insertDeltaType traits) s) :
    ∃ inserted t, (tryInsert tp value traits page).exec s = (some inserted, t) ∧
      t.classOf tp = some (s.insertDeltaType traits) := by
  rw [tryInsert, exec_bind_of_some (exec_get s)]
  rcases h : s.insert tp value traits page with _ | t
  · exact ⟨false, s, rfl, classOf_of_insert_none h hready⟩
  · exact ⟨true, t, rfl, (ready_insert h htraits rfl hready).2 rfl⟩

/-- The class of a label for the current address. -/
theorem AsmState.insertDeltaType_address (s : AsmState n m) : s.insertDeltaType {}
    = if s.relocationType ≠ .off ∧ s.pseudoORG ≠ .insideRelocate then .regular else .off :=
  rfl

/-- The last pass keeps the class of every label, unless it sets a `DEFL` label once more. -/
theorem classOf_checkLabel {tp name : Text} {val : Aint} {traits : Traits} {s : AsmState n m}
    {c : Relocation.EType} (hdefl : traits.isDefl = false) (hs : s.classOf name = some c) :
    ((checkLabel tp val traits).final s).classOf name = some c := by
  rw [checkLabel, final_bind_of_some (exec_get s)]
  simp only [hdefl, Bool.and_false, Bool.false_eq_true, Program.when, if_false]
  rw [final_bind_of_some (exec_pure () s), final_bind_of_some (exec_get s)]
  -- a label that is not found is an error; another value is replaced without its class
  split_ifs
  · exact hs
  · rw [final_bind_of_some (exec_pure () s), final_bind_of_some (exec_get s)]
    rcases hsymbol : s.symbols tp with _ | label
    · exact hs
    · dsimp only
      split_ifs
      · exact final_bind_of (P := fun t : AsmState n m => t.classOf name = some c) hs
          fun _ t ht => (t.classOf_update tp name val).trans ht
      · show (s.setSymbol tp { label with updatePass := s.pass }).classOf name = some c
        rw [classOf_setSymbol]
        split_ifs with heq
        · rwa [classOf, heq, hsymbol] at hs
        · exact hs

/-- **A label that a pass defines gets the class that `Insert` decides on**; in the last pass it has
to have it. -/
theorem classOf_setLabel {tp : Text} {val : Aint} {traits : Traits} {page : Page}
    {s : AsmState n m} (htraits : traits.isUndefined = false) (hdefl : traits.isDefl = false)
    (hready : Ready tp (s.insertDeltaType traits) s) :
    ((setLabel tp val traits page).final s).classOf tp = some (s.insertDeltaType traits) := by
  rw [setLabel, final_bind_of_some (exec_get s)]
  by_cases hpass : s.pass = lastPass
  · rw [if_pos hpass]
    exact classOf_checkLabel hdefl (hready.resolve_right fun h => h.1 hpass)
  · rw [if_neg hpass, final_bind_of_some (exec_get s)]
    obtain ⟨inserted, t, ht, hclass⟩ := exec_tryInsert_classOf val page htraits hready
    split_ifs
    · rw [final_bind_of_some ht]
      cases inserted with
      | false => exact (t.classOf_update tp tp val).trans hclass
      | true => exact hclass
    · rw [final_bind_of_some ht]
      cases inserted with
      | false => exact hclass
      | true => exact hclass

/-- **A label for the current address.** -/
theorem classOf_addressLabel {temp fullName : Text} {smcOffset : Aint} {s : AsmState n m}
    (hname : (Sjasmplus.validateLabel s.scope true false temp).1 = some fullName)
    (hready : Ready fullName (s.insertDeltaType {}) s) :
    ((addressLabel temp smcOffset).final s).classOf fullName = some (s.insertDeltaType {}) := by
  have hvalid : KeepsReady fullName (s.insertDeltaType {}) s
      ((AsmProgram.validateLabel temp true false).final s) := KeepsReady.validateLabel s
  rw [addressLabel, final_bind_of_some (exec_get s),
    final_bind_of_some (exec_validateLabel temp true false s), hname]
  generalize (AsmProgram.validateLabel temp true false).final s = t at hvalid
  have hclass : t.insertDeltaType {} = s.insertDeltaType {} := by
    rw [insertDeltaType_address, insertDeltaType_address, hvalid.mode.relocationType,
      hvalid.mode.pseudoORG]
  rw [← hclass]
  exact classOf_setLabel rfl rfl (hclass ▸ hvalid.ready hready)

/-! ### The last pass -/

/-- In the last pass labels keep their class. -/
def KeepsLast (s t : AsmState n m) : Prop :=
  s.pass = lastPass → t.pass = lastPass ∧ ∀ name c, s.classOf name = some c → t.classOf name = some c

namespace KeepsLast

instance : Std.Refl (KeepsLast (n := n) (m := m)) := ⟨fun _ h => ⟨h, fun _ _ => id⟩⟩

instance : IsTrans (AsmState n m) KeepsLast :=
  ⟨fun _ _ _ h h' hpass => ⟨(h' (h hpass).1).1, fun name c hc =>
    (h' (h hpass).1).2 name c ((h hpass).2 name c hc)⟩⟩

/-- What keeps every class in every pass. -/
theorem of_keepsReady {α : Type} {p : AsmProgram n m α}
    (hp : ∀ name c, Keeps (KeepsReady name c) p) : Keeps KeepsLast p := fun s hpass =>
  ⟨(hp [] .off s).mode.pass.trans hpass, fun name c => (hp name c s).class'⟩

theorem of_evaluates {α : Type} {p : AsmProgram n m α} (hp : Keeps Evaluates p) :
    Keeps KeepsLast p :=
  of_keepsReady fun _ _ => .of_evaluates hp

/-- Only the branch of the last pass counts. -/
theorem of_pass {α : Type} {p q : AsmProgram n m α} (hp : Keeps KeepsLast p) :
    Keeps KeepsLast (get >>= fun s => if s.pass = lastPass then p else q) := by
  intro s hpass
  rw [final_bind_of_some (exec_get s), if_pos hpass]
  exact hp s hpass

theorem insertSingleStructLabel {setNameSpace : Bool} {name : Text} {isRelocatable : Bool}
    {value : Aint} : Keeps (KeepsLast (n := n) (m := m))
      (AsmProgram.insertSingleStructLabel setNameSpace name isRelocatable value false) := by
  refine .bind (.ite (.pure _) (of_keepsReady fun _ _ => .validateLabel)) fun fullName => ?_
  cases fullName with
  | none => exact .pure _
  | some fullName => exact of_pass (of_keepsReady fun _ _ => .checkStructLabel)

theorem structureInstance {st : Structure} {temp : Text} {smcOffset : Aint} :
    Keeps (KeepsLast (n := n) (m := m)) (AsmProgram.structureInstance st temp smcOffset) := by
  have hsub : ∀ members mainName isRelocatable address, Keeps (KeepsLast (n := n) (m := m))
      (insertStructSubLabels mainName isRelocatable address false members) := by
    intro members mainName isRelocatable address
    induction members with
    | nil => exact .pure _
    | cons member members ih => exact .bind insertSingleStructLabel fun _ => ih
  refine .bind (.bind (of_evaluates evaluates_parseDesignedAddress) fun _ => .bind (.get_bind fun _ =>
    ?_) fun _ => .when (of_evaluates evaluates_emitmembs)) fun _ =>
      .bind (.when (of_evaluates evaluates_error)) fun _ =>
        .bind (of_keepsReady fun _ _ => .validateLabel) fun _ => .pure _
  exact .bind (.when (of_evaluates evaluates_warning)) fun _ => .bind insertSingleStructLabel fun _ =>
    .bind (hsub _ _ _ _) fun _ => of_keepsReady fun _ _ => .setSize

theorem addressLabel {temp : Text} {smcOffset : Aint} :
    Keeps (KeepsLast (n := n) (m := m)) (AsmProgram.addressLabel temp smcOffset) := by
  refine .get_bind fun _ => .bind (of_keepsReady fun _ _ => .validateLabel) fun tp => ?_
  cases tp with
  | none => exact .pure _
  | some tp =>
    intro s hpass
    refine ⟨(sameMode_setLabel s).pass.trans hpass, fun name c hc => ?_⟩
    show ((setLabel tp _ {} labelPageUndefined).final s).classOf name = some c
    rw [setLabel, final_bind_of_some (exec_get s), if_pos hpass]
    exact classOf_checkLabel rfl hc

end KeepsLast

/-! ### One notion, except in a displacement that started inside -/

/-- What a program may define at a point: a label, a temporary label, and an instance. -/
structure PointLabels where
  temp : Text
  smcOffset : Aint
  labelNumber : Aint
  st : Structure
  iid : Text

/-- The names of a point that the symbol table is asked for. -/
inductive PointLabels.Name (l : PointLabels) (s : AsmState n m) (fullName : Text) : Prop
  | label : (Sjasmplus.validateLabel s.scope true false l.temp).1 = some fullName → l.Name s fullName
  | instance : InstanceLabel l.st l.iid s.scope fullName → NoDesignedAddress s.lp →
    l.Name s fullName

/-- The label may be defined in this pass: before the last pass it is new or due for an update, in
the last pass it is known from the pass before. -/
def AsmState.Definable (s : AsmState n m) (fullName : Text) : Prop :=
  (s.pass ≠ lastPass → s.Insertable fullName) ∧ (s.pass = lastPass → (s.find fullName).isSome = true)

/-- The current address has one class, `c`: `$` has it, and so has every label defined here. -/
structure OneClass (l : PointLabels) (s : AsmState n m) (c : Relocation.EType) : Prop where
  dollar : s.expressionClass ['$'] = c
  temporary : ∃ label, ((insertRefresh l.labelNumber).final s).nextPassLabels.getLast? = some label ∧
    (if label.isRelocatable then Relocation.EType.regular else .off) = c
  label : ∀ fullName, (Sjasmplus.validateLabel s.scope true false l.temp).1 = some fullName →
    s.Definable fullName → ((addressLabel l.temp l.smcOffset).final s).classOf fullName = some c
  instance' : ∀ fullName, InstanceLabel l.st l.iid s.scope fullName → NoDesignedAddress s.lp →
    s.Definable fullName →
      ((structureInstance l.st l.iid l.smcOffset).final s).classOf fullName = some c

/-- In the last pass the labels have the class that they would get now. -/
def KeptClass (l : PointLabels) (s : AsmState n m) : Prop :=
  s.pass = lastPass → ∀ fullName, l.Name s fullName → (s.find fullName).isSome = true →
    s.classOf fullName = some s.blockClass

/-- The temporary label that is made at a point. -/
theorem getLast?_insertRefresh (labelNumber : Aint) (s : AsmState n m) :
    ((insertRefresh labelNumber).final s).nextPassLabels.getLast?
      = some (s.temporaryLabel labelNumber) := by
  set t : AsmState n m :=
    { s with nextPassLabels := s.nextPassLabels ++ [s.temporaryLabel labelNumber] } with ht
  have hlast : t.nextPassLabels.getLast? = some (s.temporaryLabel labelNumber) :=
    List.getLast?_concat
  rw [insertRefresh, final_bind_of_some (exec_get s), final_bind_of_some (p := set t) rfl]
  rcases s.labels[s.nextPassLabels.length]? with _ | label
  · exact hlast
  · refine (congrArg List.getLast? (Evaluates.nextPassLabels ?_)).trans hlast
    exact Keeps.ite (.pure _) (.bind (.when evaluates_warning) fun _ => .pure _) t

/-- A label that the symbol table has keeps its class through the last pass. -/
theorem classOf_of_keepsLast {s t : AsmState n m} (h : KeepsLast s t) (hpass : s.pass = lastPass)
    {fullName : Text} (hfind : (s.find fullName).isSome = true) {c : Relocation.EType}
    (hc : t.classOf fullName = some c) : s.classOf fullName = some c := by
  obtain ⟨symbol, hsymbol⟩ := Option.isSome_iff_exists.mp hfind
  have hold : s.classOf fullName = some symbol.isRelocatable := by
    rw [classOf, (Option.filter_eq_some_iff.mp hsymbol).1, Option.map_some]
  rw [(h hpass).2 _ _ hold] at hc
  rw [hold, hc]

/-- **The current address has one class exactly when no displacement is open that started inside
the relocation block**, in the last pass as long as the labels have kept the class of the block. -/
theorem addressClass_iff {s : AsmState n m} (hs : Reachable s) (l : PointLabels) :
    (∃ c, OneClass l s c) ↔ s.pseudoORG ≠ .insideRelocate ∧ KeptClass l s := by
  -- a temporary label has the class of the block it is in
  have htemporary : (if (s.temporaryLabel l.labelNumber).isRelocatable then Relocation.EType.regular
      else .off) = s.blockClass := by
    unfold temporaryLabel blockClass
    cases s.relocationType <;> rfl
  have hdollar := expressionClass_dollar hs.modes
  constructor
  · rintro ⟨c, h⟩
    obtain ⟨label, hlabel, hc⟩ := h.temporary
    rw [getLast?_insertRefresh] at hlabel
    rw [← Option.some.inj hlabel, htemporary] at hc
    refine ⟨fun hinside => ?_, fun hpass fullName hname hfind => ?_⟩
    · -- there a temporary label is relocatable and `$` is not
      have hoff := h.dollar
      rw [hdollar, if_neg fun h => h.2 hinside, ← hc, blockClass,
        if_pos (hs.modes.inside hinside)] at hoff
      exact absurd hoff (by decide)
    · have hdefinable : s.Definable fullName := ⟨fun h => absurd hpass h, fun _ => hfind⟩
      rw [hc]
      cases hname with
      | label hvalid =>
        exact classOf_of_keepsLast (KeepsLast.addressLabel s) hpass hfind
          (h.label fullName hvalid hdefinable)
      | «instance» hvalid htext =>
        exact classOf_of_keepsLast (KeepsLast.structureInstance s) hpass hfind
          (h.instance' fullName hvalid htext hdefinable)
  · rintro ⟨hinside, hkept⟩
    -- outside of such a displacement a label is inserted with the class of the block
    have hclass : s.insertDeltaType {} = s.blockClass := by
      rw [insertDeltaType_address, blockClass]
      simp only [hinside, ne_eq, not_false_eq_true, and_true]
    -- the last pass does not insert, so that the label must have kept that class
    have hready : ∀ fullName, l.Name s fullName → s.Definable fullName →
        Ready fullName s.blockClass s := by
      intro fullName hname hdefinable
      by_cases hpass : s.pass = lastPass
      · exact .inl (hkept hpass fullName hname (hdefinable.2 hpass))
      · exact .inr ⟨hpass, hdefinable.1 hpass⟩
    refine ⟨s.blockClass, ?_, ⟨_, getLast?_insertRefresh _ s, htemporary⟩, ?_, ?_⟩
    · rw [hdollar, ← insertDeltaType_address, hclass]
    · intro fullName hvalid hdefinable
      rw [← hclass]
      exact classOf_addressLabel hvalid (hclass ▸ hready fullName (.label hvalid) hdefinable)
    · intro fullName hvalid htext hdefinable
      exact classOf_structureInstance hvalid htext
        (hready fullName (.instance hvalid htext) hdefinable) _

/-- Behind `RELOCATE_START` in the first pass. -/
def exampleBlock : AsmState 0 0 := dirRELOCATE_START.final ((AsmState.start 0 0).initPass.atText [] [])

/-- Behind `RELOCATE_START` and `DISP 0x8000`. -/
def exampleInside : AsmState 0 0 := dirDISP.final (exampleBlock.atText "0x8000".toList [])

/-- A label `x`, a temporary label `1` and an instance `y` of a structure with one byte. -/
def examplePoint : PointLabels where
  temp := ['x']
  smcOffset := 0
  labelNumber := 1
  st := (Structure.init ['S'] 0).addLabel ['a'] |>.addMember (.value .byte 0 .off)
  iid := ['y']

theorem addressClass_exampleBlock :
    (∃ c, OneClass examplePoint exampleBlock c) ↔
      exampleBlock.pseudoORG ≠ .insideRelocate ∧ KeptClass examplePoint exampleBlock :=
  addressClass_iff (.step .relocateStart [] [] (.pass (.start 0 0))) examplePoint

/-- Between `DISP` and `ENT` in a relocation block a label and `$` are absolute, a temporary label and
the labels of an instance are relocatable. -/
theorem classes_exampleInside :
    Reachable exampleInside ∧ exampleInside.expressionClass ['$'] = .off ∧
      ((addressLabel examplePoint.temp 0).final exampleInside).classOf ['x'] = some .off ∧
      ((insertRefresh 1).final exampleInside).nextPassLabels = [⟨1, 0x8000, true⟩] ∧
      ((structureInstance examplePoint.st examplePoint.iid 0).final exampleInside).classOf ['y']
        = some .regular ∧
      ((structureInstance examplePoint.st examplePoint.iid 0).final exampleInside).classOf
        ['y', '.', 'a'] = some .regular := by
  refine ⟨?_, by decide +kernel⟩
  exact .step .disp _ _ (.step .relocateStart [] [] (.pass (.start 0 0)))

end Sjasmplus
