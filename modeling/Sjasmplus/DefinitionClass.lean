import Sjasmplus.AddressClass

/-!
# The relocation class of `EQU`, `DEFL` and `=`

`CLabelTable::Insert` gives a label that is defined by `EQU`, `DEFL` or `=` the class that the last
expression left in `Relocation::deltaType`.  Expressions write it only inside of relocation blocks
and only when they have a value with the labels as they are and with the labels moved, and the page
behind an `EQU` is an expression, too.  So a definition gets its own class exactly under the
condition of `OwnClassCondition`, and a run gives every definition its own class exactly when all its
definitions meet that condition (`ownClass_iff`).
-/

namespace Sjasmplus

open Parsing ParseFn Program AsmState AsmProgram

variable {n m : Nat}

/-! ### What an expression leaves in `Relocation::deltaType` -/

namespace AsmState

/-- The expression at `p` has a value with the labels as they are and with the labels moved, so
that its class is decided. -/
def Settles (s : AsmState n m) (p : Text) : Prop :=
  s.relocationType ≠ .off ∧
    (parseExpressionEntry { s.exprEnv false with areLabelsOffset := true } p).val.isSome = true ∧
    (parseExpressionEntry (s.exprEnv false) p).val.isSome = true

instance (s : AsmState n m) (p : Text) : Decidable (s.Settles p) :=
  inferInstanceAs (Decidable (_ ∧ _ ∧ _))

/-- `Relocation::deltaType` behind the expression at `p`. -/
def deltaBehind (s : AsmState n m) (p : Text) : Relocation.EType :=
  if s.Settles p then s.expressionClass p else s.flags.deltaType

/-- An expression that decides nothing leaves `deltaType` as it is. -/
theorem deltaType_parseExpression (s : AsmState n m) (flags : Relocation.Flags) (p : Text) :
    (parseExpression (s.exprEnv false) flags p).2.deltaType
      = if s.Settles p then s.expressionClass p else flags.deltaType := by
  unfold expressionClass parseExpression Settles
  by_cases hoff : s.relocationType = .off
  · simp [hoff, exprEnv]
  · have hoff' : ¬(s.exprEnv false).relocationType = .off := hoff
    simp only [if_neg hoff, if_neg hoff']
    rw [show ({ s.exprEnv false with areLabelsOffset := false } : ExprEnv) = s.exprEnv false from rfl,
      show ({ s.exprEnv false with areLabelsOffset := true, synerr := false } : ExprEnv)
        = { s.exprEnv false with areLabelsOffset := true } from rfl]
    -- with relocation, the expression is evaluated twice: it decides nothing where one of them
    -- fails
    cases (parseExpressionEntry { s.exprEnv false with areLabelsOffset := true } p).val with
    | none => simp
    | some relocationVal =>
      cases (parseExpressionEntry (s.exprEnv false) p).val with
      | none => simp
      | some nval => simp [hoff]

/-- An expression that decides nothing is not relocatable. -/
theorem expressionClass_of_not_settles {s : AsmState n m} {p : Text} (h : ¬s.Settles p) :
    s.expressionClass p = .off := by
  have hclass := s.deltaType_parseExpression ⟨false, .off⟩ p
  rw [if_neg h] at hclass
  unfold expressionClass
  split_ifs
  · rfl
  · exact hclass

theorem deltaType_parseExpressionNoSyntaxError (s : AsmState n m) :
    (parseExpressionNoSyntaxError.final s).flags.deltaType = s.deltaBehind s.lp :=
  s.deltaType_parseExpression s.flags s.lp

end AsmState

/-- What leaves `Relocation::deltaType` as it is. -/
def SameDelta (s t : AsmState n m) : Prop := t.flags.deltaType = s.flags.deltaType

namespace SameDelta

instance : Std.Refl (SameDelta (n := n) (m := m)) := ⟨fun _ => rfl⟩

instance : IsTrans (AsmState n m) SameDelta := ⟨fun _ _ _ h h' => h'.trans h⟩

end SameDelta

/-! ### The operands of a definition -/

namespace AsmState

/-- Behind the value of a definition. -/
def behindValue (s : AsmState n m) : AsmState n m :=
  definedValue.final (clearResultAffected.final s)

/-- The text of the page that an `EQU` has behind a comma. -/
def pageText (s : AsmState n m) (isEQU : Bool) : Option Text :=
  let p := Sjasmplus.skipBlanks s.lp
  if isEQU ∧ cur p = ',' ∧ cur p.tail ≠ ',' then some p.tail else none

/-- `Relocation::deltaType` behind the operands of a definition. -/
def definitionDelta (s : AsmState n m) (isEQU : Bool) : Relocation.EType :=
  match s.behindValue.pageText isEQU with
  | some page => s.behindValue.deltaBehind page
  | none => s.deltaBehind s.lp

end AsmState

/-- The value of a definition is an expression like any other. -/
theorem exec_definedValue (s : AsmState n m) :
    ∃ val, definedValue.exec s = (some val, definedValue.final s) ∧
      (definedValue.final s).flags.deltaType = s.deltaBehind s.lp := by
  have hdelta := s.deltaType_parseExpressionNoSyntaxError
  obtain ⟨o, t, ht⟩ : ∃ o t, parseExpressionNoSyntaxError.exec s = (some o, t) := ⟨_, _, rfl⟩
  rw [final, ht] at hdelta
  rw [final, definedValue, exec_bind_of_some ht]
  cases o with
  | none => exact ⟨0, rfl, hdelta⟩
  | some val => exact ⟨val, rfl, hdelta⟩

/-- The page of a definition. -/
theorem exec_equPage (s : AsmState n m) (isEQU : Bool) :
    ∃ page t, (equPage isEQU).exec s = (some page, t) ∧ t.flags.deltaType
      = match s.pageText isEQU with
        | some p => s.deltaBehind p
        | none => s.flags.deltaType := by
  cases isEQU with
  | false => exact ⟨labelPageUndefined, s, rfl, rfl⟩
  | true =>
    set p := Sjasmplus.skipBlanks s.lp with hp
    -- a page stands behind a single comma
    by_cases hcomma : cur p = ',' ∧ cur p.tail ≠ ','
    · have htext : s.pageText true = some p.tail := if_pos ⟨rfl, hcomma⟩
      have hexec : comma.exec s = (some true, { s with lp := p.tail }) := by
        show (some (if cur p = ',' ∧ cur p.tail ≠ ',' then (true, p.tail) else (false, p)).1,
          { s with lp := (if cur p = ',' ∧ cur p.tail ≠ ',' then (true, p.tail) else (false, p)).2 })
            = _
        rw [if_pos hcomma]
      have hdelta := ({ s with lp := p.tail } : AsmState n m).deltaType_parseExpressionNoSyntaxError
      obtain ⟨o, t, ht⟩ : ∃ o t, parseExpressionNoSyntaxError.exec { s with lp := p.tail }
        = (some o, t) := ⟨_, _, rfl⟩
      rw [final, ht] at hdelta
      rw [equPage, if_pos rfl, pageArgument, exec_bind_of_some hexec, if_pos rfl,
        exec_bind_of_some ht, htext]
      cases o with
      | none => exact ⟨_, _, rfl, hdelta⟩
      | some equPageNum => exact ⟨_, _, rfl, hdelta⟩
    · have htext : s.pageText true = none := if_neg fun h => hcomma h.2
      have hexec : comma.exec s = (some false, { s with lp := p }) := by
        show (some (if cur p = ',' ∧ cur p.tail ≠ ',' then (true, p.tail) else (false, p)).1,
          { s with lp := (if cur p = ',' ∧ cur p.tail ≠ ',' then (true, p.tail) else (false, p)).2 })
            = _
        rw [if_neg hcomma]
      rw [equPage, if_pos rfl, pageArgument, exec_bind_of_some hexec, if_neg Bool.false_ne_true,
        htext]
      exact ⟨_, _, rfl, rfl⟩

/-- Nothing may stand behind the operands. -/
theorem exec_restOfLine {α : Type} (a : α) (s : AsmState n m) :
    ∃ t, (AsmProgram.skipBlanks >>= fun atEnd => Program.when (!atEnd) (get >>= fun s =>
        error "Unexpected" (some s.lp) >>= fun _ => modify fun s => { s with lp := [] }) >>= fun _ =>
          pure a).exec s = (some a, t) ∧ SameDelta s t := by
  rw [exec_bind_of_some (p := AsmProgram.skipBlanks) rfl]
  unfold Program.when
  split_ifs
  · exact ⟨_, rfl, rfl⟩
  · exact ⟨_, rfl, rfl⟩

/-- What the operands of a definition leave in `Relocation::deltaType`. -/
theorem exec_definition (s : AsmState n m) (isDEFL isEQU : Bool) :
    ∃ operands, (definition isDEFL isEQU).exec s
        = (some operands, (definition isDEFL isEQU).final s) ∧
      ((definition isDEFL isEQU).final s).flags.deltaType = s.definitionDelta isEQU := by
  obtain ⟨val, hval, hdelta⟩ := exec_definedValue (clearResultAffected.final s)
  have hdelta : s.behindValue.flags.deltaType = s.deltaBehind s.lp := hdelta
  have hval : definedValue.exec (clearResultAffected.final s) = (some val, s.behindValue) := hval
  have hclear : clearResultAffected.exec s = (some (), clearResultAffected.final s) := rfl
  -- the error about a forward reference changes nothing of interest
  obtain ⟨l, hv⟩ : ∃ l, (Program.when (s.behindValue.isLabelNotFound && isDEFL)
      (error "Forward reference" none .early)).exec s.behindValue
        = (some (), { s.behindValue with log := l }) := by
    unfold Program.when
    split_ifs
    · exact ⟨_, rfl⟩
    · exact ⟨_, rfl⟩
  obtain ⟨page, t, ht, hpage⟩ := exec_equPage { s.behindValue with log := l } isEQU
  obtain ⟨u, hu, hsame⟩ := exec_restOfLine (val, page) t
  have hexec : (definition isDEFL isEQU).exec s = (some (val, page), u) := by
    rw [definition, exec_bind_of_some hclear, exec_bind_of_some hval,
      exec_bind_of_some (exec_get _), exec_bind_of_some hv, exec_bind_of_some ht]
    exact hu
  have hfinal : (definition isDEFL isEQU).final s = u := by rw [final, hexec]
  refine ⟨(val, page), hexec.trans (by rw [hfinal]), ?_⟩
  rw [hfinal, hsame, hpage, definitionDelta]
  show (match s.behindValue.pageText isEQU with | some p => _ | none => _) = _
  cases s.behindValue.pageText isEQU with
  | none => exact hdelta
  | some p => rfl

/-! ### Writing the label -/

namespace AsmState

/-- The class of a label that is defined. -/
def definedClass (s : AsmState n m) (name : Text) : Option Relocation.EType :=
  (s.find name).map (·.isRelocatable)

theorem definedClass_of_symbol {s : AsmState n m} {name : Text} {label : Symbol}
    (h : s.symbols name = some label) : s.definedClass name
      = if label.page ≠ labelPageUndefined then some label.isRelocatable else none := by
  rw [definedClass, find, h, Option.filter_some]
  split_ifs <;> simp_all

theorem definedClass_setSymbol (s : AsmState n m) (name : Text) (symbol : Symbol) :
    (s.setSymbol name symbol).definedClass name
      = if symbol.page ≠ labelPageUndefined then some symbol.isRelocatable else none :=
  definedClass_of_symbol (if_pos rfl)

/-- A label that is inserted is defined, with the class that `Insert` decides on. -/
theorem definedClass_of_insert {s t : AsmState n m} {name : Text} {value : Aint} {traits : Traits}
    {page : Page} (h : s.insert name value traits page = some t)
    (htraits : traits.isUndefined = false) :
    t.definedClass name = some (s.insertDeltaType traits) := by
  have hpage := s.insertPage_ne value traits page
  unfold insert at h
  rcases hlabel : s.symbols name with _ | label
  · rw [hlabel] at h
    obtain rfl := Option.some.inj h
    simp only [htraits, Bool.false_and, Bool.false_eq_true, if_false, definedClass_setSymbol]
    exact if_pos hpage
  · simp only [hlabel] at h
    -- a label that is there is written only when it may be
    split_ifs at h
    obtain rfl := Option.some.inj h
    rw [definedClass_setSymbol]
    exact if_pos hpage

/-- `CLabelTable::Update` keeps the class of a defined label. -/
theorem definedClass_update (s : AsmState n m) (name : Text) (value : Aint) :
    (s.update name value).definedClass name = s.definedClass name := by
  unfold update
  rcases hsymbol : s.symbols name with _ | label
  · rfl
  · dsimp only
    rw [definedClass_setSymbol, definedClass_of_symbol hsymbol]
    by_cases h : (label.traits.isEqu || label.traits.isDefl || label.traits.isStructD) = true
    · rw [if_pos h]
    · rw [if_neg h]
      dsimp only
      -- the page of a defined label is computed anew, and it stays a defined one
      by_cases hpage : label.page ≠ labelPageUndefined
      · rw [if_pos hpage, if_pos hpage, if_pos (s.getAddressPageNumber_ne _ _)]
      · rw [if_neg hpage, if_neg hpage]

end AsmState

/-- Inserting, with its result. -/
theorem exec_tryInsert_cases (tp : Text) (val : Aint) {traits : Traits} (page : Page)
    (s : AsmState n m) (htraits : traits.isUndefined = false) :
    (s.Insertable tp ∧ ∃ t, (tryInsert tp val traits page).exec s = (some true, t) ∧
        t.definedClass tp = some (s.insertDeltaType traits) ∧
        t.insertDeltaType traits = s.insertDeltaType traits) ∨
      (¬s.Insertable tp ∧ (tryInsert tp val traits page).exec s = (some false, s)) := by
  rw [tryInsert, exec_bind_of_some (exec_get s)]
  rcases h : s.insert tp val traits page with _ | t
  · exact .inr ⟨insert_eq_none_iff.mp h, rfl⟩
  · obtain ⟨symbol, ht, -⟩ := insert_eq h
    refine .inl ⟨?_, t, rfl, definedClass_of_insert h htraits, by rw [ht]; rfl⟩
    by_contra hnot
    rw [insert_eq_none_iff.mpr hnot] at h
    exact absurd h (by simp)

namespace AsmState

/-- A definition writes its label unless it only checks it, or it is a duplicate. -/
def Writes (s : AsmState n m) (isDEFL : Bool) (tp : Text) : Prop :=
  (s.pass = lastPass → isDEFL = true) ∧ s.Insertable tp

end AsmState

/-- Comparing the values changes no class. -/
theorem definedClass_compareLabel (tp : Text) (val : Aint) (t : AsmState n m) :
    (Program.final (get >>= fun s : AsmState n m =>
      match s.symbols tp with
      | none => pure ()
      | some label =>
        if val ≠ label.value then
          warning "Label has different value in pass 3" (some ("previous value " ++
            toString label.value.toNat ++ " not equal " ++ toString val.toNat).toList) >>=
              fun _ => modify fun s => s.update tp val
        else modify fun s => s.setSymbol tp { label with updatePass := s.pass }) t).definedClass tp
          = t.definedClass tp := by
  rw [final_bind_of_some (exec_get t)]
  rcases hsymbol : t.symbols tp with _ | label
  · rfl
  · dsimp only
    split_ifs
    · exact definedClass_update _ tp val
    · exact (definedClass_setSymbol _ _ _).trans (definedClass_of_symbol hsymbol).symm

/-- The last pass writes `DEFL` labels only. -/
theorem definedClass_checkLabel (tp : Text) (val : Aint) {traits : Traits} {s : AsmState n m}
    (htraits : traits.isUndefined = false) :
    (¬(traits.isDefl = true ∧ s.Insertable tp) →
      ((checkLabel tp val traits).final s).definedClass tp = s.definedClass tp) ∧
    (traits.isDefl = true → s.Insertable tp →
      ((checkLabel tp val traits).final s).definedClass tp = some (s.insertDeltaType traits)) := by
  have htail := definedClass_compareLabel (n := n) (m := m) tp val
  -- setting the label once more
  have hagain : ∀ t : AsmState n m, ∃ u,
      (tryInsert tp val traits labelPageUndefined >>= fun _ => pure ()).exec t = (some (), u) ∧
        (t.Insertable tp ∧ u.definedClass tp = some (t.insertDeltaType traits) ∧
            u.insertDeltaType traits = t.insertDeltaType traits ∨
          ¬t.Insertable tp ∧ u = t) := by
    intro t
    rcases exec_tryInsert_cases tp val labelPageUndefined t htraits with
      ⟨hinsertable, u, hu, hclass, hsame⟩ | ⟨hinsertable, hu⟩
    · exact ⟨u, exec_bind_of_some hu, .inl ⟨hinsertable, hclass, hsame⟩⟩
    · exact ⟨t, exec_bind_of_some hu, .inr ⟨hinsertable, rfl⟩⟩
  have hfound : ∀ t : AsmState n m, t.definedClass tp = none → (t.find tp).isNone = true := by
    intro t ht
    rwa [Option.isNone_iff_eq_none, ← Option.map_eq_none_iff]
  have hmissing : ∀ t : AsmState n m, (t.find tp).isNone = true → t.definedClass tp = none := by
    intro t ht
    rw [definedClass, Option.isNone_iff_eq_none.mp ht, Option.map_none]
  cases hdefl : traits.isDefl with
  | false =>
    refine ⟨fun _ => ?_, fun h => absurd h Bool.false_ne_true⟩
    rw [checkLabel, final_bind_of_some (exec_get s)]
    simp only [hdefl, Bool.and_false, Bool.false_eq_true, Program.when, if_false]
    rw [final_bind_of_some (exec_pure () s), final_bind_of_some (exec_get s)]
    by_cases hfind : (s.find tp).isNone = true
    · rw [if_pos hfind]
      rfl
    · rw [if_neg hfind, final_bind_of_some (exec_pure () s)]
      exact htail s
  | true =>
    -- the class of a label that is set once more
    have hset : ∀ t u : AsmState n m, t.Insertable tp ∧ u.definedClass tp
          = some (t.insertDeltaType traits) ∧ u.insertDeltaType traits = t.insertDeltaType traits ∨
        ¬t.Insertable tp ∧ u = t → (¬t.Insertable tp → u.definedClass tp = t.definedClass tp) ∧
          (t.Insertable tp → u.definedClass tp = some (t.insertDeltaType traits)) := by
      rintro t u (⟨hinsertable, hclass, -⟩ | ⟨hinsertable, rfl⟩)
      · exact ⟨fun h => absurd hinsertable h, fun _ => hclass⟩
      · exact ⟨fun _ => rfl, fun h => absurd h hinsertable⟩
    suffices h : (¬s.Insertable tp →
        ((checkLabel tp val traits).final s).definedClass tp = s.definedClass tp) ∧
        (s.Insertable tp → ((checkLabel tp val traits).final s).definedClass tp
          = some (s.insertDeltaType traits)) from
      ⟨fun hnot => h.1 fun hinsertable => hnot ⟨rfl, hinsertable⟩, fun _ => h.2⟩
    obtain ⟨u, hu, hcases⟩ := hagain s
    rw [checkLabel, final_bind_of_some (exec_get s)]
    by_cases hfind : (s.find tp).isNone = true
    · simp only [hfind, hdefl, Bool.and_self, Program.when, if_true]
      rw [final_bind_of_some hu, final_bind_of_some (exec_get u)]
      rcases hcases with ⟨hinsertable, hclass, hsame⟩ | ⟨hinsertable, rfl⟩
      · obtain ⟨w, hw, hcases⟩ := hagain u
        have hsome : ¬(u.find tp).isNone = true := fun h => by
          simp [hmissing u h] at hclass
        rw [if_neg hsome, final_bind_of_some hw]
        refine ⟨fun h => absurd hinsertable h, fun _ => (htail w).trans ?_⟩
        rcases hcases with ⟨-, hw, -⟩ | ⟨-, rfl⟩
        · rw [hw, hsame]
        · exact hclass
      · rw [if_pos hfind]
        exact ⟨fun _ => rfl, fun h => absurd h hinsertable⟩
    · rw [Bool.not_eq_true] at hfind
      simp only [hfind, hdefl, Bool.false_and, Bool.false_eq_true, Program.when, if_false]
      rw [final_bind_of_some (exec_pure () s), final_bind_of_some (exec_get s), hfind]
      simp only [Bool.false_eq_true, if_false, if_true]
      rw [final_bind_of_some hu]
      obtain ⟨hchecked, hwritten⟩ := hset s u hcases
      exact ⟨fun h => (htail u).trans (hchecked h), fun h => (htail u).trans (hwritten h)⟩

/-- **What a definition writes**: the class that `Insert` decides on, unless the label is only
checked or a duplicate. -/
theorem definedClass_setLabel (tp : Text) (val : Aint) {traits : Traits} (page : Page)
    {s : AsmState n m} (htraits : traits.isUndefined = false) :
    (s.Writes traits.isDefl tp → ((setLabel tp val traits page).final s).definedClass tp
      = some (s.insertDeltaType traits)) ∧
    (¬s.Writes traits.isDefl tp →
      ((setLabel tp val traits page).final s).definedClass tp = s.definedClass tp) := by
  rw [setLabel, final_bind_of_some (exec_get s)]
  by_cases hpass : s.pass = lastPass
  · obtain ⟨hchecked, hwritten⟩ := definedClass_checkLabel tp val (s := s) htraits
    rw [if_pos hpass]
    exact ⟨fun h => hwritten (h.1 hpass) h.2, fun h => hchecked fun h' => h ⟨fun _ => h'.1, h'.2⟩⟩
  -- before the last pass the label is inserted whenever it may be
  · have hwrites : s.Writes traits.isDefl tp ↔ s.Insertable tp :=
      ⟨And.right, fun h => ⟨fun h' => absurd h' hpass, h⟩⟩
    rw [if_neg hpass, final_bind_of_some (exec_get s), hwrites]
    rcases exec_tryInsert_cases tp val page s htraits with
      ⟨hinsertable, t, ht, hclass, -⟩ | ⟨hinsertable, ht⟩
    · refine ⟨fun _ => ?_, fun h => absurd hinsertable h⟩
      split_ifs
      · rw [final_bind_of_some ht]
        exact hclass
      · rw [final_bind_of_some ht]
        exact hclass
    · refine ⟨fun h => absurd h hinsertable, fun _ => ?_⟩
      split_ifs
      · rw [final_bind_of_some ht]
        exact s.definedClass_update tp val
      · rw [final_bind_of_some ht]
        rfl

/-! ### A definition gets its own class -/

namespace AsmState

/-- Evaluating defines no label. -/
theorem definedClass_of_evaluates {s t : AsmState n m} (h : Evaluates s t) (name : Text) :
    t.definedClass name = s.definedClass name := by
  rcases hold : s.symbols name with _ | label
  · have hs : s.definedClass name = none := by rw [definedClass, find, hold]; rfl
    rw [hs]
    rcases hnew : t.symbols name with _ | placeholder
    · rw [definedClass, find, hnew]
      rfl
    · rw [definedClass_of_symbol hnew]
      exact if_neg (not_not_intro (h.placeholders name placeholder hold hnew))
  · rw [definedClass_of_symbol hold, definedClass_of_symbol (h.symbols name label hold)]

/-- Evaluating changes neither what is due for an update nor what is new. -/
theorem writes_of_evaluates {s t : AsmState n m} (h : Evaluates s t) (isDEFL : Bool) (tp : Text) :
    t.Writes isDEFL tp ↔ s.Writes isDEFL tp := by
  have hinsertable : t.Insertable tp ↔ s.Insertable tp := by
    refine ⟨fun ht label hlabel => ?_, insertable_of_evaluates h⟩
    have hneeds := ht label (h.symbols tp label hlabel)
    rwa [show t.needsUpdate label = s.needsUpdate label by simp only [needsUpdate, h.mode.pass]]
      at hneeds
  rw [Writes, Writes, h.mode.pass, hinsertable]

/-- The page of an `EQU` that decides a class. -/
def settledPage (s : AsmState n m) (isEQU : Bool) : Option Text :=
  (s.behindValue.pageText isEQU).filter fun page => s.behindValue.Settles page

/-- `Relocation::deltaType` is the class of the value behind the operands: the page, if it decides a
class, has the same one, and otherwise the value decides its class or nothing was left behind from
an expression before it. -/
def DeltaIsOwn (s : AsmState n m) (isEQU : Bool) : Prop :=
  match s.settledPage isEQU with
  | some page => s.behindValue.expressionClass page = s.expressionClass s.lp
  | none => s.Settles s.lp ∨ s.flags.deltaType = .off

theorem definitionDelta_eq_iff (s : AsmState n m) (isEQU : Bool) :
    s.definitionDelta isEQU = s.expressionClass s.lp ↔ s.DeltaIsOwn isEQU := by
  have hvalue : s.deltaBehind s.lp = s.expressionClass s.lp
      ↔ s.Settles s.lp ∨ s.flags.deltaType = .off := by
    unfold deltaBehind
    by_cases h : s.Settles s.lp
    · simp only [h, if_true, true_or]
    · simp only [h, if_false, false_or, expressionClass_of_not_settles h]
  unfold definitionDelta DeltaIsOwn settledPage
  cases s.behindValue.pageText isEQU with
  | none => exact hvalue
  | some page =>
    rw [Option.filter_some]
    dsimp only
    obtain ⟨val, -, hdelta⟩ := exec_definedValue (clearResultAffected.final s)
    have hdelta : s.behindValue.flags.deltaType = s.deltaBehind s.lp := hdelta
    unfold deltaBehind at hvalue hdelta ⊢
    by_cases h : s.behindValue.Settles page
    · simp only [h, if_true, decide_true]
    · simp only [h, if_false, decide_false, Bool.false_eq_true, hdelta]
      exact hvalue

end AsmState

/-- A label with `EQU`, `DEFL` or `=` in front of its operands. -/
structure LabelDefinition where
  temp : Text
  smcOffset : Aint
  isDEFL : Bool
  isEQU : Bool
  defines : (isDEFL || isEQU) = true
deriving DecidableEq

namespace LabelDefinition

variable (d : LabelDefinition)

def program : AsmProgram n m Unit := definedLabel d.temp d.smcOffset d.isDEFL d.isEQU

/-- Behind the definition its label, if it is defined, has the class of its own value. -/
def OwnClass (s t : AsmState n m) : Prop :=
  ∀ tp, (Sjasmplus.validateLabel s.scope true false d.temp).1 = some tp →
    ∀ c, t.definedClass tp = some c → c = s.expressionClass s.lp

/-- What decides in front of the operands whether the label gets its own class: if it is written,
the class that it gets is its own, and otherwise it has its own class already. -/
def OwnClassCondition (s : AsmState n m) : Prop :=
  ∀ tp, (Sjasmplus.validateLabel s.scope true false d.temp).1 = some tp →
    (s.Writes d.isDEFL tp → s.DeltaIsOwn d.isEQU) ∧
      (¬s.Writes d.isDEFL tp → ∀ c, s.definedClass tp = some c → c = s.expressionClass s.lp)

/-- The class of the label behind the definition. -/
theorem definedClass_program {s : AsmState n m} {tp : Text}
    (htp : (Sjasmplus.validateLabel s.scope true false d.temp).1 = some tp) :
    (s.Writes d.isDEFL tp →
      (d.program.final s).definedClass tp = some (s.definitionDelta d.isEQU)) ∧
    (¬s.Writes d.isDEFL tp → (d.program.final s).definedClass tp = s.definedClass tp) := by
  obtain ⟨⟨val, page⟩, hexec, hdelta⟩ := exec_definition s d.isDEFL d.isEQU
  have hkeeps : Evaluates s ((definition d.isDEFL d.isEQU).final s) := evaluates_definition s
  rw [program, definedLabel, final_bind_of_some hexec]
  generalize (definition d.isDEFL d.isEQU).final s = t at hdelta hkeeps
  rw [← hkeeps.scope] at htp
  dsimp only
  rw [final_bind_of_some (exec_validateLabel d.temp true false t), htp]
  -- the scope is all that the validation sets
  obtain ⟨label, l, hvalid⟩ : ∃ label l, (AsmProgram.validateLabel d.temp true false).final t
      = { t with scope := label, log := l } := by
    show ∃ label l, setMainLabel true d.temp (Sjasmplus.validateLabel t.scope true false d.temp).1
      { t with log := t.log ++ _ } = _
    rw [htp]
    exact ⟨_, _, rfl⟩
  rw [hvalid]
  set traits : Traits := { isDefl := d.isDEFL, isEqu := d.isEQU } with htraits
  set v : AsmState n m := { t with scope := label, log := l } with hv
  obtain ⟨hwritten, hkept⟩ := definedClass_setLabel tp (val + d.smcOffset) page (s := v)
    (show traits.isUndefined = false from rfl)
  have hwrites : v.Writes traits.isDefl tp ↔ s.Writes d.isDEFL tp :=
    writes_of_evaluates hkeeps d.isDEFL tp
  have hclass : v.insertDeltaType traits = s.definitionDelta d.isEQU := by
    rw [insertDeltaType, if_neg Bool.false_ne_true, if_pos d.defines]
    exact hdelta
  rw [hwrites] at hwritten hkept
  exact ⟨fun h => (hwritten h).trans (congrArg some hclass),
    fun h => (hkept h).trans (definedClass_of_evaluates hkeeps tp)⟩

/-- **A definition gives its label its own class exactly under the condition.** -/
theorem ownClass_iff_condition (s : AsmState n m) :
    d.OwnClass s (d.program.final s) ↔ d.OwnClassCondition s := by
  refine forall_congr' fun tp => forall_congr' fun htp => ?_
  obtain ⟨hwritten, hkept⟩ := d.definedClass_program htp
  by_cases h : s.Writes d.isDEFL tp
  · rw [hwritten h, ← definitionDelta_eq_iff]
    simp only [h, Option.some.injEq, forall_eq', not_true_eq_false, false_imp_iff, and_true,
      true_imp_iff]
  · rw [hkept h]
    simp only [h, false_imp_iff, not_false_eq_true, true_imp_iff, true_and]

end LabelDefinition

/-! ### Runs -/

namespace AsmProgram

/-- What of a line comes in front of the operands of a definition, if it has one. -/
def lineDefinition (smart : Reported Aint) : AsmProgram n m (Option LabelDefinition) := do
  let temp ← scan fun p => (p.takeWhile (!endsLabel ·), p.dropWhile (!endsLabel ·))
  let smcOffset ← smcDigit
  let star ← smcStar
  Program.when star <| report smart.2
  let smcOffset := if star then smart.1 else smcOffset
  let _ ← scan fun p => ((), Sjasmplus.skipBlanks (if cur p = ':' then p.tail else p))
  modify fun s => { s with isLabelNotFound := false }
  if (cur temp).isDigit then pure none
  else if ← isMacroNext then pure none
  else
    let isDEFL ← needDEFL
    let isEQU ← needEQU
    if h : (isDEFL || isEQU) = true then pure (some ⟨temp, smcOffset, isDEFL, isEQU, h⟩)
    else pure none

end AsmProgram

/-- A line with a definition does what the definition does. -/
theorem final_parseLabel_of_definition {smart : Reported Aint} {s u : AsmState n m}
    {d : LabelDefinition} (h : (lineDefinition smart).exec s = (some (some d), u)) :
    (parseLabel smart).final s = d.program.final u := by
  obtain ⟨temp, t, ht⟩ : ∃ temp t, (scan (n := n) (m := m) fun p =>
      (p.takeWhile (!endsLabel ·), p.dropWhile (!endsLabel ·))).exec s = (some temp, t) :=
    ⟨_, _, rfl⟩
  obtain ⟨smcOffset, t₁, ht₁⟩ : ∃ smcOffset t₁, smcDigit.exec t = (some smcOffset, t₁) :=
    ⟨_, _, rfl⟩
  obtain ⟨star, t₂, ht₂⟩ : ∃ star t₂, smcStar.exec t₁ = (some star, t₂) := ⟨_, _, rfl⟩
  obtain ⟨t₃, ht₃⟩ : ∃ t₃, (Program.when star (report smart.2)).exec t₂ = (some (), t₃) := by
    cases star with
    | true => exact ⟨_, rfl⟩
    | false => exact ⟨_, rfl⟩
  obtain ⟨t₄, ht₄⟩ : ∃ t₄, (scan (n := n) (m := m) fun p =>
      ((), Sjasmplus.skipBlanks (if cur p = ':' then p.tail else p))).exec t₃ = (some (), t₄) :=
    ⟨_, rfl⟩
  obtain ⟨w, hw⟩ : ∃ w, (modify fun s : AsmState n m => { s with isLabelNotFound := false } :
      AsmProgram n m Unit).exec t₄ = (some (), w) := ⟨_, rfl⟩
  rw [lineDefinition, exec_bind_of_some ht, exec_bind_of_some ht₁, exec_bind_of_some ht₂,
    exec_bind_of_some ht₃, exec_bind_of_some ht₄, exec_bind_of_some hw] at h
  rw [parseLabel, final_bind_of_some ht, final_bind_of_some ht₁, final_bind_of_some ht₂,
    final_bind_of_some ht₃, final_bind_of_some ht₄, final_bind_of_some hw]
  -- a temporary label is no definition, nor is the name of a macro
  by_cases hdigit : (cur temp).isDigit = true
  · rw [if_pos hdigit] at h
    simp at h
  · rw [if_neg hdigit] at h ⊢
    obtain ⟨macroNext, w₁, hw₁⟩ : ∃ macroNext w₁, isMacroNext.exec w = (some macroNext, w₁) := by
      obtain ⟨atEnd, t, ht⟩ : ∃ atEnd t, AsmProgram.skipBlanks.exec w = (some atEnd, t) :=
        ⟨_, _, rfl⟩
      rw [isMacroNext, exec_bind_of_some ht]
      cases atEnd with
      | true => exact ⟨_, _, rfl⟩
      | false => exact ⟨_, _, rfl⟩
    obtain ⟨isDEFL, w₂, hw₂⟩ : ∃ isDEFL w₂, needDEFL.exec w₁ = (some isDEFL, w₂) := ⟨_, _, rfl⟩
    obtain ⟨isEQU, w₃, hw₃⟩ : ∃ isEQU w₃, needEQU.exec w₂ = (some isEQU, w₃) := ⟨_, _, rfl⟩
    rw [exec_bind_of_some hw₁] at h
    rw [namedLabel, final_bind_of_some hw₁]
    cases macroNext with
    | true => simp at h
    | false =>
      rw [if_neg Bool.false_ne_true, exec_bind_of_some hw₂, exec_bind_of_some hw₃] at h
      rw [if_neg Bool.false_ne_true, final_bind_of_some hw₂, final_bind_of_some hw₃]
      by_cases hdefines : (isDEFL || isEQU) = true
      · rw [dif_pos hdefines, exec_pure] at h
        obtain ⟨hd, rfl⟩ := Prod.mk.injEq .. ▸ h
        rw [if_pos hdefines, ← Option.some.inj (Option.some.inj hd)]
        rfl
      · rw [dif_neg hdefines, exec_pure] at h
        simp at h

/-- A run of the assembler, up to its last state. -/
inductive Run : {n m : Nat} → AsmState n m → Type
  | start (n m : Nat) : Run (AsmState.start n m)
  | pass {n m : Nat} {s : AsmState n m} : Run s → Run s.initPass
  | device {n m n' m' : Nat} {s : AsmState n m} (device : Option (Device n' m'))
      (currentSlot : Option (Fin n')) : Run s → Run (s.withDevice device currentSlot)
  | step {n m : Nat} {s : AsmState n m} (step : Step n m) (lp : Text) (lines : List SourceLine) :
      Run s → Run (step.program.final (s.atText lp lines))

/-- The step is a line with a definition, which has its operands at `u`. -/
def Step.Defines (s : AsmState n m) (d : LabelDefinition) (u : AsmState n m) : Step n m → Prop
  | .label smart => (lineDefinition smart).exec s = (some (some d), u)
  | _ => False

/-- A property of all definitions of a run, in front of their operands and behind them. -/
def Run.AllDefinitions
    (P : ∀ {n m : Nat}, LabelDefinition → AsmState n m → AsmState n m → Prop) :
    {n m : Nat} → {s : AsmState n m} → Run s → Prop
  | _, _, _, .start _ _ => True
  | _, _, _, .pass run => run.AllDefinitions P
  | _, _, _, .device _ _ run => run.AllDefinitions P
  | _, _, _, .step (s := s) line p rest run => run.AllDefinitions P ∧
      ∀ d u, line.Defines (s.atText p rest) d u →
        P d u (line.program.final (s.atText p rest))

/-- **In a run all definitions by `EQU`, `DEFL` and `=` give their labels their own class exactly
when all of them meet the condition.** -/
theorem ownClass_iff {s : AsmState n m} (run : Run s) :
    run.AllDefinitions (fun d u t => d.OwnClass u t)
      ↔ run.AllDefinitions (fun d u _ => d.OwnClassCondition u) := by
  -- by induction on the run: a step is a definition when its line is one
  induction run with
  | start n m => exact Iff.rfl
  | pass run ih => exact ih
  | device _ _ run ih => exact ih
  | step step lp lines run ih =>
    refine and_congr ih (forall_congr' fun d => forall_congr' fun u => forall_congr' fun h => ?_)
    cases step with
    | label smart =>
      show d.OwnClass u ((parseLabel smart).final _) ↔ d.OwnClassCondition u
      rw [← d.ownClass_iff_condition u, final_parseLabel_of_definition h]
    | _ => exact absurd h not_false

/-- Behind a block with a label `x` and the line `y EQU x`, which emits nothing. -/
def exampleClosed : AsmState 0 0 :=
  let labelX := (parseLabel (0, [])).final (exampleBlock.atText "x:".toList [])
  let labelY := (parseLabel (0, [])).final (labelX.atText "y EQU x".toList [])
  dirRELOCATE_END.final (labelY.atText [] [])

/-- The run up to there, and the line `z EQU 5`. -/
def exampleEqu :
    Run ((parseLabel (0, [])).final (exampleClosed.atText "z EQU 5".toList [])) :=
  .step (.label (0, [])) "z EQU 5".toList [] <| .step .relocateEnd [] [] <|
    .step (.label (0, [])) "y EQU x".toList [] <| .step (.label (0, [])) "x:".toList [] <|
      .step .relocateStart [] [] <| .pass (.start 0 0)

/-- In front of the operand of that line. -/
def exampleOperand : AsmState 0 0 :=
  (lineDefinition (0, [])).final (exampleClosed.atText "z EQU 5".toList [])

/-- `z` is relocatable, as the expression in the block was. -/
theorem ownClass_exampleEqu : ¬exampleEqu.AllDefinitions fun d u t => d.OwnClass u t := by
  intro h
  have hdefines : (lineDefinition (0, [])).exec (exampleClosed.atText "z EQU 5".toList [])
      = (some (some ⟨['z'], 0, false, true, rfl⟩), exampleOperand) :=
    exec_of_fst (by decide +kernel)
  have hz := h.2 ⟨['z'], 0, false, true, rfl⟩ exampleOperand hdefines ['z'] (by decide +kernel)
    .regular (by decide +kernel)
  exact absurd hz (by decide +kernel)

end Sjasmplus
