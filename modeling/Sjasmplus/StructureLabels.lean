import Sjasmplus.StructureLayout

/-!
# The labels of instances

An instance of a structure inserts a label for every field, with the address of the instance added to
the offset.  A pass before the last one inserts the labels, and one that was inserted in this pass is
never overwritten, so it keeps its value behind the labels that follow.  The last pass only compares
the values with those that it finds.

`structure_layout` puts the parts together: the offsets of field labels in every definition of a run,
those of nested structures, and the values of the labels of an instance.
-/

namespace Sjasmplus

open Parsing ParseFn Program AsmState AsmProgram

variable {n m : Nat}

/-! ### Look-ups -/

namespace AsmState

/-- What a look-up of a label reads. -/
def labelEnv (s : AsmState n m) : LabelEnv := (s.exprEnv true).labels

/-- The value of the label that a look-up of the name finds. -/
def lookup (s : AsmState n m) (name : Text) : Option Aint :=
  (labelEntry s.labelEnv name).map (·.value)

/-- The number of calls of `Error` so far. -/
def errorCalls (s : AsmState n m) : Nat := s.log.countP Event.isErrorCall

end AsmState

/-- A look-up tries one name after the other. -/
theorem AsmState.lookup_eq (s : AsmState n m) (name : Text) :
    s.lookup name = (Sjasmplus.validateLabel s.scope false true name).1.bind fun fullName =>
      (searchNames s.scope name fullName).findSome? fun name => (s.find name).map (·.value) := by
  -- a label without a page is a placeholder, which both look-ups pass over
  have hentry : ∀ name, ((s.symbols name).map Symbol.toLabelEntry).filter
      (·.page ≠ labelPageUndefined) = (s.find name).map Symbol.toLabelEntry := by
    intro name
    unfold AsmState.find
    rcases s.symbols name with _ | symbol
    · rfl
    · rw [Option.map_some, Option.filter_some, Option.filter_some]
      split_ifs <;> rfl
  unfold lookup labelEntry
  show Option.map _ ((Sjasmplus.validateLabel s.scope false true name).1.bind _) = _
  rcases (Sjasmplus.validateLabel s.scope false true name).1 with _ | fullName
  · rfl
  · rw [Option.bind_some, Option.bind_some, firstDefined_filter _ rfl]
    show Option.map _ ((searchNames s.scope name fullName).findSome? fun name =>
      ((s.symbols name).map Symbol.toLabelEntry).filter (·.page ≠ labelPageUndefined)) = _
    simp only [hentry]
    rw [List.map_findSome?]
    refine congrArg (fun f => List.findSome? f _) (funext fun name => ?_)
    show Option.map _ ((s.find name).map Symbol.toLabelEntry) = _
    rw [Option.map_map]
    rfl

/-- The full name of a label does not depend on what may follow it. -/
theorem validateLabel_ignore {scope : LabelScope} {naam fullName : Text}
    (h : (Sjasmplus.validateLabel scope false false naam).1 = some fullName) :
    (Sjasmplus.validateLabel scope false true naam).1 = some fullName := by
  unfold validateLabel at h ⊢
  dsimp only at h ⊢
  simp only [Bool.false_and, Bool.false_eq_true, if_false, Bool.not_true, Bool.and_false, Bool.not_false,
    Bool.and_true] at h ⊢
  split_ifs at h ⊢ <;> simp_all

/-- The full name is the first that a look-up tries. -/
theorem searchNames_head (scope : LabelScope) (p fullName : Text) :
    ∃ names, searchNames scope p fullName = fullName :: names := by
  unfold searchNames
  dsimp only
  split_ifs
  · exact ⟨_, rfl⟩
  · exact ⟨_, rfl⟩
  · exact ⟨[], rfl⟩

/-! ### Values that stay -/

/-- What the labels of an instance keep: what this pass has inserted, and all values in the last
pass. -/
structure KeepsValues (s t : AsmState n m) : Prop where
  log : s.log <+: t.log
  pass : t.pass = s.pass
  scope : t.scope = s.scope
  fresh : ∀ name symbol, s.symbols name = some symbol → s.needsUpdate symbol = false →
    ∃ symbol', t.symbols name = some symbol' ∧ t.needsUpdate symbol' = false ∧
      symbol'.value = symbol.value
  last : s.pass = lastPass → ∀ name, (t.find name).map (·.value) = (s.find name).map (·.value)

namespace KeepsValues

instance : Std.Refl (KeepsValues (n := n) (m := m)) :=
  ⟨fun _ => ⟨List.prefix_rfl, rfl, rfl, fun _ symbol h hfresh => ⟨symbol, h, hfresh, rfl⟩,
    fun _ _ => rfl⟩⟩

instance : IsTrans (AsmState n m) KeepsValues where
  trans s t u h h' := by
    refine ⟨h.log.trans h'.log, h'.pass.trans h.pass, h'.scope.trans h.scope, ?_, ?_⟩
    · intro name symbol hsymbol hfresh
      obtain ⟨symbol', hsymbol', hfresh', hvalue'⟩ := h.fresh name symbol hsymbol hfresh
      obtain ⟨symbol'', hsymbol'', hfresh'', hvalue''⟩ := h'.fresh name symbol' hsymbol' hfresh'
      exact ⟨symbol'', hsymbol'', hfresh'', hvalue''.trans hvalue'⟩
    · exact fun hpass name => (h'.last (h.pass.trans hpass) name).trans (h.last hpass name)

theorem needsUpdate_congr {s t : AsmState n m} (h : t.pass = s.pass) (symbol : Symbol) :
    t.needsUpdate symbol = s.needsUpdate symbol := by
  simp only [needsUpdate, h]

theorem of_evaluates {α : Type} {p : AsmProgram n m α} (hp : Keeps Evaluates p) :
    Keeps KeepsValues p := by
  refine .mono (fun s t h => ⟨h.mode.log, h.mode.pass, h.scope, ?_, ?_⟩) hp
  · intro name symbol hsymbol hfresh
    exact ⟨symbol, h.symbols name symbol hsymbol, (needsUpdate_congr h.mode.pass _).trans hfresh, rfl⟩
  · intro _ name
    unfold AsmState.find
    rcases hold : s.symbols name with _ | symbol
    · rcases hnew : t.symbols name with _ | symbol
      · rfl
      · have hpage := h.placeholders name symbol hold hnew
        simp [hpage]
    · rw [h.symbols name symbol hold]

theorem validateLabel {naam : Text} {ignoreCharAfter : Bool} : Keeps (KeepsValues (n := n) (m := m))
    (AsmProgram.validateLabel naam false ignoreCharAfter) := by
  have hmain : ∀ label, Keeps (KeepsValues (n := n) (m := m)) (modify (setMainLabel false naam label)) :=
    fun label s => by cases label <;> exact refl s
  exact .get_bind fun t => .bind (of_evaluates evaluates_report) fun _ => .bind (hmain _) fun _ =>
    .pure _

theorem setSize {nname : Text} {size : Aint} :
    Keeps (KeepsValues (n := n) (m := m)) (AsmProgram.setSize nname size) := by
  intro s
  rcases final_setSize nname size s with ⟨-, hs⟩ | ⟨label, hfind, hs⟩ <;> rw [hs]
  · exact refl s
  · obtain ⟨hlabel, hpage⟩ := Option.filter_eq_some_iff.mp hfind
    refine ⟨List.prefix_rfl, rfl, rfl, fun name symbol hsymbol hfresh => ?_, fun _ name => ?_⟩
    · by_cases heq : name = nname
      · obtain rfl : label = symbol := by
          rw [heq, hlabel] at hsymbol
          exact Option.some.inj hsymbol
        exact ⟨{ label with size := size }, if_pos heq, hfresh, rfl⟩
      · exact ⟨symbol, (if_neg heq).trans hsymbol, hfresh, rfl⟩
    · show (Option.filter _ (if name = nname then _ else _)).map _ = _
      by_cases heq : name = nname
      · rw [if_pos heq, heq, hfind, Option.filter_some, if_pos hpage]
        rfl
      · rw [if_neg heq]
        rfl

theorem labelValue {nname : Text} :
    Keeps (KeepsValues (n := n) (m := m)) (AsmProgram.labelValue nname) :=
  .get_bind fun _ => .bind (of_evaluates (evaluates_modify fun _ => rfl)) fun _ => .get_bind fun _ =>
    .bind (of_evaluates evaluates_read) fun _ =>
      .bind (of_evaluates (evaluates_modify fun _ => rfl)) fun _ => .pure _

theorem checkStructLabel {name fullName : Text} {value : Aint} :
    Keeps (KeepsValues (n := n) (m := m)) (AsmProgram.checkStructLabel name fullName value) := by
  refine .bind labelValue fun oval => ?_
  cases oval with
  | none => exact .bind (of_evaluates evaluates_error) fun _ => .exit
  | some oval => exact .when (of_evaluates evaluates_error)

/-- Before the last pass inserting a label leaves those alone that the pass has inserted. -/
theorem tryInsert {nname : Text} {value : Aint} {traits : Traits} {page : Page} {s : AsmState n m}
    (hpass : s.pass ≠ lastPass) :
    KeepsValues s ((AsmProgram.tryInsert nname value traits page).final s) := by
  rw [final, AsmProgram.tryInsert, exec_bind_of_some (exec_get s)]
  rcases h : s.insert nname value traits page with _ | t
  · exact refl s
  · have hdue : ¬¬s.Insertable nname := fun hnot => by
      rw [insert_eq_none_iff.mpr hnot] at h
      exact absurd h (by simp)
    obtain ⟨new, rfl, -⟩ := insert_eq h
    refine ⟨List.prefix_rfl, rfl, rfl, fun name symbol hsymbol hfresh => ?_, fun h => absurd h hpass⟩
    have hne : name ≠ nname := fun heq => by
      have := not_not.mp hdue symbol (heq ▸ hsymbol)
      rw [hfresh] at this
      exact absurd this (by simp)
    exact ⟨symbol, (if_neg hne).trans hsymbol, hfresh, rfl⟩

theorem defineStructLabel {fullName : Text} {isRelocatable : Bool} {value : Aint} {s : AsmState n m}
    (hpass : s.pass ≠ lastPass) :
    KeepsValues s ((AsmProgram.defineStructLabel false fullName isRelocatable value false).final s) := by
  rw [AsmProgram.defineStructLabel, final_bind_of_some (exec_modify _ s)]
  set t : AsmState n m := { s with
    flags := ⟨isRelocatable, if isRelocatable then .regular else .off⟩ } with ht
  have hst : KeepsValues s t := ⟨List.prefix_rfl, rfl, rfl,
    fun _ symbol h hfresh => ⟨symbol, h, hfresh, rfl⟩, fun _ _ => rfl⟩
  refine IsTrans.trans _ _ _ hst (final_bind_of (P := KeepsValues t) (tryInsert hpass) fun b u hu => ?_)
  exact IsTrans.trans _ _ _ hu (Keeps.ite (.pure _) (of_evaluates evaluates_error) u)

theorem insertSingleStructLabel {name : Text} {isRelocatable : Bool} {value : Aint} :
    Keeps (KeepsValues (n := n) (m := m))
      (AsmProgram.insertSingleStructLabel false name isRelocatable value false) := by
  refine .bind validateLabel fun fullName => ?_
  cases fullName with
  | none => exact .pure _
  | some fullName =>
    intro s
    rw [final_bind_of_some (exec_get s)]
    by_cases hpass : s.pass = lastPass
    · rw [if_pos hpass]
      exact checkStructLabel s
    · rw [if_neg hpass]
      exact defineStructLabel hpass

theorem insertStructSubLabels {mainName : Text} {isRelocatable : Bool} {address : Aint}
    {members : List StructureLabel} : Keeps (KeepsValues (n := n) (m := m))
      (AsmProgram.insertStructSubLabels mainName isRelocatable address false members) := by
  induction members with
  | nil => exact .pure _
  | cons member members ih => exact .bind insertSingleStructLabel fun _ => ih

/-- What calls no `Error` in all calls none in its first part. -/
theorem errorCalls {s t u : AsmState n m} (h : s.log <+: t.log) (h' : t.log <+: u.log)
    (herror : u.errorCalls = s.errorCalls) :
    t.errorCalls = s.errorCalls ∧ u.errorCalls = t.errorCalls := by
  have hst : s.errorCalls ≤ t.errorCalls := h.sublist.countP_le
  have htu : t.errorCalls ≤ u.errorCalls := h'.sublist.countP_le
  omega

end KeepsValues

/-! ### The label of a field -/

theorem getLabelValue_eq (env : ExprEnv) :
    getLabelValue env = getLabel env.labels >>= fun use => match use with
      | .invalidName => fail
      | .missing => pure 0
      | .found entry => pure (entry.value + labelOffset env entry.isRelocatable) := rfl

/-- A look-up without an error finds a label. -/
theorem lookup_of_getLabelValue {s : AsmState n m} {name : Text} {value : Aint}
    (hval : (getLabelValue (s.exprEnv true) name).val = some value)
    (hlog : (getLabelValue (s.exprEnv true) name).log.countP Event.isErrorCall = 0) :
    s.lookup name = some value := by
  rw [getLabelValue_eq, show (s.exprEnv true).labels = s.labelEnv from rfl] at hval hlog
  rcases hget : getLabel s.labelEnv name with ⟨use, rest, l⟩
  -- without an entry the look-up would have failed or reported an error
  rcases hentry : labelEntry s.labelEnv name with _ | entry
  · exfalso
    rcases getLabel_of_labelEntry_none hentry rfl with hinvalid | herror
    · rw [hget] at hinvalid
      obtain rfl : use = some .invalidName := hinvalid
      rw [bind_some hget] at hval
      exact absurd hval (by simp)
    · rcases use with _ | use
      · rw [bind_none hget] at hval
        exact absurd hval (by simp)
      · rw [bind_some hget] at hlog
        rw [hget] at herror
        have hpos : 0 < l.countP Event.isErrorCall := herror
        change (l ++ _).countP Event.isErrorCall = 0 at hlog
        rw [List.countP_append] at hlog
        omega
  · obtain ⟨l', hfound⟩ := getLabel_of_labelEntry hentry
    have hoff : labelOffset (s.exprEnv true) entry.isRelocatable = 0 := rfl
    rw [bind_some hfound] at hval
    have hvalue : entry.value + labelOffset (s.exprEnv true) entry.isRelocatable = value :=
      Option.some.inj hval
    rw [hoff, add_zero] at hvalue
    rw [AsmState.lookup, hentry, Option.map_some, hvalue]

/-- The label of a field has the value: this pass has inserted it, or the last pass finds it. -/
def Settled (name : Text) (value : Aint) (s : AsmState n m) : Prop :=
  (s.pass = lastPass ∧ s.lookup name = some value) ∨
    ∃ fullName symbol, (Sjasmplus.validateLabel s.scope false false name).1 = some fullName ∧
      s.symbols fullName = some symbol ∧ s.needsUpdate symbol = false ∧ symbol.value = value

namespace Settled

variable {name : Text} {value : Aint}

/-- A look-up finds a label that is settled. -/
theorem lookup {s : AsmState n m} (h : Settled name value s) : s.lookup name = some value := by
  rcases h with ⟨-, h⟩ | ⟨fullName, symbol, hvalid, hsymbol, hfresh, hvalue⟩
  · exact h
  · have hpage : symbol.page ≠ labelPageUndefined := fun hpage => by
      simp [needsUpdate, hpage] at hfresh
    have hfind : s.find fullName = some symbol := by
      rw [AsmState.find, hsymbol, Option.filter_some, if_pos (decide_eq_true hpage)]
    obtain ⟨names, hnames⟩ := searchNames_head s.scope name fullName
    rw [s.lookup_eq, validateLabel_ignore hvalid, Option.bind_some, hnames, List.findSome?_cons, hfind,
      Option.map_some, hvalue]

/-- The labels that follow leave it settled. -/
theorem of_keepsValues {s t : AsmState n m} (h : KeepsValues s t) (hs : Settled name value s) :
    Settled name value t := by
  rcases hs with ⟨hpass, hlookup⟩ | ⟨fullName, symbol, hvalid, hsymbol, hfresh, hvalue⟩
  · refine .inl ⟨h.pass.trans hpass, ?_⟩
    rw [t.lookup_eq, h.scope, ← hlookup, s.lookup_eq]
    simp only [h.last hpass]
  · obtain ⟨symbol', hsymbol', hfresh', hvalue'⟩ := h.fresh fullName symbol hsymbol hfresh
    exact .inr ⟨fullName, symbol', h.scope ▸ hvalid, hsymbol', hfresh', hvalue'.trans hvalue⟩

end Settled

/-- What `GetLabelValue` finds, and what it adds to the messages. -/
theorem exec_labelValue (name : Text) (s : AsmState n m) :
    ∃ t, (labelValue name).exec s = (some (getLabelValue (s.exprEnv true) name).val, t) ∧
      KeepsValues s t ∧ t.log = s.log ++ (getLabelValue (s.exprEnv true) name).log := by
  exact ⟨(labelValue name).final s, rfl, KeepsValues.labelValue s, rfl⟩

/-- A label that is inserted has its value, and this pass inserts it once only. -/
theorem AsmState.insert_fresh {s t : AsmState n m} {name : Text} {value : Aint} {traits : Traits}
    {page : Page} (h : s.insert name value traits page = some t)
    (hundef : traits.isUndefined = false) (hdefl : traits.isDefl = false) :
    ∃ symbol, t = s.setSymbol name symbol ∧ symbol.value = value ∧
      s.needsUpdate symbol = false := by
  have hpage := s.insertPage_ne value traits page
  unfold insert at h
  rcases hlabel : s.symbols name with _ | label
  · rw [hlabel] at h
    refine ⟨_, (Option.some.inj h).symm, rfl, ?_⟩
    simp [needsUpdate, hundef, hdefl, hpage]
  · simp only [hlabel] at h
    split_ifs at h
    refine ⟨_, (Option.some.inj h).symm, rfl, ?_⟩
    simp [needsUpdate, hdefl, hpage]

@[simp] theorem AsmState.errorCalls_error (s : AsmState n m) (message : String)
    (badValueMessage : Option Text) (type : EStatus) :
    (Program.final (error message badValueMessage type) s).errorCalls = s.errorCalls + 1 :=
  List.countP_append

/-- **Inserting the label of a field without an error settles its value.** -/
theorem ensures_insertSingleStructLabel {name : Text} {isRelocatable : Bool} {value : Aint}
    (s : AsmState n m)
    (hname : (Sjasmplus.validateLabel s.scope false false name).1.isSome = true) :
    Ensures (insertSingleStructLabel false name isRelocatable value false) s fun _ t =>
      t.errorCalls = s.errorCalls → Settled name value t := by
  obtain ⟨fullName, hvalid⟩ := Option.isSome_iff_exists.mp hname
  have hfirst : KeepsValues s ((AsmProgram.validateLabel name false false).final s) :=
    KeepsValues.validateLabel s
  have hexec := exec_validateLabel name false false s
  rw [hvalid] at hexec
  generalize (AsmProgram.validateLabel name false false).final s = t at hfirst hexec
  refine .bind (.of_exec hexec (Q := fun o u => o = some fullName ∧ u = t) ⟨rfl, rfl⟩) fun o u hu => ?_
  obtain ⟨rfl, rfl⟩ := hu
  rw [← hfirst.scope] at hvalid
  refine .get_bind (.ite (fun hpass => ?_) fun hpass => ?_)
  · -- the last pass compares
    obtain ⟨v, hv, hkeeps, hlog⟩ := exec_labelValue name u
    refine .bind (.of_exec hv (Q := fun o w => o = (getLabelValue (u.exprEnv true) name).val ∧ w = v)
      ⟨rfl, rfl⟩) fun o w hw => ?_
    obtain ⟨rfl, rfl⟩ := hw
    rcases hval : (getLabelValue (u.exprEnv true) name).val with _ | oval
    · exact .after fun _ _ => .exit
    -- another value is an error, so that without one the values agree
    · refine .when (fun hne => ?_) fun heq hcalls => ?_
      · refine .of_exec rfl fun hcalls => ?_
        have hcalls : w.errorCalls + 1 = s.errorCalls := (w.errorCalls_error _ _ _).symm.trans hcalls
        have hle : s.errorCalls ≤ w.errorCalls := (hfirst.log.trans hkeeps.log).sublist.countP_le
        omega
      · refine .inl ⟨hkeeps.pass.trans hpass, ?_⟩
        have hlookup : u.lookup name = some oval := by
          refine lookup_of_getLabelValue hval ?_
          have hboth := KeepsValues.errorCalls hfirst.log hkeeps.log hcalls
          have hadded : w.errorCalls = u.errorCalls +
            (getLabelValue (u.exprEnv true) name).log.countP Event.isErrorCall := by
            rw [AsmState.errorCalls, hlog, List.countP_append]
            rfl
          omega
        rw [w.lookup_eq, hkeeps.scope, not_ne_iff.mp heq, ← hlookup, u.lookup_eq]
        simp only [hkeeps.last hpass]
  · -- an earlier pass inserts
    refine .bind (.of_exec (exec_modify _ u) (Q := fun _ w => w.scope = u.scope ∧
      w.errorCalls = u.errorCalls) ⟨rfl, rfl⟩) fun _ w hw => ?_
    -- a name that is taken is an error; else the label is inserted with its value
    rcases hinsert : w.insert fullName value (structTraits isRelocatable false) labelPageUndefined
      with _ | v
    · have hexec : (tryInsert fullName value (structTraits isRelocatable false)
          labelPageUndefined).exec w = (some false, w) := by
        rw [AsmProgram.tryInsert, exec_bind_of_some (exec_get w), hinsert]
        rfl
      refine .bind (.of_exec hexec (Q := fun b x => b = false ∧ x = w) ⟨rfl, rfl⟩) fun b x hx => ?_
      obtain ⟨rfl, rfl⟩ := hx
      refine .of_exec rfl fun hcalls => ?_
      have hcalls : x.errorCalls + 1 = s.errorCalls := (x.errorCalls_error _ _ _).symm.trans hcalls
      have hle : s.errorCalls ≤ u.errorCalls := hfirst.log.sublist.countP_le
      omega
    · obtain ⟨symbol, rfl, hvalue, hfresh⟩ := AsmState.insert_fresh hinsert rfl rfl
      have hexec : (tryInsert fullName value (structTraits isRelocatable false)
          labelPageUndefined).exec w = (some true, w.setSymbol fullName symbol) := by
        rw [AsmProgram.tryInsert, exec_bind_of_some (exec_get w), hinsert]
        rfl
      refine .bind (.of_exec hexec (Q := fun b x => b = true ∧ x = w.setSymbol fullName symbol)
        ⟨rfl, rfl⟩) fun b x hx => ?_
      obtain ⟨rfl, rfl⟩ := hx
      refine .pure fun _ => .inr ⟨fullName, symbol, ?_, if_pos rfl, hfresh, hvalue⟩
      rw [← hvalid, ← hw.1]
      rfl

/-! ### Instances -/

/-- Every field label of an instance is settled, unless there is an error. -/
theorem ensures_insertStructSubLabels {mainName : Text} {isRelocatable : Bool} {address : Aint}
    {members : List StructureLabel} (s : AsmState n m) :
    Ensures (insertStructSubLabels mainName isRelocatable address false members) s fun _ t =>
      t.errorCalls = s.errorCalls → ∀ member ∈ members,
        (Sjasmplus.validateLabel s.scope false false (nestedName mainName member.naam)).1.isSome = true →
          Settled (nestedName mainName member.naam) (member.offset + address) t := by
  -- by induction on the labels: a settled one stays so while the others are inserted
  induction members generalizing s with
  | nil => exact .pure fun _ member hmember => absurd hmember List.not_mem_nil
  | cons first members ih =>
    have hfirst : Ensures (insertSingleStructLabel false (nestedName mainName first.naam) isRelocatable
        (first.offset + address) false) s fun _ u => KeepsValues s u ∧ (u.errorCalls = s.errorCalls →
          (Sjasmplus.validateLabel s.scope false false (nestedName mainName first.naam)).1.isSome = true →
            Settled (nestedName mainName first.naam) (first.offset + address) u) := by
      intro a u hexec
      refine ⟨?_, fun hcalls hname => ensures_insertSingleStructLabel s hname a u hexec hcalls⟩
      exact Ensures.of_keeps KeepsValues.insertSingleStructLabel a u hexec
    refine .bind hfirst fun _ u hu => ?_
    refine ((ih u).and (.of_keeps KeepsValues.insertStructSubLabels)).mono fun _ t ht hcalls => ?_
    obtain ⟨hrest, hkeeps⟩ := ht
    obtain ⟨hcalls, hcalls'⟩ := KeepsValues.errorCalls hu.1.log hkeeps.log hcalls
    intro member hmember hname
    rcases List.mem_cons.mp hmember with rfl | hmember
    · exact (hu.2 hcalls hname).of_keepsValues hkeeps
    · exact hrest hcalls' member hmember (hu.1.scope ▸ hname)

/-- The address of an instance: the designed one, or the current one. -/
def instanceAddress (s : AsmState n m) (address : Aint) : Aint :=
  if address = noDesignedAddress then BitVec.ofInt 32 s.curAddress else address

/-- The labels of an instance at an address. -/
theorem ensures_emitlab {st : Structure} {label : Text} {address : Aint} {isRelocatable : Bool}
    (s : AsmState n m) :
    Ensures (emitlab st label address isRelocatable) s fun _ t => t.errorCalls = s.errorCalls →
      ∀ np ∈ st.labels, (Sjasmplus.validateLabel (instanceScope s.scope label) false false
          (nestedName label np.naam)).1.isSome = true →
        t.lookup (nestedName label np.naam) = some (address + np.offset) := by
  have hwarn : Ensures (warnMisaligned st address) s fun _ t => s.log <+: t.log ∧ t.scope = s.scope :=
    (Ensures.of_keeps (R := Evaluates) (.when evaluates_warning)).mono fun _ _ h =>
      ⟨h.mode.log, h.scope⟩
  refine .bind hwarn fun _ t ht => ?_
  -- the label of the instance itself may become the main label
  have hmain : Ensures (insertSingleStructLabel true label isRelocatable address false) t fun _ u =>
      t.log <+: u.log ∧ u.scope = instanceScope t.scope label := by
    intro a u hexec
    obtain rfl : (insertSingleStructLabel true label isRelocatable address false).final t = u := by
      rw [final, hexec]
    exact ⟨(KeepsTable.insertSingleStructLabel t).log, SameScope.insertMainLabel label _ _ t⟩
  refine .bind hmain fun _ u hu => ?_
  refine .bind ((ensures_insertStructSubLabels u).and (.of_keeps KeepsValues.insertStructSubLabels))
    fun _ v hv => ?_
  refine (Ensures.of_keeps KeepsValues.setSize).mono fun _ w hw hcalls np hnp hname => ?_
  have hsv : s.log <+: v.log := ht.1.trans (hu.1.trans hv.2.log)
  have hv' := (KeepsValues.errorCalls hsv hw.log hcalls).1
  have huv := (KeepsValues.errorCalls (ht.1.trans hu.1) hv.2.log hv').2
  have hscope : u.scope = instanceScope s.scope label := hu.2.trans (by rw [ht.2])
  have hsettled := hv.1 huv np hnp (hscope ▸ hname)
  rw [add_comm address]
  exact (hsettled.of_keepsValues hw).lookup

/-- **An instance gives every field label the address of the instance and the offset.** -/
theorem ensures_emitLabels {st : Structure} {label : Text} {address : Aint} (s : AsmState n m) :
    Ensures (emitLabels st label address) s fun _ t => t.errorCalls = s.errorCalls →
      ∀ np ∈ st.labels, (Sjasmplus.validateLabel (instanceScope s.scope label) false false
          (nestedName label np.naam)).1.isSome = true →
        t.lookup (nestedName label np.naam) = some (instanceAddress s address + np.offset) :=
  .get_bind (ensures_emitlab s)

/-! ### Definitions and instances -/

/-- A source line that `ReplaceDefine` leaves as it is. -/
def plainLine (p : String) : SourceLine := ⟨p.toList, p.toList⟩

/-- The lines of a point with two bytes. -/
def pointLines : List SourceLine := ["x BYTE 0", "y BYTE 0", " ENDS"].map plainLine

/-- The lines of a box with two points, one of them behind an alignment and a block. -/
def boxLines : List SourceLine :=
  ["a P", " ALIGN 4", "c WORD 0", " BLOCK 3,1", "b P \x7b1,", "2\x7d", "d TEXT 2", " ENDS"].map plainLine

/-- In front of the definition of the point. -/
def pointStart : AsmState 0 0 := (AsmState.start 0 0).initPass.atText "P".toList pointLines

/-- In front of the definition of the box, which has an initial offset. -/
def boxStart : AsmState 0 0 := (dirSTRUCT.final pointStart).atText "B, 1".toList boxLines

/-- What the text of the box says. -/
def boxFields : Fields :=
  [.member 1, .label "a".toList, .member 0, .label "a.x".toList, .member 1, .label "a.y".toList,
    .member 1, .member 0, .member 1, .label "c".toList, .member 2, .member 3, .label "b".toList,
    .member 0, .label "b.x".toList, .member 1, .label "b.y".toList, .member 1, .member 0,
    .label "d".toList, .member 2]

end Sjasmplus
