import Sjasmplus.Statements

/-!
# What statements leave unchanged

Reading the source, evaluating expressions and emitting code never change the pass, the kind of
relocation block, the kind of displacement or the alternative offset, and they only add placeholders
to the symbol table (`Evaluates`).  Defining labels changes the symbol table and the scope too, but
still none of the former (`SameMode`).  Both are preorders, so they pass through programs by the rules
of `Program.Keeps`.
-/

namespace Sjasmplus

open Parsing ParseFn Program

variable {n m : Nat}

/-! ### Emitting -/

namespace EmitState

/-- Emitting keeps the modes and only adds messages. -/
structure SameMode (s t : EmitState n m) : Prop where
  pass : t.pass = s.pass
  pseudoORG : t.pseudoORG = s.pseudoORG
  dispPageNum : t.dispPageNum = s.dispPageNum
  relocationType : t.relocationType = s.relocationType
  log : s.log <+: t.log

theorem SameMode.refl (s : EmitState n m) : SameMode s s := ⟨rfl, rfl, rfl, rfl, List.prefix_rfl⟩

theorem SameMode.trans {s t u : EmitState n m} (h : SameMode s t) (h' : SameMode t u) :
    SameMode s u where
  pass := h'.pass.trans h.pass
  pseudoORG := h'.pseudoORG.trans h.pseudoORG
  dispPageNum := h'.dispPageNum.trans h.dispPageNum
  relocationType := h'.relocationType.trans h.relocationType
  log := h.log.trans h'.log

/-- Only the addresses, the device and the log change. -/
theorem SameMode.of_log {s t : EmitState n m} (hpass : t.pass = s.pass)
    (hmode : t.pseudoORG = s.pseudoORG) (hdisp : t.dispPageNum = s.dispPageNum)
    (hrel : t.relocationType = s.relocationType) {l : List Event} (hlog : t.log = s.log ++ l) :
    SameMode s t :=
  ⟨hpass, hmode, hdisp, hrel, hlog ▸ List.prefix_append _ _⟩

/-- A step that changes none of these and reports nothing. -/
theorem SameMode.of_same {s t : EmitState n m} (hpass : t.pass = s.pass)
    (hmode : t.pseudoORG = s.pseudoORG) (hdisp : t.dispPageNum = s.dispPageNum)
    (hrel : t.relocationType = s.relocationType) (hlog : t.log = s.log) : SameMode s t :=
  .of_log hpass hmode hdisp hrel (hlog.trans (List.append_nil _).symm)

/-- The check of the limit only adds warnings, and remembers that it did. -/
theorem sameMode_checkRamLimitExceeded (s : EmitState n m) :
    SameMode s s.checkRamLimitExceeded := by
  -- the limit of `CurAddress` and the one of `adrdisp` are reported each for itself
  have hcur : SameMode s s.checkCurAddress := by
    unfold checkCurAddress
    by_cases h : 0x10000 ≤ s.curAddress
    · rw [if_pos h]
      exact .of_log rfl rfl rfl rfl rfl
    · rw [if_neg h]
      exact .of_same rfl rfl rfl rfl rfl
  have hdisp : ∀ t : EmitState n m, SameMode t t.checkAdrdisp := by
    intro t
    unfold checkAdrdisp
    by_cases h : t.displaced ∧ 0x10000 ≤ t.adrdisp
    · rw [if_pos h]
      exact .of_log rfl rfl rfl rfl rfl
    · rw [if_neg h]
      exact .of_same rfl rfl rfl rfl rfl
  unfold checkRamLimitExceeded
  split_ifs
  · exact .refl s
  · exact hcur.trans (hdisp _)

/-- The next page may be mapped, or an error reported, but the modes stay. -/
theorem sameMode_checkPage (level : CheckPageLevel) (device : Device n m) (s : EmitState n m) :
    SameMode s (s.checkPage level device) := by
  have hwrap : SameMode s (s.wrapDisplaced level) := by
    unfold wrapDisplaced
    split_ifs
    · exact .of_log rfl rfl rfl rfl rfl
    · exact .refl s
  exact hwrap.trans (.of_log rfl rfl rfl rfl rfl)

theorem sameMode_prepareLine (s : EmitState n m) : SameMode s s.prepareLine := by
  unfold prepareLine
  split
  · exact sameMode_checkPage _ _ s
  · exact .refl s

theorem sameMode_advance (len : Int) (s : EmitState n m) : SameMode s (s.advance len) :=
  .of_same rfl rfl rfl rfl rfl

/-- Behind a byte only the addresses, the memory and the output have changed. -/
theorem sameMode_emitByteNoListing (byte : Byte) (preserveDeviceMemory : Bool) (s : EmitState n m) :
    SameMode s (s.emitByteNoListing byte preserveDeviceMemory) := by
  have hplace : ∀ t : EmitState n m, SameMode t (t.placeByte byte preserveDeviceMemory) := by
    intro t
    unfold placeByte
    split
    · rename_i device _
      exact (sameMode_checkPage .emit device t).trans
        (.of_same rfl rfl rfl rfl rfl)
    · exact sameMode_checkRamLimitExceeded t
  have houtput : SameMode s
      (if s.pass = lastPass then { s with output := s.output ++ [byte] } else s) := by
    split_ifs
    · exact .of_same rfl rfl rfl rfl rfl
    · exact .refl s
  exact houtput.trans ((hplace _).trans (sameMode_advance 1 _))

theorem sameMode_emitByte (byte : Aint) (s : EmitState n m) : SameMode s (s.emitByte byte) :=
  sameMode_emitByteNoListing _ _ s

theorem sameMode_emitWord (word : Aint) (s : EmitState n m) : SameMode s (s.emitWord word) :=
  (sameMode_emitByte _ s).trans (sameMode_emitByte _ _)

theorem sameMode_emitWords (words : List Aint) (s : EmitState n m) :
    SameMode s (s.emitWords words) := by
  unfold emitWords
  induction words generalizing s with
  | nil => exact .refl s
  | cons word words ih => exact (sameMode_emitWord word s).trans (ih _)

/-- A block is a row of bytes, one check in front of each. -/
theorem sameMode_emitBlock (byte : Aint) (len : Int) (preserveDeviceMemory : Bool)
    (s : EmitState n m) : SameMode s (s.emitBlock byte len preserveDeviceMemory) := by
  unfold emitBlock
  split_ifs
  · refine (sameMode_advance len s).trans ?_
    dsimp only
    split
    · exact sameMode_checkPage _ _ _
    · exact sameMode_checkRamLimitExceeded _
  · generalize len.toNat = k
    induction k generalizing s with
    | zero => exact .refl s
    | succ k ih =>
      rw [Function.iterate_succ_apply]
      exact (sameMode_emitByteNoListing _ _ s).trans (ih _)

/-- `DISP` reports an error or a warning, or it opens the displacement. -/
theorem dirDISP_cases (s : EmitState n m) (valAdr : Option Aint) (isResultAffected : Bool)
    (valPageNum : Option (Option Aint)) :
    (∃ l, s.dirDISP valAdr isResultAffected valPageNum = s.report l) ∨
      ∃ adr page, s.dirDISP valAdr isResultAffected valPageNum = s.enterDisplacement adr page := by
  unfold dirDISP
  -- the checks of the source: a nested `DISP`, no address, an undefined one, a bad page
  by_cases hdisplaced : s.displaced
  · rw [if_pos hdisplaced]
    exact .inl ⟨_, rfl⟩
  · rw [if_neg hdisplaced]
    rcases valAdr with _ | valAdr
    · exact .inl ⟨_, rfl⟩
    · dsimp only
      by_cases haffected : isResultAffected = true
      · rw [if_pos haffected]
        exact .inl ⟨_, rfl⟩
      · rw [if_neg haffected]
        rcases valPageNum with _ | _ | valPageNum
        · exact .inr ⟨_, _, rfl⟩
        · exact .inl ⟨_, rfl⟩
        · dsimp only
          split_ifs
          · exact .inl ⟨_, rfl⟩
          · exact .inl ⟨_, rfl⟩
          · exact .inr ⟨_, _, rfl⟩

/-- `ENT` reports an error, or it closes the displacement. -/
theorem dirENT_cases (s : EmitState n m) : (∃ l, s.dirENT = s.report l) ∨
    s.dirENT = { s with
      curAddress := s.adrdisp, pseudoORG := .none, dispPageNum := labelPageUndefined } := by
  unfold dirENT
  split_ifs
  · exact .inl ⟨_, rfl⟩
  · exact .inl ⟨_, rfl⟩
  · exact .inl ⟨_, rfl⟩
  · exact .inr rfl

end EmitState

/-! ### Evaluating -/

namespace AsmState

/-- What evaluating and emitting leave as it is. -/
structure Evaluates (s t : AsmState n m) : Prop where
  mode : EmitState.SameMode s.toEmitState t.toEmitState
  alternativeOffset : t.alternativeOffset = s.alternativeOffset
  scope : t.scope = s.scope
  labels : t.labels = s.labels
  nextPassLabels : t.nextPassLabels = s.nextPassLabels
  structures : t.structures = s.structures
  symbols : ∀ name symbol, s.symbols name = some symbol → t.symbols name = some symbol
  placeholders : ∀ name symbol, s.symbols name = none → t.symbols name = some symbol →
    symbol.page = labelPageUndefined

/-- A step that reads no label and changes no table, and may map pages and add messages. -/
theorem Evaluates.of_symbols {s t : AsmState n m}
    (hmode : EmitState.SameMode s.toEmitState t.toEmitState)
    (halt : t.alternativeOffset = s.alternativeOffset) (hscope : t.scope = s.scope)
    (hlabels : t.labels = s.labels) (hnext : t.nextPassLabels = s.nextPassLabels)
    (hstructures : t.structures = s.structures) (hsymbols : t.symbols = s.symbols) :
    Evaluates s t where
  mode := hmode
  alternativeOffset := halt
  scope := hscope
  labels := hlabels
  nextPassLabels := hnext
  structures := hstructures
  symbols name symbol h := (congrFun hsymbols name).trans h
  placeholders name symbol hnone hsome := by
    rw [hsymbols, hnone] at hsome
    exact absurd hsome (by simp)

theorem Evaluates.refl (s : AsmState n m) : Evaluates s s :=
  .of_symbols (.refl _) rfl rfl rfl rfl rfl rfl

theorem Evaluates.trans {s t u : AsmState n m} (h : Evaluates s t) (h' : Evaluates t u) :
    Evaluates s u where
  mode := h.mode.trans h'.mode
  alternativeOffset := h'.alternativeOffset.trans h.alternativeOffset
  scope := h'.scope.trans h.scope
  labels := h'.labels.trans h.labels
  nextPassLabels := h'.nextPassLabels.trans h.nextPassLabels
  structures := h'.structures.trans h.structures
  symbols name symbol hs := h'.symbols name symbol (h.symbols name symbol hs)
  placeholders name symbol hnone hsome := by
    rcases hmid : t.symbols name with _ | found
    · exact h'.placeholders name symbol hmid hsome
    · have hkept := h'.symbols name found hmid
      rw [hsome] at hkept
      rw [Option.some.inj hkept]
      exact h.placeholders name found hnone hmid

instance : Std.Refl (Evaluates (n := n) (m := m)) := ⟨Evaluates.refl⟩

instance : IsTrans (AsmState n m) Evaluates := ⟨fun _ _ _ => Evaluates.trans⟩

/-- What all statements leave as it is except for the directives of relocation and displacement. -/
structure SameMode (s t : AsmState n m) : Prop where
  pass : t.pass = s.pass
  relocationType : t.relocationType = s.relocationType
  pseudoORG : t.pseudoORG = s.pseudoORG
  alternativeOffset : t.alternativeOffset = s.alternativeOffset

theorem SameMode.refl (s : AsmState n m) : SameMode s s := ⟨rfl, rfl, rfl, rfl⟩

theorem SameMode.trans {s t u : AsmState n m} (h : SameMode s t) (h' : SameMode t u) :
    SameMode s u :=
  ⟨h'.pass.trans h.pass, h'.relocationType.trans h.relocationType,
    h'.pseudoORG.trans h.pseudoORG, h'.alternativeOffset.trans h.alternativeOffset⟩

instance : Std.Refl (SameMode (n := n) (m := m)) := ⟨SameMode.refl⟩

instance : IsTrans (AsmState n m) SameMode := ⟨fun _ _ _ => SameMode.trans⟩

/-- An evaluation is one of the steps that keep the modes. -/
theorem Evaluates.sameMode {s t : AsmState n m} (h : Evaluates s t) : SameMode s t :=
  ⟨h.mode.pass, h.mode.relocationType, h.mode.pseudoORG, h.alternativeOffset⟩

/-- The page of an address is never that of an undefined label. -/
theorem getAddressPageNumber_ne (s : AsmState n m) (address : Aint) (force : Bool) :
    s.getAddressPageNumber address force ≠ labelPageUndefined := by
  have hpage : ∀ page : Nat, (page : Page) ≠ labelPageUndefined := fun page => by
    show ((page : Int) ≠ -1)
    omega
  have hdevice : ∀ device : Device n m, device.getPageOfA16 address.toInt ≠ labelPageUndefined := by
    intro device
    unfold Device.getPageOfA16
    cases device.getSlotOfA16 address.toInt with
    | none => exact show labelPageOutOfBounds ≠ labelPageUndefined by decide
    | some i => exact hpage _
  unfold getAddressPageNumber
  -- without a device the page is the one of a ROM; else that of the slot, or out of bounds
  cases s.device with
  | none => exact show labelPageRom ≠ labelPageUndefined by decide
  | some device =>
    dsimp only
    split_ifs with _ h
    · exact hpage _
    · exact h.2
    · exact hdevice device

/-- Nor is the page that `Insert` gives to a label. -/
theorem insertPage_ne (s : AsmState n m) (nvalue : Aint) (traits : Traits) (page : Page) :
    s.insertPage nvalue traits page ≠ labelPageUndefined := by
  unfold insertPage
  split_ifs with h
  · exact h.2
  · exact s.getAddressPageNumber_ne _ _

/-- Inserting a label changes nothing but the symbol table. -/
theorem insert_eq {s t : AsmState n m} {name : Text} {value : Aint} {traits : Traits} {page : Page}
    (h : s.insert name value traits page = some t) :
    ∃ symbol, t = s.setSymbol name symbol ∧
      (symbol.isRelocatable = if (s.symbols name).isNone && traits.isUndefined then .off
        else s.insertDeltaType traits) ∧
      (s.symbols name = none → traits.isUndefined = true → traits.isEqu = false →
        symbol.page = labelPageUndefined) := by
  unfold insert at h
  -- a known name may only be redefined, a new one may be a placeholder with no page
  split at h
  · rename_i label hlabel
    split_ifs at h
    obtain rfl := Option.some.inj h
    refine ⟨_, rfl, by rw [hlabel]; rfl, fun hnone => ?_⟩
    rw [hnone] at hlabel
    exact absurd hlabel (by simp)
  · rename_i hlabel
    obtain rfl := Option.some.inj h
    refine ⟨_, rfl, by rw [hlabel]; rfl, fun _ hundef hequ => ?_⟩
    simp only [hundef, hequ, Bool.false_and, Bool.not_false, Bool.and_self, if_true]

/-- A look-up adds a placeholder at most. -/
theorem evaluates_noteLookup (s : AsmState n m) (e : Event) : Evaluates s (s.noteLookup e) := by
  unfold noteLookup
  split
  · rename_i findName placeholder
    -- a label that is not found is noted in every case
    have hfound : Evaluates s { s with isLabelNotFound := true } :=
      .of_symbols (.refl _) rfl rfl rfl rfl rfl rfl
    dsimp only
    split_ifs with h
    · have hnone : s.symbols findName = none :=
        Option.isNone_iff_eq_none.mp ((Bool.and_eq_true _ _).mp h).2
      have hu : ({ s with isLabelNotFound := true } : AsmState n m).symbols = s.symbols := rfl
      -- the placeholder goes in under a name that has no label yet, so that no label changes
      generalize { s with isLabelNotFound := true } = u at hfound hu ⊢
      rcases hins : u.insert findName 0 { isUndefined := true } with _ | t
      · exact hfound
      · refine hfound.trans ?_
        have hnone : u.symbols findName = none := hu ▸ hnone
        obtain ⟨symbol, rfl, -, hpage⟩ := insert_eq hins
        refine ⟨.refl _, rfl, rfl, rfl, rfl, rfl, fun name old hold => ?_, fun name new _ hnew => ?_⟩
        -- an old label has another name than the placeholder
        · have hne : name ≠ findName := by
            rintro rfl
            rw [hnone] at hold
            exact absurd hold (by simp)
          exact (if_neg hne).trans hold
        -- a new label is the placeholder, whose page is undefined
        · have hnew : (if name = findName then some symbol else u.symbols name) = some new := hnew
          split_ifs at hnew with heq
          · rw [← Option.some.inj hnew]
            exact hpage hnone rfl rfl
          · simp_all
    · exact hfound
  · exact .refl s

end AsmState

/-! ### Programs that evaluate -/

namespace AsmState

/-- What evaluating must not touch. -/
def fixedPart (s : AsmState n m) : EmitState n m × Aint × LabelScope × List TemporaryLabel ×
    List TemporaryLabel × List Structure × (Text → Option Symbol) :=
  (s.toEmitState, s.alternativeOffset, s.scope, s.labels, s.nextPassLabels, s.structures, s.symbols)

/-- A relation that reading the source and evaluating keep: one that allows new messages, look-ups
that are noted, a line that is prepared, and changes behind the fixed part. -/
class ReadingKeeps (R : AsmState n m → AsmState n m → Prop) : Prop extends
    Std.Refl R, IsTrans (AsmState n m) R where
  of_fixedPart : ∀ s t, fixedPart t = fixedPart s → R s t
  log : ∀ s l, R s { s with log := s.log ++ l }
  noteLookup : ∀ s e, R s (s.noteLookup e)
  prepareLine : ∀ s, R s { s with toEmitState := s.prepareLine }

instance : ReadingKeeps (Evaluates (n := n) (m := m)) where
  of_fixedPart s t h := by
    simp only [fixedPart, Prod.mk.injEq] at h
    obtain ⟨hemit, halt, hscope, hlabels, hnext, hstructures, hsymbols⟩ := h
    exact .of_symbols (hemit.symm ▸ .refl _) halt hscope hlabels hnext hstructures hsymbols
  log _ _ := .of_symbols (.of_log rfl rfl rfl rfl rfl) rfl rfl rfl rfl rfl rfl
  noteLookup := evaluates_noteLookup
  prepareLine s := .of_symbols (EmitState.sameMode_prepareLine s.toEmitState) rfl rfl rfl rfl rfl rfl

theorem toEmitState_noteLookup (s : AsmState n m) (e : Event) :
    (s.noteLookup e).toEmitState = s.toEmitState := by
  unfold noteLookup
  split
  · dsimp only
    split_ifs
    · have hemit : ({ s with isLabelNotFound := true } : AsmState n m).toEmitState
          = s.toEmitState := rfl
      generalize ({ s with isLabelNotFound := true } : AsmState n m) = u at hemit ⊢
      rcases hinsert : u.insert _ 0 { isUndefined := true } with _ | t
      · exact hemit
      · obtain ⟨symbol, rfl, -⟩ := insert_eq hinsert
        exact hemit
    · rfl
  · rfl

end AsmState

namespace AsmProgram

open AsmState

section Reading

variable {R : AsmState n m → AsmState n m → Prop} [ReadingKeeps R]

/-- Messages are only added. -/
theorem evaluates_report {l : List Event} : Keeps R (report l) := fun s => ReadingKeeps.log s l

theorem evaluates_error {message : String} {badValueMessage : Option Text} {type : EStatus} :
    Keeps R (error message badValueMessage type) :=
  evaluates_report

theorem evaluates_warning {message : String} {badValueMessage : Option Text} {type : EWStatus} :
    Keeps R (warning message badValueMessage type) :=
  evaluates_report

/-- Changes behind the fixed part. -/
theorem evaluates_modify {f : AsmState n m → AsmState n m}
    (hf : ∀ s, fixedPart (f s) = fixedPart s) : Keeps R (modify f : AsmProgram n m _) :=
  fun s => ReadingKeeps.of_fixedPart s (f s) (hf s)

/-- Text that is taken from the line changes nothing else. -/
theorem evaluates_scan {α : Type} {f : Text → α × Text} : Keeps R (scan f) :=
  fun s => ReadingKeeps.of_fixedPart s _ rfl

/-- The check of the address at the start of a line. -/
theorem evaluates_prepareLine : Keeps R (emit EmitState.prepareLine) := ReadingKeeps.prepareLine

/-- Reading and evaluating append their messages and note what was looked up. -/
theorem evaluates_of_log (s : AsmState n m) (lp : Text) (l : List Event)
    (flags : Relocation.Flags) :
    R s { l.foldl AsmState.noteLookup s with lp := lp, log := s.log ++ l, flags := flags } := by
  have hfold : ∀ (l : List Event) (s : AsmState n m), R s (l.foldl AsmState.noteLookup s) ∧
      (l.foldl AsmState.noteLookup s).log = s.log := by
    intro l
    induction l with
    | nil => exact fun s => ⟨refl s, rfl⟩
    | cons e l ih =>
      intro s
      obtain ⟨hkeeps, hlog⟩ := ih (s.noteLookup e)
      exact ⟨IsTrans.trans _ _ _ (ReadingKeeps.noteLookup s e) hkeeps,
        hlog.trans (congrArg EmitState.log (s.toEmitState_noteLookup e))⟩
  obtain ⟨hkeeps, hlog⟩ := hfold l s
  rw [← hlog]
  refine IsTrans.trans _ _ _ hkeeps (IsTrans.trans _ _ _ (ReadingKeeps.log _ l) ?_)
  exact ReadingKeeps.of_fixedPart _ _ rfl

theorem evaluates_read {α : Type} {reader : Reader α} : Keeps R (read reader) :=
  fun s => evaluates_of_log s _ _ _

/-- An expression looks labels up, which notes that they are used. -/
theorem evaluates_parseExpression {synerr : Bool} : Keeps R (parseExpression synerr) :=
  fun s => evaluates_of_log s _ _ _

theorem evaluates_parseExpressionNoSyntaxError : Keeps R parseExpressionNoSyntaxError :=
  evaluates_parseExpression

theorem evaluates_clearResultAffected :
    Keeps R clearResultAffected :=
  (evaluates_modify fun _ => rfl)

/-- Lines are read up to one that is not blank; the induction is on the lines that are left. -/
theorem evaluates_nonBlankLine {lines : List SourceLine} :
    Keeps R (nonBlankLine lines) := by
  induction lines with
  | nil => exact .bind evaluates_scan fun _ => .pure _
  | cons line lines ih =>
    exact .bind evaluates_scan fun _ => .ite
      (.bind (evaluates_modify fun _ => rfl) fun _ =>
        .bind evaluates_prepareLine fun _ => ih)
      (.pure _)

theorem evaluates_prepareNonBlankMultiLine :
    Keeps R prepareNonBlankMultiLine :=
  .get_bind fun _ => evaluates_nonBlankLine

theorem evaluates_checkAndWarn : Keeps R checkAndWarn :=
  .get_bind fun _ => .when (.bind (evaluates_modify fun _ => rfl) fun _ => evaluates_report)

/-- The relocation of an expression is checked, and its flag cleared. -/
theorem evaluates_resolveRelocationAffected {opcodeRelOffset : Option Int}
    {minType : Relocation.EType} :
    Keeps R (resolveRelocationAffected opcodeRelOffset minType) := by
  refine .get_bind fun t => .when
    (.bind (evaluates_modify fun _ => rfl) fun _ => .ite ?_ evaluates_report)
  cases opcodeRelOffset with
  | none => exact .pure _
  | some opcodeRelOffset => exact evaluates_modify fun _ => rfl

/-! ### Members of structures -/

theorem evaluates_structTextExpression {len : Nat} {data : List Byte} {ii : Nat} :
    Keeps R (structTextExpression len data ii) := by
  refine .ite (.get_bind fun _ => .bind evaluates_error fun _ => .pure _) ?_
  refine .bind evaluates_parseExpressionNoSyntaxError fun val => ?_
  cases val with
  | none => exact .get_bind fun _ => .bind evaluates_error fun _ => .pure _
  | some val => exact .bind evaluates_report fun _ => .pure _

theorem evaluates_structTextElement {len : Nat} {data : List Byte} {ii : Nat} :
    Keeps R (structTextElement len data ii) := by
  refine .get_bind fun _ => .bind evaluates_read fun o => .get_bind fun _ => ?_
  refine .ite (.ite (.bind (evaluates_modify fun _ => rfl) fun _ => evaluates_structTextExpression)
    (.pure _)) ?_
  refine .ite (.pure _) (.ite ?_ evaluates_structTextExpression)
  exact .get_bind fun _ => .bind evaluates_error fun _ => .pure _

/-- The elements of a text, as long as commas follow. -/
theorem evaluates_structTextLoop {len fuel : Nat} {data : List Byte} {ii : Nat} :
    Keeps R (structTextLoop len fuel data ii) := by
  induction fuel generalizing data ii with
  | zero => exact .pure _
  | succ fuel ih =>
    refine .bind evaluates_prepareNonBlankMultiLine fun _ => .ite ?_ (.pure _)
    refine .get_bind fun _ => .ite (.pure _) (.bind evaluates_structTextElement fun r => ?_)
    exact .ite (.bind evaluates_scan fun _ => .ite ih (.pure _)) (.pure _)

/-- The text of a member, or its default. -/
theorem evaluates_getStructText {len : Nat} {initData : Option (List Byte)} :
    Keeps R (getStructText len initData) := by
  have hend : Keeps R textEnd :=
    .bind evaluates_prepareNonBlankMultiLine fun _ => .ite evaluates_scan (.pure _)
  refine .bind evaluates_clearResultAffected fun _ => .bind evaluates_scan fun _ => .ite ?_ ?_
  · refine .get_bind fun _ => .bind evaluates_structTextLoop fun r => ?_
    refine .bind hend fun _ => .ite ?_ ?_
    · exact .bind evaluates_checkAndWarn fun _ => .pure _
    · exact .get_bind fun _ => .bind evaluates_error fun _ => .pure _
  · cases initData with
    | none => exact .get_bind fun _ => .bind evaluates_error fun _ => .pure _
    | some initData => exact .pure _

theorem evaluates_memberComma {rest : List StructureMember} :
    Keeps R (memberComma rest) := by
  cases rest with
  | nil => exact .pure _
  | cons next rest => exact .when (.bind evaluates_scan fun _ => .pure _)

/-- The braces of a nested structure are closed, with a turn behind each. -/
theorem evaluates_closeBraces {turn : AsmProgram n m Unit} (hturn : Keeps R turn)
    {haakjes : Nat} : Keeps R (closeBraces turn haakjes) := by
  induction haakjes with
  | zero => exact .pure _
  | succ haakjes ih =>
    refine .bind hturn fun _ => .bind evaluates_prepareNonBlankMultiLine fun _ => .ite ?_ (.pure _)
    exact .bind evaluates_scan fun _ => .ite ih (.pure _)

theorem evaluates_startTurn {haakjes : Nat} :
    Keeps R (startTurn haakjes) :=
  .ite evaluates_prepareNonBlankMultiLine (.pure _)

theorem evaluates_clearFlags {type : ValueType} :
    Keeps R (clearFlags type) := by
  cases type with
  | byte | word =>
    rw [clearFlags]
    exact evaluates_resolveRelocationAffected
  | d24 | dword =>
    rw [clearFlags]
    exact .pure _

theorem evaluates_copyValue {type : ValueType} {default : Aint} {defDeltaType : Relocation.EType} :
    Keeps R (copyValue type default defDeltaType) := by
  exact .bind evaluates_parseExpressionNoSyntaxError fun val => .get_bind fun _ =>
    .bind evaluates_clearFlags fun _ => .pure _

/-- The initial value of a member of a nested structure: one case for each kind of member. -/
theorem evaluates_copyMember {st : Structure} {haakjes : Nat} {rest : List StructureMember}
    {kind : MemberKind} : Keeps R (copyMember st haakjes rest kind) := by
  cases kind with
  | block len default => exact .pure _
  | value type default defDeltaType =>
    exact .bind evaluates_copyValue fun _ => .bind evaluates_memberComma fun _ => .pure _
  | text data =>
    exact .bind evaluates_getStructText fun _ => .bind evaluates_memberComma fun _ => .pure _
  | parenOpen => exact .bind evaluates_scan fun _ => .pure _
  | parenClose =>
    refine .bind evaluates_scan fun closed => ?_
    cases closed with
    | none => exact .pure _
    | some haakjes => exact .bind evaluates_memberComma fun _ => .pure _

/-- The initial values of all members. -/
theorem evaluates_copyMembers {st source : Structure} :
    Keeps R (copyMembers st source) := by
  have hloop : ∀ members st haakjes,
      Keeps R (copyMembersLoop members st haakjes) := by
    intro members
    induction members with
    | nil => exact fun st haakjes =>
        .bind (evaluates_closeBraces evaluates_clearResultAffected) fun _ => .pure _
    | cons ip rest ih =>
      intro st haakjes
      refine .bind evaluates_clearResultAffected fun _ => .bind evaluates_startTurn fun _ =>
        .ite ?_ (.pure _)
      exact .bind evaluates_copyMember fun r => .bind evaluates_checkAndWarn fun _ => ih _ _
  exact .bind evaluates_scan fun _ => .bind (hloop _ _ _) fun r =>
    .bind (.when evaluates_error) fun _ => .pure _

theorem evaluates_parseAlignArguments {bp : Text} :
    Keeps R (parseAlignArguments bp) := by
  refine .bind evaluates_scan fun _ => .get_bind fun _ => .bind evaluates_parseExpression fun o => ?_
  cases o with
  | none => exact .pure _
  | some alignment =>
    refine .get_bind fun _ => .bind (.when evaluates_report) fun _ => .ite ?_ ?_
    · exact .bind evaluates_error fun _ => .pure _
    · refine .bind evaluates_scan fun _ => .ite (.get_bind fun _ => ?_) (.pure _)
      refine .bind evaluates_read fun fill => ?_
      cases fill with
      | none => exact .bind evaluates_error fun _ => .pure _
      | some fill => exact .ite (.bind evaluates_error fun _ => .pure _) (.pure _)

theorem evaluates_blockArgument {default : Aint} :
    Keeps R (blockArgument default) := by
  refine .bind evaluates_parseExpression fun o => ?_
  cases o with
  | none => exact .bind evaluates_error fun _ => .pure _
  | some val => exact .pure _

/-- A member that is a structure, with its values. -/
theorem evaluates_parseNestedMember {st : Structure} :
    Keeps R (parseNestedMember st) := by
  refine .get_bind fun t => ?_
  rcases structureName t.lp with ⟨_ | naam, gl, pp⟩
  · exact .pure _
  · dsimp only
    cases zoek t naam gl with
    | none => exact .pure _
    | some source =>
      refine .ite (.bind evaluates_error fun _ =>
        .bind (evaluates_modify fun _ => rfl) fun _ => .pure _) ?_
      exact .bind (.when evaluates_warning) fun _ => .bind (evaluates_modify fun _ => rfl) fun _ =>
        evaluates_copyMembers

/-- A line of a structure definition, one case for each keyword. -/
theorem evaluates_parseMember {st : Structure} {bp : Text} {id : MemberId} :
    Keeps R (parseMember st bp id) := by
  cases id with
  | unknown => exact evaluates_parseNestedMember
  | align => exact .bind evaluates_parseAlignArguments fun _ => .pure _
  | block =>
    refine .bind evaluates_blockArgument fun _ => .bind evaluates_scan fun _ => .ite ?_ (.pure _)
    exact .bind evaluates_blockArgument fun _ => .bind evaluates_report fun _ => .pure _
  | text =>
    refine .bind evaluates_parseExpression fun _ => .ite ?_ (.bind evaluates_scan fun _ => .ite ?_ ?_)
    · exact .bind evaluates_error fun _ => .bind (evaluates_modify fun _ => rfl) fun _ => .pure _
    · exact .bind evaluates_getStructText fun _ => .pure _
    · exact .bind evaluates_scan fun _ => .get_bind fun _ => .bind (.when evaluates_error) fun _ =>
        .pure _
  | value type =>
    exact .bind evaluates_parseExpression fun _ => .bind evaluates_report fun _ => .get_bind fun _ =>
      .bind evaluates_clearFlags fun _ => .pure _

theorem evaluates_parseStructMember {st : Structure} :
    Keeps R (parseStructMember st) :=
  .get_bind fun _ => .bind evaluates_clearResultAffected fun _ => .bind evaluates_scan fun _ =>
    .bind evaluates_parseMember fun _ => .bind evaluates_checkAndWarn fun _ => .pure _

theorem evaluates_parseStructLabel {st : Structure} :
    Keeps R (parseStructLabel st) := by
  refine .get_bind fun _ => .bind (evaluates_modify fun _ => rfl) fun _ => .ite (.pure _) ?_
  refine .bind (evaluates_modify fun _ => rfl) fun _ =>
    .ite (.bind evaluates_error fun _ => .pure _) ?_
  exact .bind (evaluates_modify fun _ => rfl) fun _ => .pure _

/-- A label and a member, each of which may be missing. -/
theorem evaluates_parseStructLine {st : Structure} :
    Keeps R (parseStructLine st) := by
  refine .get_bind fun _ => .ite (.pure _) (.bind evaluates_parseStructLabel fun _ =>
    .bind evaluates_scan fun _ =>
    .ite (.pure _) ?_)
  refine .bind evaluates_parseStructMember fun _ => .bind evaluates_scan fun _ => .ite (.pure _) ?_
  exact .get_bind fun _ => .bind evaluates_error fun _ => .pure _

/-! ### Instances -/

/-- A value of an instance, or its default. -/
theorem evaluates_parseValue {type : ValueType} {default : Aint}
    {defDeltaType : Relocation.EType} :
    Keeps R (parseValue type default defDeltaType) := by
  have hrelocate : ∀ keep,
      Keeps R (relocateValue type defDeltaType keep) := by
    intro keep
    have hoverride : Keeps R (overrideFlags keep defDeltaType) :=
      .when (evaluates_modify fun _ => rfl)
    refine .get_bind fun _ => .ite (.pure _) (.ite ?_ (.ite ?_ evaluates_checkAndWarn)) <;>
      exact .bind hoverride fun _ => .bind evaluates_resolveRelocationAffected fun _ =>
        evaluates_checkAndWarn
  refine .bind evaluates_scan fun _ => .get_bind fun _ => .ite ?_ ?_
  · exact .bind (hrelocate _) fun _ => .pure _
  · exact .bind evaluates_parseExpressionNoSyntaxError fun _ => .bind evaluates_report fun _ =>
      .bind (hrelocate _) fun _ => .pure _

/-- The address behind `=` in the line of an instance. -/
theorem evaluates_parseDesignedAddress :
    Keeps R parseDesignedAddress := by
  refine .bind evaluates_scan fun _ => .get_bind fun _ => .ite ?_ (.pure _)
  refine .bind (evaluates_modify fun _ => rfl) fun _ =>
    .bind evaluates_parseExpressionNoSyntaxError fun o => ?_
  cases o with
  | none => exact .bind evaluates_error fun _ => .pure _
  | some resultAdr => exact .pure _

/-- The value of a label that is defined by `=`, `EQU` or `DEFL`. -/
theorem evaluates_definition {isDEFL isEQU : Bool} :
    Keeps R (definition isDEFL isEQU) := by
  have hvalue : Keeps R definedValue := by
    refine .bind evaluates_parseExpressionNoSyntaxError fun o => ?_
    cases o with
    | none => exact .get_bind fun _ => .bind evaluates_error fun _ => .pure _
    | some val => exact .pure _
  have hpage : Keeps R pageArgument := by
    refine .bind evaluates_scan fun _ => .ite ?_ (.pure _)
    refine .bind evaluates_parseExpressionNoSyntaxError fun o => ?_
    cases o with
    | none => exact .get_bind fun _ => .bind evaluates_error fun _ => .pure _
    | some val => exact .pure _
  refine .bind evaluates_clearResultAffected fun _ => .bind hvalue fun _ => .get_bind fun _ =>
    .bind (.when evaluates_error) fun _ => .bind (.ite hpage (.pure _)) fun _ => ?_
  exact .bind evaluates_scan fun _ => .bind (.when (.get_bind fun _ => .bind evaluates_error fun _ =>
    (evaluates_modify fun _ => rfl))) fun _ => .pure _

end Reading

/-! ### Emitting -/

/-- What is emitted keeps the modes, and so the symbols. -/
theorem evaluates_emit {f : EmitState n m → EmitState n m}
    (hf : ∀ s, EmitState.SameMode s (f s)) : Keeps Evaluates (emit f) :=
  fun s => .of_symbols (hf s.toEmitState) rfl rfl rfl rfl rfl rfl

theorem evaluates_emitValue {type : ValueType} {val : Aint} :
    Keeps (Evaluates (n := n) (m := m)) (emitValue type val) := by
  have hbyte : ∀ val, Keeps (Evaluates (n := n) (m := m)) (emitByte val) := fun val =>
    evaluates_emit (EmitState.sameMode_emitByte val)
  have hword : ∀ val, Keeps (Evaluates (n := n) (m := m)) (emitWord val) := fun val =>
    evaluates_emit (EmitState.sameMode_emitWord val)
  cases type with
  | byte => exact hbyte val
  | word => exact hword val
  | d24 => exact .bind (hbyte _) fun _ => hword _
  | dword => exact .bind (hword _) fun _ => hword _

theorem evaluates_emitText {bytes : List Byte} :
    Keeps (Evaluates (n := n) (m := m)) (emitText bytes) := by
  induction bytes with
  | nil => exact .pure _
  | cons byte bytes ih =>
    exact .bind (evaluates_emit (EmitState.sameMode_emitByte _)) fun _ => ih

/-- A member of an instance: its value is read, and its bytes are emitted. -/
theorem evaluates_emitMember {haakjes : Nat} {rest : List StructureMember} {kind : MemberKind} :
    Keeps (Evaluates (n := n) (m := m)) (emitMember haakjes rest kind) := by
  cases kind with
  | block len default =>
    exact .bind (evaluates_emit (EmitState.sameMode_emitBlock _ _ _)) fun _ => .pure _
  | value type default defDeltaType =>
    exact .bind evaluates_parseValue fun _ => .bind evaluates_emitValue fun _ =>
      .bind evaluates_memberComma fun _ => .pure _
  | text data =>
    exact .bind evaluates_getStructText fun _ => .bind evaluates_emitText fun _ =>
      .bind evaluates_memberComma fun _ => .pure _
  | parenOpen =>
    rw [emitMember]
    exact evaluates_scan
  | parenClose =>
    rw [emitMember]
    exact .bind evaluates_scan fun _ => .bind evaluates_memberComma fun _ => .pure _

theorem evaluates_emitmembsLoop {members : List StructureMember} {haakjes : Nat} :
    Keeps (Evaluates (n := n) (m := m)) (emitmembsLoop members haakjes) := by
  induction members generalizing haakjes with
  | nil => exact evaluates_closeBraces (.pure _)
  | cons ip rest ih =>
    refine .bind evaluates_startTurn fun _ => .ite ?_ (.pure _)
    exact .bind evaluates_emitMember fun _ => ih

/-- The bytes of an instance, with the closing braces. -/
theorem evaluates_emitmembs {st : Structure} :
    Keeps (Evaluates (n := n) (m := m)) (emitmembs st) := by
  refine .bind evaluates_scan fun _ => .bind evaluates_clearResultAffected fun _ =>
    .bind evaluates_emitmembsLoop fun _ => .bind (.when evaluates_error) fun _ => ?_
  exact .bind evaluates_scan fun _ => .bind (.when evaluates_error) fun _ => evaluates_checkAndWarn

/-! ### Programs that define labels -/

/-- What evaluates also keeps the modes. -/
theorem sameMode {α : Type} {p : AsmProgram n m α} (hp : Keeps Evaluates p) : Keeps SameMode p :=
  .mono (fun _ _ => Evaluates.sameMode) hp

/-- The four modes. -/
def modes (s : AsmState n m) : Nat × Relocation.EType × DispMode × Aint :=
  (s.pass, s.relocationType, s.pseudoORG, s.alternativeOffset)

theorem sameMode_modify {f : AsmState n m → AsmState n m} (hf : ∀ s, modes (f s) = modes s) :
    Keeps SameMode (modify f : AsmProgram n m _) := by
  intro s
  have h := hf s
  simp only [modes, Prod.mk.injEq] at h
  obtain ⟨hpass, hrel, hmode, halt⟩ := h
  exact ⟨hpass, hrel, hmode, halt⟩

/-- A name gets its module and main label in front. -/
theorem sameMode_validateLabel {naam : Text} {setNameSpace ignoreCharAfter : Bool} :
    Keeps (SameMode (n := n) (m := m)) (validateLabel naam setNameSpace ignoreCharAfter) := by
  have hmain : ∀ label, Keeps (SameMode (n := n) (m := m))
      (modify (setMainLabel setNameSpace naam label)) := by
    intro label s
    cases label with
    | none => exact .refl s
    | some label =>
      show SameMode s (if setNameSpace then _ else _)
      split_ifs
      · exact ⟨rfl, rfl, rfl, rfl⟩
      · exact .refl s
  exact .get_bind fun t => .bind (sameMode evaluates_report) fun _ => .bind (hmain _) fun _ =>
    .pure _

/-- The label is inserted, or its change in this pass is noted. -/
theorem sameMode_tryInsert {tp : Text} {val : Aint} {traits : Traits} {equPageNum : Page} :
    Keeps (SameMode (n := n) (m := m)) (tryInsert tp val traits equPageNum) := by
  intro s
  rw [final, tryInsert, exec_bind, exec_get]
  dsimp only
  rcases h : s.insert tp val traits equPageNum with _ | t
  · exact .refl s
  · obtain ⟨symbol, rfl, -⟩ := insert_eq h
    exact ⟨rfl, rfl, rfl, rfl⟩

theorem sameMode_setSize {name : Text} {size : Aint} :
    Keeps (SameMode (n := n) (m := m)) (setSize name size) := by
  intro s
  rcases final_setSize name size s with ⟨-, hs⟩ | ⟨label, -, hs⟩ <;> rw [hs]
  · exact .refl s
  · exact ⟨rfl, rfl, rfl, rfl⟩

theorem sameMode_labelValue {name : Text} :
    Keeps (SameMode (n := n) (m := m)) (labelValue name) :=
  .get_bind fun _ => .bind (sameMode (evaluates_modify fun _ => rfl)) fun _ => .get_bind fun _ =>
    .bind (sameMode evaluates_read) fun _ => .bind (sameMode (evaluates_modify fun _ => rfl)) fun _ =>
      .pure _

theorem sameMode_insertSingleStructLabel {setNameSpace : Bool} {name : Text} {isRelocatable : Bool}
    {value : Aint} {isDefine : Bool} : Keeps (SameMode (n := n) (m := m))
      (insertSingleStructLabel setNameSpace name isRelocatable value isDefine) := by
  refine .bind (.ite (.pure _) sameMode_validateLabel) fun fullName => ?_
  cases fullName with
  | none => exact .pure _
  | some fullName =>
    refine .get_bind fun _ => .ite (.bind sameMode_labelValue fun oval => ?_) ?_
    · cases oval with
      | none => exact .bind (sameMode evaluates_error) fun _ => .exit
      | some oval => exact .when (sameMode evaluates_error)
    · exact .bind (sameMode_modify fun _ => rfl) fun _ => .bind sameMode_tryInsert fun _ =>
        .ite (.when sameMode_setSize) (sameMode evaluates_error)

/-- The labels of the members, by induction on them. -/
theorem sameMode_insertStructSubLabels {mainName : Text} {isRelocatable : Bool} {address : Aint}
    {isDefine : Bool} {members : List StructureLabel} : Keeps (SameMode (n := n) (m := m))
      (insertStructSubLabels mainName isRelocatable address isDefine members) := by
  induction members with
  | nil => exact .pure _
  | cons member members ih => exact .bind sameMode_insertSingleStructLabel fun _ => ih

/-- An instance and its labels. -/
theorem sameMode_emitStructure {st : Structure} {label : Option Text} :
    Keeps (SameMode (n := n) (m := m)) (emitStructure st label) := by
  refine .bind (sameMode evaluates_parseDesignedAddress) fun _ => ?_
  cases label with
  | none => exact .ite (sameMode evaluates_emitmembs) (sameMode evaluates_warning)
  | some label =>
    refine .bind (.get_bind fun _ => ?_) fun _ => .when (sameMode evaluates_emitmembs)
    exact .bind (.when (sameMode evaluates_warning)) fun _ =>
      .bind sameMode_insertSingleStructLabel fun _ =>
        .bind sameMode_insertStructSubLabels fun _ => sameMode_setSize

theorem sameMode_insertRefresh {labelNumber : Aint} :
    Keeps (SameMode (n := n) (m := m)) (insertRefresh labelNumber) := by
  intro s
  rw [final, insertRefresh, exec_bind, exec_get]
  dsimp only
  rw [exec_bind_of_some (p := set _) rfl]
  have hset : SameMode s
      { s with nextPassLabels := s.nextPassLabels ++ [s.temporaryLabel labelNumber] } :=
    ⟨rfl, rfl, rfl, rfl⟩
  refine hset.trans ?_
  rcases s.labels[s.nextPassLabels.length]? with _ | label
  · exact .refl _
  · exact Keeps.ite (.pure _) (.bind (.when (sameMode evaluates_warning)) fun _ => .pure _) _

/-- A label gets its value, whatever kind of label it is. -/
theorem sameMode_setLabel {tp : Text} {val : Aint} {traits : Traits} {equPageNum : Page} :
    Keeps (SameMode (n := n) (m := m)) (setLabel tp val traits equPageNum) := by
  have hupdate : Keeps (SameMode (n := n) (m := m)) (modify fun s => s.update tp val) := by
    intro s
    show SameMode s (s.update tp val)
    unfold AsmState.update
    cases s.symbols tp with
    | none => exact .refl s
    | some label => exact ⟨rfl, rfl, rfl, rfl⟩
  have hagain : Keeps (SameMode (n := n) (m := m))
      (tryInsert tp val traits labelPageUndefined >>= fun _ => pure ()) :=
    .bind sameMode_tryInsert fun _ => .pure _
  -- the redefinition with `=`, the first pass, and the later ones
  refine .get_bind fun _ => .ite ?_ (.get_bind fun _ => .ite ?_ ?_)
  · refine .get_bind fun _ => .bind (.when hagain) fun _ => .get_bind fun _ =>
      .ite (sameMode evaluates_error) (.bind (.when hagain) fun _ => .get_bind fun t => ?_)
    cases t.symbols tp with
    | none => exact .pure _
    | some label =>
      exact .ite (.bind (sameMode evaluates_warning) fun _ => hupdate)
        fun s => ⟨rfl, rfl, rfl, rfl⟩
  · exact .bind sameMode_tryInsert fun _ => .when hupdate
  · exact .bind sameMode_tryInsert fun _ => .when (sameMode evaluates_error)

theorem sameMode_addressLabel {temp : Text} {smcOffset : Aint} :
    Keeps (SameMode (n := n) (m := m)) (addressLabel temp smcOffset) := by
  refine .get_bind fun _ => .bind sameMode_validateLabel fun tp => ?_
  cases tp with
  | none => exact .pure _
  | some tp => exact sameMode_setLabel

theorem sameMode_namedLabel {temp : Text} {smcOffset : Aint} :
    Keeps (SameMode (n := n) (m := m)) (namedLabel temp smcOffset) := by
  have hmacro : Keeps (SameMode (n := n) (m := m)) isMacroNext :=
    .bind (sameMode evaluates_scan) fun _ => .ite (.pure _) (.get_bind fun _ => .pure _)
  -- a macro definition, `EQU` and `=`, and at last an address or a structure
  refine .bind hmacro fun _ => .ite (.when (sameMode evaluates_error)) ?_
  refine .bind (sameMode evaluates_scan) fun _ => .bind (sameMode evaluates_scan) fun _ =>
    .ite ?_ (.get_bind fun t => ?_)
  · refine .bind (sameMode evaluates_definition) fun r => .bind sameMode_validateLabel fun tp => ?_
    cases tp with
    | none => exact .pure _
    | some tp => exact sameMode_setLabel
  -- a name that is no structure makes the label an address
  · rcases structureName t.lp with ⟨_ | naam, gl, p⟩
    · exact sameMode_addressLabel
    · dsimp only
      cases zoek t naam gl with
      | none => exact sameMode_addressLabel
      | some st =>
        exact .bind (sameMode_modify fun _ => rfl) fun _ => .bind sameMode_emitStructure fun _ =>
          .bind (.when (sameMode evaluates_error)) fun _ => .bind sameMode_validateLabel fun _ =>
            .pure _

/-- `ParseLabel` keeps the modes. -/
theorem sameMode_parseLabel {smart : Reported Aint} :
    Keeps (SameMode (n := n) (m := m)) (parseLabel smart) := by
  have hneed : Keeps (SameMode (n := n) (m := m)) needDefinition :=
    .bind (sameMode evaluates_scan) fun _ => .ite (.pure _) (sameMode evaluates_scan)
  refine .bind (sameMode evaluates_scan) fun _ => .bind (sameMode evaluates_scan) fun _ =>
    .bind (sameMode evaluates_scan) fun _ => .bind (.when (sameMode evaluates_report)) fun _ => ?_
  refine .bind (sameMode evaluates_scan) fun _ => .bind (sameMode_modify fun _ => rfl) fun _ =>
    .ite (.ite (sameMode evaluates_error) ?_) sameMode_namedLabel
  refine .ite (sameMode evaluates_error) (.bind hneed fun _ => .ite (sameMode evaluates_error) ?_)
  exact .bind sameMode_insertRefresh fun _ => .when (sameMode evaluates_error)

/-- `STRUCT` keeps the modes. -/
theorem sameMode_dirSTRUCT : Keeps (SameMode (n := n) (m := m)) dirSTRUCT := by
  have hend : ∀ st, Keeps (SameMode (n := n) (m := m)) (endStructure st) := by
    intro st
    cases st with
    | none => exact .pure _
    | some st =>
      exact .bind (sameMode_modify fun _ => rfl) fun _ => .bind sameMode_insertSingleStructLabel fun _ =>
          sameMode_insertStructSubLabels
  have hline : ∀ st, Keeps (SameMode (n := n) (m := m)) (structureLine st) := by
    intro st
    cases st with
    | none => exact .pure _
    | some st => exact .bind (sameMode evaluates_parseStructLine) fun _ => .pure _
  -- by induction on the fuel: each line of the definition is one more turn
  have hlines : ∀ fuel st, Keeps (SameMode (n := n) (m := m)) (structureLines fuel st) := by
    intro fuel
    induction fuel with
    | zero => exact fun st => .bind (sameMode evaluates_error) fun _ => hend _
    | succ fuel ih =>
      intro st
      refine .get_bind fun t => ?_
      cases t.lines with
      | nil => exact .bind (sameMode evaluates_error) fun _ => hend _
      | cons line lines =>
        exact .bind (sameMode_modify fun _ => rfl) fun _ =>
          .ite (hend _) (.bind (hline _) fun _ => ih _)
  have hoffset : Keeps (SameMode (n := n) (m := m)) structureOffset := by
    refine .bind (sameMode evaluates_scan) fun _ =>
      .ite (.bind (sameMode_modify fun _ => rfl) fun _ => ?_) (.pure _)
    refine .bind (sameMode evaluates_parseExpressionNoSyntaxError) fun o => ?_
    cases o with
    | none => exact .get_bind fun _ => .bind (sameMode evaluates_error) fun _ => .pure _
    | some offset =>
      exact .get_bind fun _ => .bind (.when (sameMode evaluates_error)) fun _ => .pure _
  -- the name, the offset behind it, and then the lines up to `ENDS`
  refine .bind (sameMode evaluates_scan) fun _ => .get_bind fun _ =>
    .bind sameMode_validateLabel fun label => ?_
  cases label with
  | none => exact sameMode_modify fun _ => rfl
  | some validLabel =>
    refine .bind (sameMode evaluates_scan) fun _ => .bind hoffset fun offset => ?_
    cases offset with
    | none => exact .pure _
    | some offset =>
      refine .bind (sameMode evaluates_scan) fun _ => .get_bind fun _ =>
        .bind (.when (sameMode evaluates_error)) fun _ => .bind ?_ fun _ =>
          .get_bind fun _ => hlines _ _
      exact .get_bind fun _ => .ite (.bind (sameMode evaluates_error) fun _ => .pure _)
        (.bind (sameMode_modify fun _ => rfl) fun _ => .pure _)

end AsmProgram

end Sjasmplus
