import Sjasmplus.DefinitionClass
import Sjasmplus.DeviceLayout

/-!
# The page of a label (`getAddressPageNumber`, `GetLabelPage` of `tables.cpp`)

A label keeps the page that the memory mapping has at its address when it is inserted.  Two things
come between the label and the mapping:

* `Insert` takes the page of the device for every address in the current slot, and that is the page
  of the slot that was checked last (`label_page_iff`);
* the last pass compares values only, so that a page which changes while the value does not stays
  the one that the label was inserted with before (`freshPages_iff`).
-/

namespace Sjasmplus

open Parsing ParseFn Program AsmState AsmProgram

variable {n m : Nat}

/-! ### What `Insert` stores -/

namespace AsmState

/-- `GetLabelPage` of a label by its full name. -/
def labelPage (s : AsmState n m) (name : Text) : Option Page := (s.find name).map (·.page)

theorem labelPage_of_symbol {s : AsmState n m} {name : Text} {label : Symbol}
    (h : s.symbols name = some label) : s.labelPage name
      = if label.page ≠ labelPageUndefined then some label.page else none := by
  rw [labelPage, find, h, Option.filter_some]
  split_ifs <;> simp_all

theorem labelPage_setSymbol (s : AsmState n m) (name : Text) (symbol : Symbol) :
    (s.setSymbol name symbol).labelPage name
      = if symbol.page ≠ labelPageUndefined then some symbol.page else none :=
  labelPage_of_symbol (if_pos rfl)

/-- A label that is inserted has the page that `Insert` decides on. -/
theorem labelPage_of_insert {s t : AsmState n m} {name : Text} {value : Aint} {traits : Traits}
    {page : Page} (h : s.insert name value traits page = some t)
    (htraits : traits.isUndefined = false) :
    t.labelPage name = some (s.insertPage value traits page) := by
  have hpage := s.insertPage_ne value traits page
  unfold insert at h
  rcases hlabel : s.symbols name with _ | label
  · rw [hlabel] at h
    obtain rfl := Option.some.inj h
    simp only [htraits, Bool.false_and, Bool.false_eq_true, if_false, labelPage_setSymbol]
    exact if_pos hpage
  · simp only [hlabel] at h
    split_ifs at h
    obtain rfl := Option.some.inj h
    rw [labelPage_setSymbol]
    exact if_pos hpage

/-- **The fast path of an insertion** gives the page of the plain look-up exactly when the page of
the device is that of the current slot, or the address lies elsewhere. -/
theorem getAddressPageNumber_eq_iff {s : AsmState n m} {device : Device n m} {slot : Fin n}
    (hlayout : device.SlotLayout) (hdevice : s.device = some device)
    (hslot : s.currentSlot = some slot) (hdisp : s.pseudoORG = .none) (address : Aint) :
    s.getAddressPageNumber address false = device.getPageOfA16 address.toInt ↔
      ((device.slots slot).Contains address.toInt → device.page = (device.slots slot).page) := by
  unfold getAddressPageNumber
  simp only [hdevice, hslot, hdisp]
  by_cases hin : (device.slots slot).Contains address.toInt
  · -- the fast path
    have hplain : device.getPageOfA16 address.toInt = ((device.slots slot).page.val : Int) := by
      rw [Device.getPageOfA16, hlayout.getSlotOfA16_eq_some hin]
    rw [hplain, if_pos (by simp [hin])]
    constructor
    · intro h _
      exact Fin.ext (Int.ofNat.inj h)
    · intro h
      rw [h hin]
  · -- the mapping is looked up
    rw [if_neg (by simp [hin]), if_neg (by simp)]
    exact ⟨fun _ h => absurd h hin, fun _ => rfl⟩

end AsmState

/-- Inserting what is new or due for an update. -/
theorem exec_tryInsert_insertable {tp : Text} (val : Aint) {traits : Traits} (page : Page)
    {s : AsmState n m} (h : s.Insertable tp) (htraits : traits.isUndefined = false) :
    ∃ t, (tryInsert tp val traits page).exec s = (some true, t) ∧
      t.labelPage tp = some (s.insertPage val traits page) := by
  rw [tryInsert, exec_bind_of_some (exec_get s)]
  rcases hins : s.insert tp val traits page with _ | t
  · exact absurd h (insert_eq_none_iff.mp hins)
  · exact ⟨t, rfl, labelPage_of_insert hins htraits⟩

/-! ### Labels for addresses -/

/-- A label for an address: one at the start of a line, perhaps with an SMC offset, or a label of an
instance of a structure, with the address of the instance or of a member. -/
inductive AddressLabel
  | regular (temp : Text) (smcOffset : Aint)
  | structLabel (setNameSpace : Bool) (name : Text) (isRelocatable : Bool) (value : Aint)

namespace AddressLabel

def program : AddressLabel → AsmProgram n m Unit
  | regular temp smcOffset => addressLabel temp smcOffset
  | structLabel setNameSpace name isRelocatable value =>
    insertSingleStructLabel setNameSpace name isRelocatable value false

/-- The full name of the label. -/
def fullName (s : AsmState n m) : AddressLabel → Option Text
  | regular temp _ => (Sjasmplus.validateLabel s.scope true false temp).1
  | structLabel setNameSpace name _ _ =>
    (Sjasmplus.validateLabel s.scope setNameSpace false name).1

def value (s : AsmState n m) : AddressLabel → Aint
  | regular _ smcOffset => BitVec.ofInt 32 s.curAddress + smcOffset
  | structLabel _ _ _ value => value

/-- `ValidateLabel` changes the scope and the log only. -/
theorem exec_validated (naam : Text) (setNameSpace : Bool) (s : AsmState n m) :
    ∃ scope log, (AsmProgram.validateLabel naam setNameSpace false).exec s
      = (some (Sjasmplus.validateLabel s.scope setNameSpace false naam).1,
        { s with scope := scope, log := log }) := by
  rcases h : (Sjasmplus.validateLabel s.scope setNameSpace false naam).1 with _ | label
  · refine ⟨s.scope, s.log ++ (Sjasmplus.validateLabel s.scope setNameSpace false naam).2, ?_⟩
    rw [exec_validateLabel, h]
    show (some none, setMainLabel setNameSpace naam
      (Sjasmplus.validateLabel s.scope setNameSpace false naam).1 _) = _
    rw [h]
    rfl
  · rw [exec_validateLabel, h]
    show ∃ scope log, (some (some label), setMainLabel setNameSpace naam
      (Sjasmplus.validateLabel s.scope setNameSpace false naam).1 _) = _
    rw [h]
    cases setNameSpace with
    | true => exact ⟨newMainLabel s.scope naam label, _, rfl⟩
    | false => exact ⟨s.scope, _, rfl⟩

/-- A pass that inserts the label stores the page that the fast path gives. -/
theorem labelPage_program (label : AddressLabel) {s : AsmState n m} {tp : Text}
    (hpass : s.pass ≠ lastPass) (htp : label.fullName s = some tp) (hinsertable : s.Insertable tp) :
    (label.program.final s).labelPage tp = some (s.getAddressPageNumber (label.value s) false) := by
  -- an address label and the label of a structure are inserted with the same page
  cases label with
  | regular temp smcOffset =>
    obtain ⟨scope, log, hvalid⟩ := exec_validated temp true s
    have htp : (Sjasmplus.validateLabel s.scope true false temp).1 = some tp := htp
    rw [program, addressLabel, final_bind_of_some (exec_get s), final_bind_of_some hvalid, htp]
    set t : AsmState n m := { s with scope := scope, log := log } with ht
    have hinsertable : t.Insertable tp := hinsertable
    have htraits : ({} : Traits).isUndefined = false := rfl
    obtain ⟨u, hu, hpage⟩ := exec_tryInsert_insertable (BitVec.ofInt 32 s.curAddress + smcOffset)
      labelPageUndefined hinsertable htraits
    dsimp only
    rw [setLabel, final_bind_of_some (exec_get t), if_neg hpass, final_bind_of_some (exec_get t)]
    split_ifs
    · rw [final_bind_of_some hu]
      exact hpage
    · rw [final_bind_of_some hu]
      exact hpage
  | structLabel setNameSpace name isRelocatable value =>
    obtain ⟨scope, log, hvalid⟩ := exec_validated name setNameSpace s
    have htp : (Sjasmplus.validateLabel s.scope setNameSpace false name).1 = some tp := htp
    have hfull : structLabelName setNameSpace name false
        = AsmProgram.validateLabel (n := n) (m := m) name setNameSpace false :=
      if_neg Bool.false_ne_true
    rw [program, insertSingleStructLabel, hfull, final_bind_of_some hvalid, htp]
    set t : AsmState n m := { s with
      scope := scope
      log := log
      flags := ⟨isRelocatable, if isRelocatable then .regular else .off⟩ } with ht
    have hinsertable : t.Insertable tp := hinsertable
    have htraits : (structTraits isRelocatable false).isUndefined = false := rfl
    obtain ⟨u, hu, hpage⟩ := exec_tryInsert_insertable value labelPageUndefined hinsertable htraits
    dsimp only
    rw [final_bind_of_some (exec_get _), if_neg hpass, defineStructLabel,
      final_bind_of_some (exec_modify _ _), final_bind_of_some hu]
    exact hpage

/-- **The page of a label for an address** is that of the slot which contains the address exactly
when the address is not in the current slot, or the device has the page of the current slot. -/
theorem label_page_iff (label : AddressLabel) {s : AsmState n m} {device : Device n m} {slot : Fin n}
    {tp : Text} (hlayout : device.SlotLayout) (hdevice : s.device = some device)
    (hslot : s.currentSlot = some slot) (hdisp : s.pseudoORG = .none) (hpass : s.pass ≠ lastPass)
    (htp : label.fullName s = some tp) (hinsertable : s.Insertable tp) :
    (label.program.final s).labelPage tp = some (device.getPageOfA16 (label.value s).toInt) ↔
      ((device.slots slot).Contains (label.value s).toInt →
        device.page = (device.slots slot).page) := by
  rw [label.labelPage_program hpass htp hinsertable, Option.some.injEq]
  exact getAddressPageNumber_eq_iff hlayout hdevice hslot hdisp (label.value s)

/-- The labels of an instance of a structure. -/
def instanceLabels (st : Structure) (iid : Text) (address : Aint) (isRelocatable : Bool) :
    List AddressLabel :=
  structLabel true iid isRelocatable address ::
    st.labels.map fun member =>
      structLabel false (iid ++ '.' :: member.naam) isRelocatable (member.offset + address)

/-- Labels one after the other. -/
def programs : List AddressLabel → AsmProgram n m Unit
  | [] => pure ()
  | label :: labels => do
    label.program
    programs labels

/-- An instance of a structure inserts nothing but labels for addresses. -/
theorem emitlab_eq (st : Structure) (iid : Text) (address : Aint) (isRelocatable : Bool) :
    (emitlab st iid address isRelocatable : AsmProgram n m Unit) = (do
      warnMisaligned st address
      programs (instanceLabels st iid address isRelocatable)
      setSize iid st.noffset) := by
  have hsub : ∀ members : List StructureLabel,
      (insertStructSubLabels iid isRelocatable address false members : AsmProgram n m Unit)
        = programs (members.map fun member =>
          structLabel false (iid ++ '.' :: member.naam) isRelocatable (member.offset + address)) := by
    intro members
    induction members with
    | nil => rfl
    | cons member members ih =>
      rw [insertStructSubLabels, ih]
      rfl
  rw [emitlab, instanceLabels, programs, hsub]
  simp only [bind_assoc]
  rfl

/-- Behind `ORG 0xBFFF` and `DEVICE ZXSPECTRUM128`, whose current slot is the last one. -/
def exampleBorder : AsmState 4 8 :=
  { (AsmState.start 0 0).initPass.withDevice (some (zxSpectrum128 0xBFFF)) (some 3) with
    curAddress := 0xBFFF }

/-- The label `x` there. -/
theorem label_page_exampleBorder :
    ((regular ['x'] 0).program.final exampleBorder).labelPage ['x']
        = some ((zxSpectrum128 0xBFFF).getPageOfA16 ((regular ['x'] 0).value exampleBorder).toInt) ↔
      (((zxSpectrum128 0xBFFF).slots 3).Contains ((regular ['x'] 0).value exampleBorder).toInt →
        (zxSpectrum128 0xBFFF).page = ((zxSpectrum128 0xBFFF).slots 3).page) :=
  label_page_iff (regular ['x'] 0) (slotLayout_zxSpectrum128 0xBFFF) rfl rfl rfl (by decide) (by decide)
    (fun _ h => absurd h (by simp [exampleBorder, withDevice, AsmState.start, initPass]))

/-- The label `x+1` there has the page of the slot in front of its own. -/
theorem not_label_page_exampleBorder :
    ((parseLabel (0, [])).final (exampleBorder.atText "x+1 nop".toList [])).labelPage ['x']
      ≠ some ((zxSpectrum128 0xBFFF).getPageOfA16 0xC000) := by
  decide +kernel

end AddressLabel

/-! ### The end of `ParseLabel` -/

/-- A label that is no `DEFL`, with what `ParseLabel` has found out about it. -/
structure LabelStore where
  tp : Text
  val : Aint
  isEQU : Bool
  equPageNum : Page
deriving DecidableEq

/-- The page of the memory mapping at an address, or the one that `DISP` names. -/
def AsmState.mappingPage (s : AsmState n m) (address : Aint) : Page :=
  match s.device with
  | none => labelPageRom
  | some device =>
    if s.pseudoORG ≠ .none ∧ s.dispPageNum ≠ labelPageUndefined then s.dispPageNum
    else device.getPageOfA16 address.toInt

namespace LabelStore

variable (l : LabelStore)

def traits : Traits := { isEqu := l.isEQU }

def program : AsmProgram n m Unit := setLabel l.tp l.val l.traits l.equPageNum

/-- The page in force: the one that an `EQU` names, or the one of the mapping. -/
def pageInForce (s : AsmState n m) : Page :=
  if l.isEQU ∧ l.equPageNum ≠ labelPageUndefined then l.equPageNum else s.mappingPage l.val

/-- The page of the slot that was checked last, for a label that `Insert` finds in the current slot. -/
def shortcutPage (s : AsmState n m) : Option Page :=
  match s.device, s.currentSlot with
  | some device, some slot =>
    if l.isEQU = false ∧ s.pseudoORG = .none ∧ (device.slots slot).Contains l.val.toInt then
      some device.page.val
    else none
  | _, _ => none

/-- `Insert` stores the page in force, or takes the short way. -/
theorem insertPage_eq (s : AsmState n m) : s.insertPage l.val l.traits l.equPageNum
    = (l.shortcutPage s).getD (l.pageInForce s) := by
  rw [insertPage, pageInForce, shortcutPage, traits]
  by_cases hnamed : l.isEQU = true ∧ l.equPageNum ≠ labelPageUndefined
  · rw [if_pos hnamed, if_pos hnamed]
    rcases s.device with _ | device
    · rfl
    · rcases s.currentSlot with _ | slot
      · rfl
      · dsimp only
        rw [if_neg fun h => by simp [hnamed.1] at h]
        rfl
  -- the look-ups differ where the label lies in the current slot
  rw [if_neg hnamed, if_neg hnamed, getAddressPageNumber, mappingPage]
  rcases s.device with _ | device
  · rfl
  rcases s.currentSlot with _ | slot
  · simp
  dsimp only
  by_cases hin : l.isEQU = false ∧ s.pseudoORG = .none ∧ (device.slots slot).Contains l.val.toInt
  · rw [if_pos hin, if_pos (by simp [hin])]
    rfl
  · rw [if_neg hin, if_neg fun h => hin (by simpa [and_assoc] using h)]
    rfl

/-- The page that `WriteToSldFile` gets in the last pass; an `EQU` without a page exports none. -/
def sldPage (s : AsmState n m) : Option Page :=
  if l.isEQU then (if l.equPageNum ≠ labelPageUndefined then some l.equPageNum else none)
  else s.labelPage l.tp

/-- Behind the label `$$label` is the page in force, and so is the page that is exported. -/
structure Fresh (s t : AsmState n m) : Prop where
  page : t.labelPage l.tp = some (l.pageInForce s)
  exported : ∀ page, l.sldPage s = some page → page = l.pageInForce s

end LabelStore

namespace AsmProgram

/-- The start of a line: the text of its label and the SMC offset. -/
def lineStart (smart : Reported Aint) : AsmProgram n m (Text × Aint) := do
  let temp ← scan fun p => (p.takeWhile (!endsLabel ·), p.dropWhile (!endsLabel ·))
  let smcOffset ← smcDigit
  let star ← smcStar
  Program.when star <| report smart.2
  let smcOffset := if star then smart.1 else smcOffset
  let _ ← scan fun p => ((), Sjasmplus.skipBlanks (if cur p = ':' then p.tail else p))
  modify fun s => { s with isLabelNotFound := false }
  pure (temp, smcOffset)

/-- A label for the current address, in front of its end. -/
def addressStore (temp : Text) (smcOffset : Aint) : AsmProgram n m (Option LabelStore) := do
  let val := BitVec.ofInt 32 (← get).curAddress + smcOffset
  match ← validateLabel temp true false with
  | none => pure none
  | some tp => pure (some ⟨tp, val, false, labelPageUndefined⟩)

/-- A label with `EQU`, in front of its end. -/
def equStore (temp : Text) (smcOffset : Aint) : AsmProgram n m (Option LabelStore) := do
  let (val, equPageNum) ← definition false true
  match ← validateLabel temp true false with
  | none => pure none
  | some tp => pure (some ⟨tp, val + smcOffset, true, equPageNum⟩)

/-- A label that does not start with a digit, in front of its end. -/
def namedStore (temp : Text) (smcOffset : Aint) : AsmProgram n m (Option LabelStore) := do
  if ← isMacroNext then pure none
  else
    let isDEFL ← needDEFL
    let isEQU ← needEQU
    if isDEFL then pure none
    else if isEQU then equStore temp smcOffset
    else
      let s ← get
      match structureName s.lp with
      | (some naam, gl, _) =>
        match zoek s naam gl with
        | some _ => pure none
        | none => addressStore temp smcOffset
      | (none, _, _) => addressStore temp smcOffset

/-- What of a line comes in front of the end of `ParseLabel`, if it gets there with a label that is
no `DEFL`. -/
def lineStore (smart : Reported Aint) : AsmProgram n m (Option LabelStore) := do
  let (temp, smcOffset) ← lineStart smart
  if (cur temp).isDigit then pure none else namedStore temp smcOffset

theorem parseLabel_eq (smart : Reported Aint) :
    (parseLabel smart : AsmProgram n m Unit) = (do
      let (temp, smcOffset) ← lineStart smart
      if (cur temp).isDigit then numberLabel temp smcOffset else namedLabel temp smcOffset) := by
  simp only [parseLabel, lineStart, bind_assoc, pure_bind]

end AsmProgram

theorem final_addressLabel_of_store {temp : Text} {smcOffset : Aint} {s u : AsmState n m}
    {l : LabelStore} (h : (addressStore temp smcOffset).exec s = (some (some l), u)) :
    (addressLabel temp smcOffset).final s = l.program.final u := by
  have hvalid := exec_validateLabel temp true false s
  rw [addressStore, exec_bind_of_some (exec_get s), exec_bind_of_some hvalid] at h
  rw [addressLabel, final_bind_of_some (exec_get s), final_bind_of_some hvalid]
  cases htp : (Sjasmplus.validateLabel s.scope true false temp).1 with
  | none =>
    rw [htp] at h
    simp at h
  | some tp =>
    rw [htp] at h
    dsimp only at h
    rw [exec_pure] at h
    obtain ⟨hl, rfl⟩ := Prod.mk.injEq .. ▸ h
    rw [← Option.some.inj (Option.some.inj hl)]
    rfl

theorem final_definedLabel_of_store {temp : Text} {smcOffset : Aint} {s u : AsmState n m}
    {l : LabelStore} (h : (equStore temp smcOffset).exec s = (some (some l), u)) :
    (definedLabel temp smcOffset false true).final s = l.program.final u := by
  obtain ⟨⟨val, page⟩, hoperands, -⟩ := exec_definition s false true
  rw [equStore, exec_bind_of_some hoperands] at h
  rw [definedLabel, final_bind_of_some hoperands]
  generalize (definition false true).final s = t at h ⊢
  have hvalid := exec_validateLabel temp true false t
  dsimp only at h ⊢
  rw [exec_bind_of_some hvalid] at h
  rw [final_bind_of_some hvalid]
  -- a name that is not valid stores nothing
  cases htp : (Sjasmplus.validateLabel t.scope true false temp).1 with
  | none =>
    rw [htp] at h
    simp at h
  | some tp =>
    rw [htp] at h
    dsimp only at h
    rw [exec_pure] at h
    obtain ⟨hl, rfl⟩ := Prod.mk.injEq .. ▸ h
    rw [← Option.some.inj (Option.some.inj hl)]
    rfl

theorem exec_isMacroNext (s : AsmState n m) :
    ∃ macroNext t, isMacroNext.exec s = (some macroNext, t) := by
  obtain ⟨atEnd, t, ht⟩ : ∃ atEnd t, AsmProgram.skipBlanks.exec s = (some atEnd, t) := ⟨_, _, rfl⟩
  rw [isMacroNext, exec_bind_of_some ht]
  cases atEnd with
  | true => exact ⟨_, _, rfl⟩
  | false => exact ⟨_, _, rfl⟩

theorem final_namedLabel_of_store {temp : Text} {smcOffset : Aint} {s u : AsmState n m}
    {l : LabelStore} (h : (namedStore temp smcOffset).exec s = (some (some l), u)) :
    (namedLabel temp smcOffset).final s = l.program.final u := by
  obtain ⟨macroNext, t, ht⟩ := exec_isMacroNext s
  obtain ⟨isDEFL, t₁, ht₁⟩ : ∃ isDEFL t₁, needDEFL.exec t = (some isDEFL, t₁) := ⟨_, _, rfl⟩
  obtain ⟨isEQU, t₂, ht₂⟩ : ∃ isEQU t₂, needEQU.exec t₁ = (some isEQU, t₂) := ⟨_, _, rfl⟩
  rw [namedStore, exec_bind_of_some ht] at h
  rw [namedLabel, final_bind_of_some ht]
  cases macroNext with
  | true => simp at h
  | false =>
    rw [if_neg Bool.false_ne_true, exec_bind_of_some ht₁, exec_bind_of_some ht₂] at h
    rw [if_neg Bool.false_ne_true, final_bind_of_some ht₁, final_bind_of_some ht₂]
    cases isDEFL with
    | true => simp at h
    | false =>
      rw [if_neg Bool.false_ne_true] at h
      cases isEQU with
      | true =>
        rw [if_pos rfl] at h
        rw [Bool.false_or, if_pos rfl]
        exact final_definedLabel_of_store h
      | false =>
        rw [if_neg Bool.false_ne_true, exec_bind_of_some (exec_get t₂)] at h
        rw [if_neg (by decide), addressOrStructure, final_bind_of_some (exec_get t₂)]
        -- an instance of a structure does not get to the end
        rcases hname : structureName t₂.lp with ⟨_ | naam, gl, p⟩
        · rw [hname] at h
          exact final_addressLabel_of_store h
        · rw [hname] at h
          dsimp only at h ⊢
          cases hzoek : zoek t₂ naam gl with
          | some st =>
            rw [hzoek] at h
            simp at h
          | none =>
            rw [hzoek] at h
            exact final_addressLabel_of_store h

/-- Nothing at the start of a line ends the program. -/
theorem exec_lineStart (smart : Reported Aint) (s : AsmState n m) :
    ∃ start t, (lineStart smart).exec s = (some start, t) := by
  obtain ⟨temp, t, ht⟩ : ∃ temp t, (scan (n := n) (m := m) fun p =>
      (p.takeWhile (!endsLabel ·), p.dropWhile (!endsLabel ·))).exec s = (some temp, t) :=
    ⟨_, _, rfl⟩
  obtain ⟨smcOffset, t₁, ht₁⟩ : ∃ smcOffset t₁, smcDigit.exec t = (some smcOffset, t₁) :=
    ⟨_, _, rfl⟩
  obtain ⟨star, t₂, ht₂⟩ : ∃ star t₂, smcStar.exec t₁ = (some star, t₂) := ⟨_, _, rfl⟩
  rw [lineStart, exec_bind_of_some ht, exec_bind_of_some ht₁, exec_bind_of_some ht₂]
  cases star with
  | true => exact ⟨_, _, rfl⟩
  | false => exact ⟨_, _, rfl⟩

/-- A line that gets to the end of `ParseLabel` does what the end does. -/
theorem final_parseLabel_of_store {smart : Reported Aint} {s u : AsmState n m} {l : LabelStore}
    (h : (lineStore smart).exec s = (some (some l), u)) :
    (parseLabel smart).final s = l.program.final u := by
  obtain ⟨⟨temp, smcOffset⟩, t, ht⟩ := exec_lineStart smart s
  rw [lineStore, exec_bind_of_some ht] at h
  rw [parseLabel_eq, final_bind_of_some ht]
  dsimp only at h ⊢
  split_ifs at h ⊢
  · simp at h
  · exact final_namedLabel_of_store h

/-! ### What a line does in front of the end -/

/-- A relation that reading keeps, and that does not see the main label. -/
class ScopeKeeps (R : AsmState n m → AsmState n m → Prop) : Prop extends ReadingKeeps R where
  scope : ∀ s scope, R s { s with scope := scope }

section LineStore

variable {R : AsmState n m → AsmState n m → Prop} [ScopeKeeps R]

theorem keeps_validateLabel {naam : Text} {setNameSpace ignoreCharAfter : Bool} :
    Keeps R (AsmProgram.validateLabel naam setNameSpace ignoreCharAfter) := by
  refine .get_bind fun s => .bind evaluates_report fun _ => .bind (fun t => ?_) fun _ => .pure _
  show R t (setMainLabel setNameSpace naam _ t)
  unfold setMainLabel
  split
  · split_ifs
    · exact ScopeKeeps.scope t _
    · exact refl t
  · exact refl t

theorem keeps_addressStore {temp : Text} {smcOffset : Aint} :
    Keeps R (addressStore temp smcOffset) := by
  refine .get_bind fun _ => .bind keeps_validateLabel fun o => ?_
  cases o with
  | none => exact .pure _
  | some tp => exact .pure _

theorem keeps_equStore {temp : Text} {smcOffset : Aint} : Keeps R (equStore temp smcOffset) := by
  refine .bind evaluates_definition fun operands => .bind keeps_validateLabel fun o => ?_
  cases o with
  | none => exact .pure _
  | some tp => exact .pure _

/-- A line in front of the end of `ParseLabel` reads, evaluates and sets the main label. -/
theorem keeps_lineStore {smart : Reported Aint} : Keeps R (lineStore smart) := by
  have hstart : Keeps R (lineStart smart) :=
    .bind evaluates_scan fun _ => .bind evaluates_scan fun _ => .bind evaluates_scan fun _ =>
      .bind (.when evaluates_report) fun _ => .bind evaluates_scan fun _ =>
        .bind (evaluates_modify fun _ => rfl) fun _ => .pure _
  have hmacro : Keeps R isMacroNext :=
    .bind evaluates_scan fun _ => .ite (.pure _) (.get_bind fun _ => .pure _)
  refine .bind hstart fun start => .ite (.pure _) (.bind hmacro fun _ => .ite (.pure _)
    (.bind evaluates_scan fun _ => .bind evaluates_scan fun _ => .ite (.pure _)
      (.ite keeps_equStore (.get_bind fun s => ?_))))
  rcases structureName s.lp with ⟨_ | naam, gl, p⟩
  · exact keeps_addressStore
  · dsimp only
    cases zoek s naam gl with
    | none => exact keeps_addressStore
    | some st => exact .pure _

end LineStore

/-- No label gets another page. -/
def SamePages (s t : AsmState n m) : Prop := ∀ tp, t.labelPage tp = s.labelPage tp

namespace SamePages

instance : Std.Refl (SamePages (n := n) (m := m)) := ⟨fun _ _ => rfl⟩

instance : IsTrans (AsmState n m) SamePages :=
  ⟨fun _ _ _ h h' tp => (h' tp).trans (h tp)⟩

/-- Evaluating adds labels without a page at most. -/
theorem of_evaluates {s t : AsmState n m} (h : Evaluates s t) : SamePages s t := by
  intro tp
  rw [labelPage, labelPage, find, find]
  rcases hs : s.symbols tp with _ | label
  · rcases ht : t.symbols tp with _ | placeholder
    · rfl
    · -- a placeholder is not found
      rw [Option.filter_some, if_neg (by simp [h.placeholders tp placeholder hs ht])]
      rfl
  · rw [h.symbols tp label hs]

instance : ScopeKeeps (SamePages (n := n) (m := m)) where
  of_fixedPart s t h := of_evaluates (ReadingKeeps.of_fixedPart s t h)
  log _ _ _ := rfl
  noteLookup s e := of_evaluates (ReadingKeeps.noteLookup s e)
  prepareLine _ _ := rfl
  scope _ _ _ := rfl

end SamePages

/-! ### Errors and warnings of a run -/

/-- What only adds messages in a pass. -/
structure Appends (s t : AsmState n m) : Prop where
  pass : t.pass = s.pass
  log : s.log <+: t.log

namespace Appends

instance : Std.Refl (Appends (n := n) (m := m)) := ⟨fun s => ⟨rfl, List.prefix_refl s.log⟩⟩

instance : IsTrans (AsmState n m) Appends :=
  ⟨fun _ _ _ h h' => ⟨h'.pass.trans h.pass, h.log.trans h'.log⟩⟩

theorem of_log {s t : AsmState n m} (hpass : t.pass = s.pass) (h : t.log = s.log) : Appends s t :=
  ⟨hpass, by rw [h]⟩

instance : ScopeKeeps (Appends (n := n) (m := m)) where
  of_fixedPart s t h :=
    have hemit : t.toEmitState = s.toEmitState := congrArg Prod.fst h
    of_log (congrArg EmitState.pass hemit) (congrArg EmitState.log hemit)
  log s l := ⟨rfl, List.prefix_append s.log l⟩
  noteLookup s e :=
    have hemit := s.toEmitState_noteLookup e
    of_log (congrArg EmitState.pass hemit) (congrArg EmitState.log hemit)
  prepareLine s := by
    unfold EmitState.prepareLine
    rcases hdevice : s.device with _ | device
    · exact of_log rfl rfl
    · refine ⟨?_, ?_⟩ <;> simp [EmitState.checkPage, EmitState.wrapDisplaced, EmitState.report]
  scope _ _ := of_log rfl rfl

theorem tryInsert {tp : Text} {val : Aint} {traits : Traits} {page : Page} :
    Keeps (Appends (n := n) (m := m)) (AsmProgram.tryInsert tp val traits page) := by
  intro s
  show Appends s ((AsmProgram.tryInsert tp val traits page).final s)
  rw [AsmProgram.tryInsert, final_bind_of_some (exec_get s)]
  rcases h : s.insert tp val traits page with _ | t
  · exact refl s
  · obtain ⟨symbol, rfl, -⟩ := insert_eq h
    exact of_log rfl rfl

theorem update {tp : Text} {val : Aint} :
    Keeps (Appends (n := n) (m := m)) (modify fun s => s.update tp val) := by
  intro s
  show Appends s (s.update tp val)
  unfold AsmState.update
  cases s.symbols tp with
  | none => exact refl s
  | some label => exact of_log rfl rfl

/-- The end of `ParseLabel` in the last pass. -/
theorem checkLabel {tp : Text} {val : Aint} {traits : Traits} :
    Keeps (Appends (n := n) (m := m)) (AsmProgram.checkLabel tp val traits) := by
  refine .get_bind fun _ => .bind (.when (.bind tryInsert fun _ => .pure _)) fun _ =>
    .get_bind fun _ => .ite evaluates_error (.bind (.when (.bind tryInsert fun _ => .pure _)) fun _ =>
      .get_bind fun s => ?_)
  cases s.symbols tp with
  | none => exact .pure _
  | some label => exact .ite (.bind evaluates_warning fun _ => update) fun _ => of_log rfl rfl

end Appends

/-- Messages that a pass adds, without an error or a warning that counts. -/
def Quiet (pass : Nat) (before behind : List Event) : Prop :=
  before <+: behind ∧ noError pass (behind.drop before.length) = true ∧
    noWarning pass (behind.drop before.length) = true

instance (pass : Nat) (before behind : List Event) : Decidable (Quiet pass before behind) :=
  inferInstanceAs (Decidable (_ ∧ _ ∧ _))

theorem quiet_append {pass : Nat} {before added : List Event} :
    Quiet pass before (before ++ added) ↔ noError pass added = true ∧ noWarning pass added = true := by
  rw [Quiet, List.drop_left]
  exact ⟨fun h => h.2, fun h => ⟨List.prefix_append _ _, h⟩⟩

/-- The messages behind a part are a part of all. -/
theorem Quiet.of_prefix {pass : Nat} {before between behind : List Event}
    (h : Quiet pass before behind) (hbetween : before <+: between) (hbehind : between <+: behind) :
    Quiet pass between behind := by
  obtain ⟨first, rfl⟩ := hbetween
  obtain ⟨second, rfl⟩ := hbehind
  rw [List.append_assoc, quiet_append, noError_append, noWarning_append] at h
  simp only [Bool.and_eq_true] at h
  rw [quiet_append]
  exact ⟨h.1.2, h.2.2⟩

/-- In the last pass a label that gives no message keeps its page. -/
theorem labelPage_checkLabel {tp : Text} {val : Aint} {traits : Traits} {s : AsmState n m}
    (hdefl : traits.isDefl = false)
    (hquiet : Quiet lastPass s.log ((checkLabel tp val traits).final s).log) :
    ((checkLabel tp val traits).final s).labelPage tp = s.labelPage tp := by
  rw [checkLabel, final_bind_of_some (exec_get s)] at hquiet ⊢
  simp only [hdefl, Bool.and_false, Bool.false_eq_true, Program.when, if_false] at hquiet ⊢
  rw [final_bind_of_some (exec_pure () s), final_bind_of_some (exec_get s)] at hquiet ⊢
  -- the label has to be there, with the value that the last pass computes
  rcases hfind : (s.find tp).isNone with _ | _
  · simp only [hfind, Bool.false_eq_true, if_false] at hquiet ⊢
    rw [final_bind_of_some (exec_pure () s), final_bind_of_some (exec_get s)] at hquiet ⊢
    rcases hlabel : s.symbols tp with _ | label
    · rfl
    · simp only [hlabel] at hquiet ⊢
      split_ifs at hquiet ⊢ with hval
      · -- a value that differs gives a warning
        obtain ⟨t, ht, hlog⟩ : ∃ t, (warning "Label has different value in pass 3"
            (some ("previous value " ++ toString label.value.toNat ++ " not equal " ++
              toString val.toNat).toList)).exec s = (some (), t) ∧ t.log = s.log ++ [.warning
              "Label has different value in pass 3" (some ("previous value " ++
                toString label.value.toNat ++ " not equal " ++ toString val.toNat).toList) .pass3] :=
          ⟨_, rfl, rfl⟩
        have hupdate : (t.update tp val).log = t.log := by
          unfold update
          cases t.symbols tp with
          | none => rfl
          | some label => rfl
        rw [final_bind_of_some ht] at hquiet
        have hquiet : Quiet lastPass s.log (t.update tp val).log := hquiet
        rw [hupdate, hlog, quiet_append] at hquiet
        simp [noWarning, Event.isWarning, EWStatus.active] at hquiet
      · exact (labelPage_setSymbol _ _ _).trans (labelPage_of_symbol hlabel).symm
  · -- a label that is missing gives an error
    simp only [hfind, if_true] at hquiet
    have hquiet : Quiet lastPass s.log (s.log ++ [.error "Label not found" (some tp) .pass3]) := hquiet
    rw [quiet_append] at hquiet
    simp [noError, Event.isError, EStatus.active] at hquiet

namespace LabelStore

/-- The page behind an `EQU` is the one in force. -/
theorem pageInForce_of_named (l : LabelStore) {s : AsmState n m} (hequ : l.isEQU = true)
    (hnamed : l.equPageNum ≠ labelPageUndefined) : l.pageInForce s = l.equPageNum :=
  if_pos ⟨hequ, hnamed⟩

/-- Behind a label that keeps its page `$$label` is in force if it was so before. -/
theorem fresh_iff (l : LabelStore) {s t : AsmState n m}
    (hkept : t.labelPage l.tp = s.labelPage l.tp) :
    l.Fresh s t ↔ s.labelPage l.tp = some (l.pageInForce s) := by
  constructor
  · intro h
    exact hkept.symm.trans h.page
  · intro h
    refine ⟨hkept.trans h, fun page hpage => ?_⟩
    unfold sldPage at hpage
    split_ifs at hpage with hequ hnamed
    · -- the page that the `EQU` names
      obtain rfl := Option.some.inj hpage
      exact (l.pageInForce_of_named hequ hnamed).symm
    · rw [h] at hpage
      exact (Option.some.inj hpage).symm

end LabelStore

/-! ### Runs without an error or a warning -/

/-- No step of the run gives an error or a warning. -/
def Run.Clean : {n m : Nat} → {s : AsmState n m} → Run s → Prop
  | _, _, _, .start _ _ => True
  | _, _, _, .pass (s := s) run => run.Clean ∧ Quiet (s.pass + 1) s.log s.initPass.log
  | _, _, _, .device _ _ run => run.Clean
  | _, _, _, .step (s := s) line p rest run => run.Clean ∧
      Quiet s.pass s.log (line.program.final (s.atText p rest)).log

/-- What has given a label the page that it has. -/
inductive PageSource
  /-- It was inserted in this state, as a label for an address or by `EQU`. -/
  | inserted {n m : Nat} (l : LabelStore) (s : AsmState n m)
  /-- Something else has left this page: `DEFL`, a structure, or another statement. -/
  | other (page : Option Page)

/-- The page in force where the label was inserted, unless `Insert` took the short way there. -/
def PageSource.page : PageSource → Option Page
  | inserted l s => some ((l.shortcutPage s).getD (l.pageInForce s))
  | other page => page

/-- The step inserts the label at the end of `ParseLabel`: it is new or due for an update. -/
def Step.inserts (s : AsmState n m) (tp : Text) : Step n m → Option PageSource
  | .label smart =>
    match (lineStore smart).exec s with
    | (some (some l), u) =>
      if l.tp = tp ∧ u.pass ≠ lastPass ∧ (u.symbols tp).all u.needsUpdate then some (.inserted l u)
      else none
    | _ => none
  | _ => none

/-- What has given a label its page in a run. -/
def Run.pageSource (tp : Text) : {n m : Nat} → {s : AsmState n m} → Run s → PageSource
  | _, _, _, .start _ _ => .other none
  | _, _, _, .pass run => run.pageSource tp
  | _, _, _, .device _ _ run => run.pageSource tp
  | _, _, _, .step (s := s) line p rest run =>
    match line.inserts (s.atText p rest) tp with
    | some source => source
    | none =>
      let page := (line.program.final (s.atText p rest)).labelPage tp
      if page = s.labelPage tp then run.pageSource tp else .other page

/-- A label that is inserted at the end of `ParseLabel` has the page of its source. -/
theorem labelPage_of_inserts {step : Step n m} {s : AsmState n m} {tp : Text} {source : PageSource}
    (h : step.inserts s tp = some source) : (step.program.final s).labelPage tp = source.page := by
  cases step with
  | label smart =>
    rw [Step.inserts] at h
    -- only a line that gets to the insertion stores a page
    rcases hstore : (lineStore smart).exec s with ⟨_ | _ | l, u⟩
    · rw [hstore] at h
      cases h
    · rw [hstore] at h
      cases h
    rw [hstore] at h
    dsimp only at h
    split_ifs at h with hinserts
    obtain ⟨rfl, hpass, hupdate⟩ := hinserts
    obtain rfl := Option.some.inj h
    -- the label is new in this pass, so that the insertion takes it
    have hinsertable : u.Insertable l.tp := fun label hlabel => by
      rwa [hlabel, Option.all_some] at hupdate
    have htraits : l.traits.isUndefined = false := rfl
    obtain ⟨t, ht, hpage⟩ := exec_tryInsert_insertable l.val l.equPageNum hinsertable htraits
    have hfinal := final_parseLabel_of_store hstore
    show ((parseLabel smart).final s).labelPage l.tp = _
    rw [hfinal, LabelStore.program, setLabel, final_bind_of_some (exec_get u), if_neg hpass,
      final_bind_of_some (exec_get u), PageSource.page, ← l.insertPage_eq, ← hpage]
    split_ifs
    · rw [final_bind_of_some ht]
      rfl
    · rw [final_bind_of_some ht]
      rfl
  | _ => cases h

/-- **The page of a label** is the one of its source, in every run. -/
theorem pageSource_page {s : AsmState n m} (run : Run s) (tp : Text) :
    (run.pageSource tp).page = s.labelPage tp := by
  induction run with
  | start n m => rfl
  | pass run ih => exact ih
  | device _ _ run ih => exact ih
  | @step _ _ s step lp lines run ih =>
    rw [Run.pageSource]
    rcases h : step.inserts (s.atText lp lines) tp with _ | source
    · dsimp only
      split_ifs with hpage
      · rw [ih, hpage]
      · rfl
    · exact (labelPage_of_inserts h).symm

-- behind `ORG 0xBFFF` the short way of a label at `0xC000` ends in the slot in front of it
example : LabelStore.shortcutPage ⟨['x'], 0xC000, false, labelPageUndefined⟩
      AddressLabel.exampleBorder = some 2 ∧
    LabelStore.pageInForce ⟨['x'], 0xC000, false, labelPageUndefined⟩
      AddressLabel.exampleBorder = 0 := by
  decide +kernel

/-- The step is a line with a label that is no `DEFL`, which has its page at `u`. -/
def Step.Stores (s : AsmState n m) (l : LabelStore) (u : AsmState n m) : Step n m → Prop
  | .label smart => (lineStore smart).exec s = (some (some l), u)
  | _ => False

/-- A property of all labels in the last pass of a run, with the run in front of each. -/
def Run.LastPassStores (P : ∀ {n m : Nat} {s : AsmState n m}, Run s → LabelStore → AsmState n m →
    AsmState n m → Prop) : {n m : Nat} → {s : AsmState n m} → Run s → Prop
  | _, _, _, .start _ _ => True
  | _, _, _, .pass run => run.LastPassStores P
  | _, _, _, .device _ _ run => run.LastPassStores P
  | _, _, _, .step (s := s) line p rest run => run.LastPassStores P ∧
      (s.pass = lastPass → ∀ l u, line.Stores (s.atText p rest) l u →
        P run l u (line.program.final (s.atText p rest)))

/-- **In the last pass of a run without an error or a warning the pages of the labels are in force
exactly when they were inserted with these pages**: when the argument or the mapping was the same there,
and `Insert` did not take another page on its short way. -/
theorem freshPages_iff {s : AsmState n m} (run : Run s) (hclean : run.Clean) :
    run.LastPassStores (fun _ l u t => l.Fresh u t)
      ↔ run.LastPassStores (fun run l u _ => (run.pageSource l.tp).page = some (l.pageInForce u)) := by
  -- by induction on the run: only the lines of the last pass have anything to show
  induction run with
  | start n m => exact Iff.rfl
  | pass run ih => exact ih hclean.1
  | device _ _ run ih => exact ih hclean
  | @step _ _ s step lp lines run ih =>
    obtain ⟨hrun, hquiet⟩ := hclean
    refine and_congr (ih hrun) (forall_congr' fun hpass => forall_congr' fun l =>
      forall_congr' fun u => forall_congr' fun h => ?_)
    cases step with
    | label smart =>
      have hfinal := final_parseLabel_of_store h
      have hkeeps : Appends (s.atText lp lines) ((lineStore smart).final (s.atText lp lines)) :=
        keeps_lineStore _
      rw [final, h] at hkeeps
      have hu : u.pass = lastPass := hkeeps.pass.trans hpass
      have hprogram : l.program.final u = (checkLabel l.tp l.val l.traits).final u := by
        rw [LabelStore.program, setLabel, final_bind_of_some (exec_get u), if_pos hu]
      have hcheck : (parseLabel smart).final (s.atText lp lines)
          = (checkLabel l.tp l.val l.traits).final u := hfinal.trans hprogram
      have hquiet : Quiet s.pass s.log ((parseLabel smart).final (s.atText lp lines)).log := hquiet
      have hpages : SamePages (s.atText lp lines) ((lineStore smart).final (s.atText lp lines)) :=
        keeps_lineStore _
      rw [final, h] at hpages
      -- the page in the table is the one that its last insertion has given
      have hsource : (run.pageSource l.tp).page = u.labelPage l.tp :=
        (pageSource_page run l.tp).trans (hpages l.tp).symm
      show l.Fresh u ((parseLabel smart).final (s.atText lp lines)) ↔ _
      -- the last pass compares the label and leaves its page
      rw [hcheck, hpass] at hquiet
      rw [hcheck]
      dsimp only
      rw [hsource]
      exact l.fresh_iff (labelPage_checkLabel rfl
        (hquiet.of_prefix hkeeps.log (Appends.checkLabel u).log))
    | _ => exact absurd h not_false

def Run.decidableClean : {n m : Nat} → {s : AsmState n m} → (run : Run s) → Decidable run.Clean
  | _, _, _, .start _ _ => inferInstanceAs (Decidable True)
  | _, _, _, .pass (s := s) run =>
    have := run.decidableClean
    inferInstanceAs (Decidable (run.Clean ∧ Quiet (s.pass + 1) s.log s.initPass.log))
  | _, _, _, .device _ _ run => run.decidableClean
  | _, _, _, .step (s := s) line p rest run =>
    have := run.decidableClean
    inferInstanceAs (Decidable (run.Clean ∧
      Quiet s.pass s.log (line.program.final (s.atText p rest)).log))

instance {n m : Nat} {s : AsmState n m} (run : Run s) : Decidable run.Clean := run.decidableClean

/-- A line with a label. -/
def exampleLine (s : AsmState 0 0) (text : String) : AsmState 0 0 :=
  (parseLabel (0, [])).final (s.atText text.toList [])

/-- A pass over the lines `x EQU 5, y`, `y EQU z` and `z EQU 7`. -/
def examplePass (s : AsmState 0 0) : AsmState 0 0 :=
  exampleLine (exampleLine (exampleLine s.initPass "x EQU 5, y") "y EQU z") "z EQU 7"

def Run.examplePass {s : AsmState 0 0} (run : Run s) : Run (Sjasmplus.examplePass s) :=
  .step (.label (0, [])) "z EQU 7".toList [] <| .step (.label (0, [])) "y EQU z".toList [] <|
    .step (.label (0, [])) "x EQU 5, y".toList [] <| .pass run

/-- The run up to the end of the last pass. -/
def exampleForward := (Run.start 0 0).examplePass.examplePass.examplePass

theorem clean_exampleForward : exampleForward.Clean := by decide +kernel

theorem freshPages_exampleForward :
    exampleForward.LastPassStores (fun _ l u t => l.Fresh u t)
      ↔ exampleForward.LastPassStores (fun run l u _ =>
        (run.pageSource l.tp).page = some (l.pageInForce u)) :=
  freshPages_iff exampleForward clean_exampleForward

/-- The end of the first line in the last pass. -/
theorem exampleForward_stores : (Step.label (0, [])).Stores
    ((examplePass (examplePass (AsmState.start 0 0))).initPass.atText "x EQU 5, y".toList [])
    ⟨['x'], 5, true, 7⟩ ((lineStore (0, [])).final
      ((examplePass (examplePass (AsmState.start 0 0))).initPass.atText "x EQU 5, y".toList [])) :=
  exec_of_fst (by decide +kernel)

/-- In the last pass `x` has page 0, as in the pass before, where `y` was 0. -/
theorem not_freshPages_exampleForward :
    exampleForward.Clean ∧ ¬exampleForward.LastPassStores fun _ l u t => l.Fresh u t := by
  refine ⟨clean_exampleForward, fun h => ?_⟩
  have hpass : (examplePass (examplePass (AsmState.start 0 0))).initPass.pass = lastPass := by
    decide +kernel
  obtain ⟨⟨⟨-, hline⟩, -⟩, -⟩ := h
  have hx := (hline hpass ⟨['x'], 5, true, 7⟩ _ exampleForward_stores).page
  rw [LabelStore.pageInForce_of_named _ rfl (by decide)] at hx
  exact absurd hx (by decide +kernel)

end Sjasmplus
