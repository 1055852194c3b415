import Sjasmplus.Displacement
import Sjasmplus.Mapping
import Sjasmplus.Movement

/-!
# The memory pointer (`CheckPage` of `devices.cpp`)

`CheckPage` maps the next page into a slot with the option `next` when the emit address stands right
behind it.  Any other way out of such a slot is a fatal error, which the source takes for impossible.

* `pointsRight_checkPage` — whatever was done in front of it, a check leaves `MemoryPointer` at the byte
  of the emit address, in the page of the slot that contains the address;
* `caughtTooLate_run` — a run gets to the fatal error only by a step that moves the address out of the
  current slot backwards or with a refused `ORG`, or by a check of an address outside of the slot that it
  makes the current one.
-/

namespace Sjasmplus

open Program

variable {n m : Nat}

/-! ### Statements that move the address or map a page -/

/-- The page with a number. -/
def pageOf (m : Nat) (pageNumber : Aint) : Option (Fin m) :=
  if h : 0 ≤ pageNumber.toInt ∧ pageNumber.toInt < m then
    some ⟨pageNumber.toInt.toNat, by omega⟩
  else none

/-- `GetCurrentSlot()->Page = …`. -/
def Device.mapCurrent (device : Device n m) (slot : Fin n) (page : Fin m) : Device n m :=
  device.setSlot slot { device.slots slot with page := page }

namespace EmitState

/-- The address of `ORG`: cropped to 16 bits in device or non-longptr mode. -/
def orgAddress (s : EmitState n m) (val : Aint) : Aint :=
  if (s.device.isSome || !s.isLongPtr) && check16u val ≠ [] then val &&& 0xFFFF else val

/-- `dirORG` up to the comma. -/
def setOrg (val : Aint) (didWriteOutputByte : Bool) (s : EmitState n m) : EmitState n m :=
  let address := (s.orgAddress val).toInt
  { s with
    curAddress := address
    log := s.log ++ ((if s.device.isSome || !s.isLongPtr then check16u val else []) ++
      -- warn about jump in address in raw/output mode
      (if didWriteOutputByte ∧ s.curAddress ≠ address then
        [.warningById .fileOrg (some (toString (address - s.curAddress)).toList) .all]
      else []) ++
      if s.displaced then [.warningById .displacedOrg none .all] else []) }

/-- One turn of the loop of `BinIncFile` in the passes that do not read the file. -/
def includeChunk (length : Nat) (s : EmitState n m) : EmitState n m :=
  match s.device with
  | none => s.advance length
  | some device =>
    let s := s.checkPage .emit device
    match s.device with
    | none => s
    | some device =>
      match device.memoryPointer with
      | none => s.advance length
      | some p =>
        -- fill up current memory page if possible
        let page := device.pages device.page
        let advanceLength := min (length : Int) (page.ram + page.size - p)
        { s.advance advanceLength with
          device := some { device with memoryPointer := some (p + advanceLength).toNat } }

end EmitState

namespace AsmState

/-- The device with the page that `dirPageImpl` maps, if it maps one. -/
def pageDevice (s : AsmState n m) (pageNumber : Aint) : Option (Device n m) :=
  match s.device, s.currentSlot, pageOf m pageNumber with
  | some device, some slot, some page => some (device.mapCurrent slot page)
  | _, _, _ => none

/-- The device that `dirORG` checks, missing when its page is refused. -/
def orgDevice (s : AsmState n m) : Option (Option Aint) → Option (Device n m)
  | none => s.device
  | some none => none
  | some (some pageNumber) => s.pageDevice pageNumber

end AsmState

namespace AsmProgram

/-- `dirPageImpl`. -/
def dirPageImpl (dirName : String) (pageNumber : Aint) : AsmProgram n m Unit := do
  let s ← get
  match s.device, s.currentSlot with
  | some device, some slot =>
    match pageOf m pageNumber with
    | none => report [errorInt ("[" ++ dirName ++ "] Page number must be in range 0.." ++
        toString (m - 1)) pageNumber.toInt .pass3]
    | some page => emit (·.checkPage .reset (device.mapCurrent slot page))
  | _, _ => pure ()

/-- The warning when the current slot does not cover the address of `ORG`. -/
def orgSlotWarning (slotNumber : Fin n) (slot : DeviceSlot m) (address : Int) : List Event :=
  if slot.Contains address then []
  else [.warningById .orgPage (some ("address 0x" ++ hexPadded 4 address.toNat ++ " vs slot " ++
    toString slotNumber.val ++ " range 0x" ++ hexPadded 4 slot.address.toNat ++ "..0x" ++
    hexPadded 4 (slot.address + slot.size - 1).toNat).toList) .all]

/-- `dirORG` from the comma on: the page is there when a comma follows the address, and its value is
missing when it has a syntax error. -/
def orgPage (pageNumber : Option (Option Aint)) : AsmProgram n m Unit := do
  let s ← get
  match s.device, pageNumber, s.currentSlot with
  | some device, none, _ => emit (·.checkPage .reset device)
  | some device, some pageNumber, some slot =>
    report (orgSlotWarning slot (device.slots slot) s.curAddress)
    match pageNumber with
    | none => error "Syntax error in <page_number>" (some s.lp) .suppress
    | some pageNumber => dirPageImpl "ORG" pageNumber
  | _, _, _ => pure ()

/-- `dirORG` behind its operands. -/
def org (val : Aint) (didWriteOutputByte : Bool) (pageNumber : Option (Option Aint)) :
    AsmProgram n m Unit := do
  emit (·.setOrg val didWriteOutputByte)
  orgPage pageNumber

/-- `dirPAGE` behind its operand. -/
def page (pageNumber : Aint) : AsmProgram n m Unit := do
  if (← get).device.isNone then
    warning "PAGE only allowed in real device emulation mode (See DEVICE)"
  else dirPageImpl "PAGE" pageNumber

/-- `dirSLOT` behind its operand. -/
def slot (val : Aint) : AsmProgram n m Unit := do
  match (← get).device with
  | none => warning "SLOT only allowed in real device emulation mode (See DEVICE)"
  | some device =>
    let slotNumber := (device.slotNumberFromPreciseAddress val).toInt
    if h : 0 ≤ slotNumber ∧ slotNumber < n then
      modify fun s => { s with currentSlot := some ⟨slotNumber.toNat, by omega⟩ }
    else
      error ("[SLOT] Slot number must be in range 0.." ++ toString (n - 1) ++
        ", or exact starting address of slot") none .ifFirst

end AsmProgram

/-! ### What a check leaves behind -/

/-- The fatal error of a slot with the option `next` that was left too far. -/
def Event.isTooLate : Event → Bool
  | .error message _ .fatal =>
    message = "Write beyond memory slot in wrap-around slot caught too late by"
  | _ => false

/-- Only an error may be the fatal one. -/
theorem Event.isTooLate_of_not_error {e : Event} (h : e.isErrorCall = false) : e.isTooLate = false := by
  cases e <;> first | rfl | simp [isErrorCall] at h

namespace Device

variable (device : Device n m)

/-- The current slot has the option `next`, and its page is not the last one. -/
def Armed : Prop :=
  device.previousSlotOpt = .next ∧ (device.slots device.previousSlotI).page.val + 1 < m

/-- The address lies in the current slot or right behind it, if the slot is to map a next page. -/
def InReach (address : Int) : Prop :=
  device.Armed → (device.slots device.previousSlotI).address ≤ address ∧
    address ≤ (device.slots device.previousSlotI).address + (device.slots device.previousSlotI).size

/-- `Page` is that of the current slot, if the slot has the option `next`. -/
def Shown : Prop :=
  device.previousSlotOpt = .next → device.page = (device.slots device.previousSlotI).page

/-- A check of the address makes a slot the current one that does not contain the address, although it
is to map a next page. -/
structure Strands (level : CheckPageLevel) (address : Int) (i : Fin n) : Prop where
  found : device.findSlot address = some i
  outside : ¬(device.slots i).Contains address
  option : (device.slots i).option = .next
  next : (device.slots i).page.val + 1 < m
  leaves : level ≠ .reset → ¬device.Armed ∧ ¬(device.slots device.previousSlotI).Contains address
  current : level = .noEmit → device.previousSlotOpt = .next

instance (level : CheckPageLevel) (address : Int) (i : Fin n) :
    Decidable (device.Strands level address i) :=
  decidable_of_iff (device.findSlot address = some i ∧ ¬(device.slots i).Contains address ∧
    (device.slots i).option = .next ∧ (device.slots i).page.val + 1 < m ∧
    (level ≠ .reset → ¬(device.previousSlotOpt = .next ∧
      (device.slots device.previousSlotI).page.val + 1 < m) ∧
      ¬(device.slots device.previousSlotI).Contains address) ∧
    (level = .noEmit → device.previousSlotOpt = .next))
    ⟨fun ⟨h₁, h₂, h₃, h₄, h₅, h₆⟩ => ⟨h₁, h₂, h₃, h₄, h₅, h₆⟩,
      fun ⟨h₁, h₂, h₃, h₄, h₅, h₆⟩ => ⟨h₁, h₂, h₃, h₄, h₅, h₆⟩⟩

instance (address : Int) : Decidable (device.InReach address) :=
  inferInstanceAs (Decidable (_ ∧ _ → _ ∧ _))

/-- What a check of an address leaves when it does not get to the fatal error. -/
structure ChecksWell (r : CheckResult n m) (longAddr : Int) : Prop where
  log : ∀ e ∈ r.log, e.isTooLate = false
  places : device.SamePlaces r.device
  pages : r.device.pages = device.pages
  inside : r.device.Armed →
    (r.device.slots r.device.previousSlotI).Contains (longAddr - r.back)
  pointer : r.device.Armed → r.device.memoryPointer.isSome
  shown : r.device.Shown

theorem samePlaces_of_slots {device device' : Device n m} (h : device'.slots = device.slots) :
    device.SamePlaces device' := by
  intro i
  rw [h]
  exact ⟨rfl, rfl⟩

/-- A slot that only shows something else stands where it stood. -/
theorem samePlaces_setSlot (i : Fin n) (slot : DeviceSlot m)
    (haddress : slot.address = (device.slots i).address) (hsize : slot.size = (device.slots i).size) :
    device.SamePlaces (device.setSlot i slot) := by
  intro j
  by_cases hj : j = i
  · subst hj
    simp only [setSlot, Function.update_self]
    exact ⟨haddress, hsize⟩
  · simp only [setSlot, Function.update_of_ne hj]
    exact ⟨trivial, trivial⟩

theorem SamePlaces.trans {device device' device'' : Device n m} (h : device.SamePlaces device')
    (h' : device'.SamePlaces device'') : device.SamePlaces device'' :=
  fun i => ⟨(h' i).1.trans (h i).1, (h' i).2.trans (h i).2⟩

variable {device}

theorem isSome_showSlot {i : Fin n} {longAddr : Int} (h : (device.slots i).Contains longAddr) :
    (device.showSlot i longAddr).memoryPointer.isSome := by
  rw [showSlot, if_pos h]
  rfl

/-- A check that only looked up slot `i`. -/
theorem checksWell_refresh {device' : Device n m} {level : CheckPageLevel} {i : Fin n}
    {longAddr : Int} {log : List Event} (hlog : ∀ e ∈ log, e.isTooLate = false)
    (hslots : device'.slots = device.slots) (hpages : device'.pages = device.pages)
    (hpointer : device'.memoryPointer = (device.showSlot i longAddr).memoryPointer)
    (hpage : device'.page = (device.slots i).page)
    (hkeeps : level ≠ .emit → device'.previousSlotOpt ≠ .next)
    (hinside : level = .emit → (device.slots i).option = .next →
      (device.slots i).page.val + 1 < m → (device.slots i).Contains longAddr) :
    device.ChecksWell ⟨device'.refresh level i, 0, log⟩ longAddr := by
  unfold refresh
  -- an emitting check shows the slot it has found, the other ones stay with the old one
  by_cases hemit : level = .emit
  · rw [if_pos hemit]
    refine ⟨hlog, samePlaces_of_slots hslots, hpages, fun ⟨hopt, hnext⟩ => ?_,
      fun ⟨hopt, hnext⟩ => ?_, fun _ => ?_⟩
    · dsimp only at hopt hnext ⊢
      rw [hslots] at hopt hnext ⊢
      rw [Int.natCast_zero, Int.sub_zero]
      exact hinside hemit hopt hnext
    · dsimp only at hopt hnext ⊢
      rw [hslots] at hopt hnext
      rw [hpointer]
      exact isSome_showSlot (hinside hemit hopt hnext)
    · dsimp only
      rw [hslots, hpage]
  · rw [if_neg hemit]
    exact ⟨hlog, samePlaces_of_slots hslots, hpages, fun ⟨hopt, _⟩ => absurd hopt (hkeeps hemit),
      fun ⟨hopt, _⟩ => absurd hopt (hkeeps hemit), fun hopt => absurd hopt (hkeeps hemit)⟩

/-- Mapping the next page shows its first byte at the start of the slot. -/
theorem checksWell_mapPage {device' : Device n m} {page : Fin m} {longAddr : Int}
    (hslots : device'.slots = device.slots) (hpages : device'.pages = device.pages)
    (hprev : device'.previousSlotI = device.previousSlotI)
    (hborder : longAddr = (device.slots device.previousSlotI).address
      + (device.slots device.previousSlotI).size) :
    device.ChecksWell ⟨device'.mapPage page, (device.slots device.previousSlotI).size, []⟩ longAddr where
  log := by simp
  places := by
    have hplaces := samePlaces_setSlot device' device'.previousSlotI
      { device'.slots device'.previousSlotI with page := page } rfl rfl
    exact (samePlaces_of_slots hslots).trans hplaces
  pages := hpages
  inside _ := by
    have hsize := (device.slots device.previousSlotI).size_pos
    simp only [mapPage, setSlot, Function.update_self, hslots, hprev]
    constructor <;> dsimp only <;> omega
  pointer _ := rfl
  shown _ := by simp [mapPage, setSlot]

/-- The last page cannot be followed by another one: the slot loses its option. -/
theorem checksWell_disabled {level : CheckPageLevel} {i : Fin n}
    {longAddr : Int} (hfind : device.findSlot longAddr = some i)
    (hprev : ¬(device.slots device.previousSlotI).Contains longAddr)
    (hopt : device.previousSlotOpt = .next)
    (hlast : ¬(device.slots device.previousSlotI).page.val + 1 < m)
    (hstrands : ¬device.Strands level longAddr i) :
    device.ChecksWell ((device.showSlot i longAddr).nextPage level i longAddr) longAddr := by
  have hplaces := samePlaces_setSlot device device.previousSlotI
    { device.slots device.previousSlotI with option := .none } rfl rfl
  have hother : ∀ hne : i ≠ device.previousSlotI,
      (device.setSlot device.previousSlotI
        { device.slots device.previousSlotI with option := .none }).slots i = device.slots i :=
    fun hne => Function.update_of_ne hne _ _
  -- whatever the level, slot `i` becomes the current one
  have hcurrent : ∀ device' : Device n m, device'.slots = (device.setSlot device.previousSlotI
        { device.slots device.previousSlotI with option := .none }).slots →
      device'.pages = device.pages → device'.page = (device.slots i).page →
      device'.memoryPointer = (device.showSlot i longAddr).memoryPointer →
      device'.previousSlotI = i → device'.previousSlotOpt = (device'.slots i).option →
      device.ChecksWell ⟨device', 0, [errorInt "No more memory pages to map next one into slot"
        device.previousSlotI.val .suppress]⟩ longAddr := by
    intro device' hslots hpages hpage hpointer hi hopt'
    have hinside : device'.Armed → i ≠ device.previousSlotI ∧
        (device.slots i).Contains longAddr := by
      rintro ⟨harmed, hmore⟩
      rw [hopt', hslots] at harmed
      rw [hi, hslots] at hmore
      by_cases hne : i = device.previousSlotI
      · simp [setSlot, hne] at harmed
      · rw [hother hne] at harmed hmore
        refine ⟨hne, ?_⟩
        by_contra houtside
        exact hstrands ⟨hfind, houtside, harmed, hmore, fun _ => ⟨fun h => hlast h.2, hprev⟩,
          fun _ => hopt⟩
    refine ⟨by simp [errorInt, Event.isTooLate], hplaces.trans (samePlaces_of_slots hslots), hpages,
      fun harmed => ?_, fun harmed => ?_, fun harmed => ?_⟩
    · obtain ⟨hne, hcontains⟩ := hinside harmed
      dsimp only
      rw [hi, hslots, hother hne, Int.natCast_zero, Int.sub_zero]
      exact hcontains
    · dsimp only
      rw [hpointer]
      exact isSome_showSlot (hinside harmed).2
    · dsimp only at harmed ⊢
      rw [hopt', hslots] at harmed
      rw [hi, hslots, hpage]
      by_cases hne : i = device.previousSlotI
      · simp [setSlot, hne] at harmed
      · rw [hother hne]
  have hlast' : ¬((device.showSlot i longAddr).slots
      (device.showSlot i longAddr).previousSlotI).page.val + 1 < m := hlast
  unfold nextPage
  dsimp only
  rw [dif_neg hlast']
  unfold refresh
  split_ifs
  · exact hcurrent _ rfl rfl rfl rfl rfl rfl
  · exact hcurrent _ rfl rfl rfl rfl rfl rfl

/-- The option `next`. -/
theorem checksWell_nextPage {level : CheckPageLevel} {i : Fin n}
    {longAddr : Int} (hfind : device.findSlot longAddr = some i)
    (hprev : ¬(device.slots device.previousSlotI).Contains longAddr)
    (hopt : device.previousSlotOpt = .next) (hreach : device.InReach longAddr)
    (hstrands : ¬device.Strands level longAddr i) :
    device.ChecksWell ((device.showSlot i longAddr).nextPage level i longAddr) longAddr := by
  by_cases hnext : (device.slots device.previousSlotI).page.val + 1 < m
  -- an address in reach that is outside of the slot is right behind it
  · have hborder : longAddr = (device.slots device.previousSlotI).address
        + (device.slots device.previousSlotI).size := by
      obtain ⟨hlow, hhigh⟩ := hreach ⟨hopt, hnext⟩
      by_contra hne
      exact hprev ⟨hlow, lt_of_le_of_ne hhigh hne⟩
    have hmap : (device.showSlot i longAddr).nextPage level i longAddr
        = ⟨(device.showSlot i longAddr).mapPage ⟨_, hnext⟩,
          (device.slots device.previousSlotI).size, []⟩ := by
      unfold nextPage
      simp only [showSlot, hnext, hborder, dite_true, ne_eq, not_true_eq_false, if_false]
    rw [hmap]
    exact checksWell_mapPage rfl rfl rfl hborder
  · exact checksWell_disabled hfind hprev hopt hnext hstrands

/-- Leaving the current slot. -/
theorem checksWell_crossSlot (lastPass : Bool) {level : CheckPageLevel} {i : Fin n}
    {longAddr : Int} (hfind : device.findSlot longAddr = some i)
    (hprev : ¬(device.slots device.previousSlotI).Contains longAddr)
    (hreach : device.InReach longAddr) (hstrands : ¬device.Strands level longAddr i) :
    device.ChecksWell ((device.showSlot i longAddr).crossSlot lastPass level i longAddr)
      longAddr := by
  by_cases hopt : device.previousSlotOpt = .next
  · have hcross : (device.showSlot i longAddr).crossSlot lastPass level i longAddr
        = (device.showSlot i longAddr).nextPage level i longAddr := by
      simp only [crossSlot, showSlot, hopt]
    rw [hcross]
    exact checksWell_nextPage hfind hprev hopt hreach hstrands
  -- a slot with the option is not shown for an address outside of it, or it would strand
  · have hinside : level = .emit → (device.slots i).option = .next →
        (device.slots i).page.val + 1 < m → (device.slots i).Contains longAddr := by
      intro hemit hnext hpage
      by_contra houtside
      refine hstrands ⟨hfind, houtside, hnext, hpage, fun _ => ⟨fun harmed => hopt harmed.1, hprev⟩, ?_⟩
      intro hnoEmit
      rw [hemit] at hnoEmit
      exact absurd hnoEmit (by decide)
    have hrefresh : ∀ (device' : Device n m) (log : List Event), (∀ e ∈ log, e.isTooLate = false) →
        device'.slots = device.slots → device'.pages = device.pages →
        device'.memoryPointer = (device.showSlot i longAddr).memoryPointer →
        device'.page = (device.slots i).page → (level ≠ .emit → device'.previousSlotOpt ≠ .next) →
        device.ChecksWell ⟨device'.refresh level i, 0, log⟩ longAddr :=
      fun device' log hlog hslots hpages hpointer hpage hkeeps =>
        checksWell_refresh hlog hslots hpages hpointer hpage hkeeps hinside
    unfold crossSlot
    dsimp only
    -- the other options report at most, and refresh
    split
    · split_ifs
      · exact hrefresh _ _ (by simp [errorInt, Event.isTooLate]) rfl rfl rfl rfl fun _ => hopt
      · exact hrefresh _ _ (by simp) rfl rfl rfl rfl fun _ => hopt
    · split_ifs
      · exact hrefresh _ _ (by simp [Event.isTooLate]) rfl rfl rfl rfl fun _ => hopt
      · exact hrefresh _ _ (by simp) rfl rfl rfl rfl fun _ => hopt
    · exact absurd ‹_› hopt
    · split_ifs
      · exact hrefresh _ _ (by simp [errorInt, Event.isTooLate]) rfl rfl rfl rfl fun _ => hopt
      · exact hrefresh _ _ (by simp) rfl rfl rfl rfl fun _ => hopt

/-- A check that does not get to the fatal error. -/
theorem checksWell_check (lastPass : Bool) (level : CheckPageLevel) {longAddr : Int}
    (hlayout : device.SlotLayout) (hreach : level ≠ .reset → device.InReach longAddr)
    (hshown : level ≠ .reset → device.Shown)
    (hstrands : ∀ i, ¬device.Strands level longAddr i) :
    device.ChecksWell (device.check lastPass level longAddr) longAddr := by
  obtain ⟨i, hfind, -⟩ := hlayout.exists_findSlot longAddr
  unfold check
  dsimp only
  -- the short way stays in the slot
  by_cases hquick : level ≠ .reset ∧ (device.slots device.previousSlotI).Contains longAddr
  · rw [if_pos hquick]
    refine ⟨by simp, samePlaces_of_slots rfl, rfl, fun _ => ?_, fun _ => rfl, hshown hquick.1⟩
    rw [Int.natCast_zero, Int.sub_zero]
    exact hquick.2
  · rw [if_neg hquick, hfind]
    dsimp only
    -- a reset shows the slot as it is
    by_cases hreset : level = .reset
    · rw [if_pos hreset]
      have hinside : (device.slots i).option = .next → (device.slots i).page.val + 1 < m →
          (device.slots i).Contains longAddr := by
        intro hopt hnext
        by_contra houtside
        refine hstrands i ⟨hfind, houtside, hopt, hnext, fun h => absurd hreset h, fun h => ?_⟩
        rw [hreset] at h
        exact absurd h (by decide)
      refine ⟨by simp, samePlaces_of_slots rfl, rfl, fun ⟨hopt, hnext⟩ => ?_,
        fun ⟨hopt, hnext⟩ => isSome_showSlot (hinside hopt hnext), fun _ => rfl⟩
      rw [Int.natCast_zero, Int.sub_zero]
      exact hinside hopt hnext
    · have hprev : ¬(device.slots device.previousSlotI).Contains longAddr :=
        fun h => hquick ⟨hreset, h⟩
      have hne : ¬(i = device.previousSlotI ∧ (device.slots i).Contains longAddr) := by
        rintro ⟨rfl, h⟩
        exact hprev h
      rw [if_neg hreset, if_neg hne]
      exact checksWell_crossSlot lastPass hfind hprev (hreach hreset) (hstrands i)

/-! ### The memory pointer -/

/-- `MemoryPointer` is the byte of the address, in the page of the slot that contains the address. -/
def PointsRight (device : Device n m) (address : Int) : Prop :=
  ∀ p, device.memoryPointer = some p →
    ∃ i, (device.slots i).Contains address ∧ p = device.ramPointer (device.slots i) address

namespace PointsRight

variable {address : Int}

/-- Options of slots do not matter. -/
theorem of_same {device' : Device n m} (h : device.PointsRight address)
    (hpointer : device'.memoryPointer = device.memoryPointer) (hpages : device'.pages = device.pages)
    (hplaces : device.SamePlaces device')
    (hshown : ∀ i, (device'.slots i).page = (device.slots i).page) : device'.PointsRight address := by
  intro p hp
  obtain ⟨i, ⟨hlow, hhigh⟩, rfl⟩ := h p (hpointer ▸ hp)
  obtain ⟨haddress, hsize⟩ := hplaces i
  refine ⟨i, ⟨by omega, by omega⟩, ?_⟩
  rw [ramPointer, ramPointer, hpages, hshown, haddress]

theorem showSlot (device : Device n m) (i : Fin n) (address : Int) :
    (device.showSlot i address).PointsRight address := by
  intro p hp
  unfold Device.showSlot at hp
  dsimp only at hp
  split_ifs at hp with hcontains
  · exact ⟨i, hcontains, (Option.some.inj hp).symm⟩

theorem refresh {device' : Device n m} (h : device.PointsRight address)
    (hpointer : device'.memoryPointer = device.memoryPointer) (hpages : device'.pages = device.pages)
    (hslots : device'.slots = device.slots) (level : CheckPageLevel) (i : Fin n) :
    (device'.refresh level i).PointsRight address := by
  have hsame : (device'.refresh level i).memoryPointer = device'.memoryPointer ∧
      (device'.refresh level i).pages = device'.pages ∧
      (device'.refresh level i).slots = device'.slots := by
    unfold Device.refresh
    split_ifs <;> exact ⟨rfl, rfl, rfl⟩
  refine h.of_same (hsame.1.trans hpointer) (hsame.2.1.trans hpages)
    (samePlaces_of_slots (hsame.2.2.trans hslots)) fun j => ?_
  rw [hsame.2.2, hslots]

theorem nextPage {device : Device n m} (h : device.PointsRight address) (level : CheckPageLevel)
    (i : Fin n) :
    (device.nextPage level i address).device.PointsRight
      (address - (device.nextPage level i address).back) := by
  unfold Device.nextPage
  dsimp only
  -- no next page, the border of the slot, and an address too far behind it
  split_ifs with hnext hborder
  · rw [Int.natCast_zero, Int.sub_zero]
    exact h.refresh rfl rfl rfl level i
  · -- the first byte of the page, at the start of the slot
    have hsize := (device.slots device.previousSlotI).size_pos
    intro p hp
    refine ⟨device.previousSlotI, ?_, ?_⟩
    · simp only [mapPage, setSlot, Function.update_self]
      constructor <;> dsimp only <;> omega
    · rw [mapPage] at hp
      simp only [ramPointer, mapPage, setSlot, Function.update_self]
      have hstart : address - (device.slots device.previousSlotI).size
          - (device.slots device.previousSlotI).address = 0 := by omega
      rw [hstart]
      exact (Option.some.inj hp).symm
  · rw [Int.natCast_zero, Int.sub_zero]
    -- the option is taken off, which moves no slot
    have hplaces := samePlaces_setSlot device device.previousSlotI
      { device.slots device.previousSlotI with option := .none } rfl rfl
    have hdisabled : (device.setSlot device.previousSlotI
        { device.slots device.previousSlotI with option := .none }).PointsRight address := by
      refine h.of_same rfl rfl hplaces fun j => ?_
      by_cases hj : j = device.previousSlotI
      · subst hj
        simp [setSlot]
      · simp [setSlot, hj]
    exact hdisabled.refresh (by rfl) (by rfl) (by rfl) level i

theorem crossSlot {device : Device n m} (h : device.PointsRight address) (lastPass : Bool)
    (level : CheckPageLevel) (i : Fin n) :
    (device.crossSlot lastPass level i address).device.PointsRight
      (address - (device.crossSlot lastPass level i address).back) := by
  have hrefresh : ∀ device' : Device n m, device'.memoryPointer = device.memoryPointer →
      device'.pages = device.pages → device'.slots = device.slots →
      (device'.refresh level i).PointsRight (address - ((0 : Nat) : Int)) := by
    intro device' hpointer hpages hslots
    rw [Int.natCast_zero, Int.sub_zero]
    exact h.refresh hpointer hpages hslots level i
  unfold Device.crossSlot
  dsimp only
  split
  · split_ifs <;> exact hrefresh _ rfl rfl rfl
  · split_ifs <;> exact hrefresh _ rfl rfl rfl
  · exact h.nextPage level i
  · split_ifs <;> exact hrefresh _ rfl rfl rfl

/-- Every check leaves the right pointer. -/
theorem check (hlayout : device.SlotLayout) (lastPass : Bool) (level : CheckPageLevel)
    (address : Int) :
    (device.check lastPass level address).device.PointsRight
      (address - (device.check lastPass level address).back) := by
  obtain ⟨i, hfind, -⟩ := hlayout.exists_findSlot address
  have hshow := showSlot device i address
  unfold Device.check
  dsimp only
  -- the pointer is computed for the slot that contains the address
  by_cases hquick : level ≠ .reset ∧ (device.slots device.previousSlotI).Contains address
  · rw [if_pos hquick, Int.natCast_zero, Int.sub_zero]
    intro p hp
    exact ⟨device.previousSlotI, hquick.2, (Option.some.inj hp).symm⟩
  · rw [if_neg hquick, hfind]
    dsimp only
    split_ifs
    · rw [Int.natCast_zero, Int.sub_zero]
      exact hshow.of_same rfl rfl (samePlaces_of_slots rfl) fun _ => rfl
    · rw [Int.natCast_zero, Int.sub_zero]
      exact hshow
    · exact hshow.crossSlot lastPass level i

end PointsRight

/-- What runs keep of a device, with the address where the next byte goes. -/
structure Sound (device : Device n m) (address : Int) : Prop where
  layout : device.SlotLayout
  sizes : ∀ page i, (device.pages page).size = (device.slots i).size
  reach : device.InReach address
  shown : device.Shown

/-- An address of the processor lies in the slot that a check finds. -/
theorem SlotLayout.not_strands (h : device.SlotLayout) (level : CheckPageLevel) {address : Int}
    (hlow : 0 ≤ address) (hhigh : address < 0x10000) (i : Fin n) :
    ¬device.Strands level address i := by
  rintro ⟨hfound, houtside, -⟩
  obtain ⟨j, hfind, hcontains⟩ := h.exists_findSlot address
  obtain rfl := Option.some.inj (hfound.symm.trans hfind)
  rw [Int.emod_eq_of_lt hlow hhigh] at hcontains
  exact houtside hcontains

end Device

/-! ### The memory image of a run -/

namespace MemoryImage

variable {im : MemoryImage n m}

/-- The fatal error was never reported, and every device is as runs keep it. -/
structure Safe (im : MemoryImage n m) : Prop where
  errors : ∀ e ∈ im.errors, e.isTooLate = false
  sound : ∀ device, im.device = some device → device.Sound im.address

/-- Behind a check the address is inside of the current slot, if that is to map a next page. -/
structure Checked (im : MemoryImage n m) : Prop extends im.Safe where
  inside : ∀ device, im.device = some device → device.Armed →
    (device.slots device.previousSlotI).Contains im.address

/-- A check of an address that it may move to. -/
theorem checked_checkPage {level : CheckPageLevel} {device : Device n m}
    (herrors : ∀ e ∈ im.errors, e.isTooLate = false) (hlayout : device.SlotLayout)
    (hsizes : ∀ page i, (device.pages page).size = (device.slots i).size)
    (hreach : level ≠ .reset → device.InReach im.address) (hshown : level ≠ .reset → device.Shown)
    (hstrands : ∀ i, ¬device.Strands level im.address i) : (im.checkPage level device).Checked := by
  have hcheck := Device.checksWell_check im.lastPass level hlayout hreach hshown hstrands
  -- an armed slot contains the address behind the check
  have hinside : ∀ device', (im.checkPage level device).device = some device' → device'.Armed →
      (device'.slots device'.previousSlotI).Contains (im.checkPage level device).address := by
    intro device' hdevice'
    obtain rfl := Option.some.inj hdevice'
    exact hcheck.inside
  refine ⟨⟨fun e he => ?_, fun device' hdevice' => ?_⟩, hinside⟩
  · rcases List.mem_append.mp he with he | he
    · exact herrors e he
    · exact hcheck.log e (List.mem_filter.mp he).1
  -- and so the address is in reach of it
  · have harmed := hinside device' hdevice'
    obtain rfl := Option.some.inj hdevice'
    refine ⟨hlayout.of_places hcheck.places, fun page i => ?_, fun h => ?_, hcheck.shown⟩
    · rw [hcheck.pages, (hcheck.places i).2]
      exact hsizes page i
    · obtain ⟨hlow, hhigh⟩ := harmed h
      exact ⟨hlow, hhigh.le⟩

/-- A check where the address is. -/
theorem Safe.checkPage (h : im.Safe) {level : CheckPageLevel} {device : Device n m}
    (hdevice : im.device = some device) (hstrands : ∀ i, ¬device.Strands level im.address i) :
    (im.checkPage level device).Checked := by
  have hsound := h.sound device hdevice
  exact checked_checkPage h.errors hsound.layout hsound.sizes (fun _ => hsound.reach)
    (fun _ => hsound.shown) hstrands

/-- Behind a check the pointer shows the address in the current slot, if that is to map a next page. -/
theorem Safe.pointer_checkPage (h : im.Safe) {level : CheckPageLevel} {device device' : Device n m}
    (hdevice : im.device = some device) (hstrands : ∀ i, ¬device.Strands level im.address i)
    (hdevice' : (im.checkPage level device).device = some device') (harmed : device'.Armed) :
    device'.memoryPointer = some (device'.ramPointer (device'.slots device'.previousSlotI)
      (im.checkPage level device).address) := by
  -- both the pointer and the address are of the slot that contains the address
  have hsound := h.sound device hdevice
  have hchecked := h.checkPage hdevice hstrands
  have hinside := hchecked.inside device' hdevice' harmed
  have hlayout := (hchecked.sound device' hdevice').layout
  have hcheck := Device.checksWell_check im.lastPass level hsound.layout (fun _ => hsound.reach)
    (fun _ => hsound.shown) hstrands
  have hright := Device.PointsRight.check hsound.layout im.lastPass level im.address
  obtain rfl := Option.some.inj hdevice'
  obtain ⟨p, hp⟩ := Option.isSome_iff_exists.mp (hcheck.pointer harmed)
  obtain ⟨i, hcontains, rfl⟩ := hright p hp
  rw [← hlayout.contains_unique hcontains hinside]
  exact hp

theorem Checked.advance_one (h : im.Checked) : (im.advance 1).Safe where
  errors := h.errors
  sound device hdevice := by
    have hsound := h.sound device hdevice
    refine ⟨hsound.layout, hsound.sizes, fun harmed => ?_, hsound.shown⟩
    obtain ⟨hlow, hhigh⟩ := h.inside device hdevice harmed
    simp only [advance]
    constructor <;> omega

/-- Writing through the pointer changes the memory and the pointer only. -/
theorem Checked.writeMemory (h : im.Checked) (byte : Byte) (preserveDeviceMemory lastPass : Bool) :
    ({ im with device := im.device.map (EmitState.writeMemory byte preserveDeviceMemory lastPass) } :
      MemoryImage n m).Checked := by
  -- in all its branches the write changes the memory and the pointer alone
  have hsame : ∀ device : Device n m, ∃ memory pointer,
      EmitState.writeMemory byte preserveDeviceMemory lastPass device
        = { device with memory := memory, memoryPointer := pointer } := by
    intro device
    unfold EmitState.writeMemory
    split
    · exact ⟨_, _, rfl⟩
    · dsimp only
      split_ifs
      · exact ⟨_, _, rfl⟩
      · exact ⟨_, _, rfl⟩
  have hwritten : ∀ device', im.device.map
        (EmitState.writeMemory byte preserveDeviceMemory lastPass) = some device' →
      ∃ device memory pointer, im.device = some device ∧
        device' = { device with memory := memory, memoryPointer := pointer } := by
    intro device' hdevice'
    obtain ⟨device, hdevice, rfl⟩ := Option.map_eq_some_iff.mp hdevice'
    obtain ⟨memory, pointer, hwrite⟩ := hsame device
    exact ⟨device, memory, pointer, hdevice, hwrite⟩
  refine ⟨⟨h.errors, fun device' hdevice' => ?_⟩, fun device' hdevice' => ?_⟩
  · obtain ⟨device, memory, pointer, hdevice, rfl⟩ := hwritten device' hdevice'
    have hsound := h.sound device hdevice
    exact ⟨⟨hsound.layout.follow, hsound.layout.covers⟩, hsound.sizes, hsound.reach, hsound.shown⟩
  · obtain ⟨device, memory, pointer, hdevice, rfl⟩ := hwritten device' hdevice'
    exact h.inside device hdevice

/-- An emitted byte. -/
theorem Safe.emitByte (h : im.Safe) (byte : Byte) (preserveDeviceMemory : Bool)
    (hstrands : ∀ device, im.device = some device → ∀ i, ¬device.Strands .emit im.address i) :
    (im.emitByte byte preserveDeviceMemory).Safe := by
  -- the byte is placed after a check, and moves the address one on
  have hplace : ∀ im' : MemoryImage n m, im'.device = im.device → im'.address = im.address →
      im'.errors = im.errors → ((im'.placeByte byte preserveDeviceMemory).advance 1).Safe := by
    intro im' hdevice haddress herrors
    have h' : im'.Safe := ⟨herrors ▸ h.errors, hdevice ▸ haddress ▸ h.sound⟩
    unfold placeByte
    cases hselected : im'.device with
    | none => exact ⟨h'.errors, fun device hnone => by simp [advance, hselected] at hnone⟩
    | some device =>
      have hchecked := h'.checkPage hselected
        (haddress ▸ hstrands device (hdevice.symm.trans hselected) : ∀ i,
          ¬device.Strands .emit im'.address i)
      exact (hchecked.writeMemory byte preserveDeviceMemory _).advance_one
  unfold MemoryImage.emitByte
  by_cases hlast : im.lastPass = true
  · rw [if_pos hlast]
    exact hplace _ rfl rfl rfl
  · rw [if_neg hlast]
    exact hplace _ rfl rfl rfl

/-- A check without emitting, at another address. -/
theorem Safe.prepare_advance (h : im.Safe) (len : Int)
    (hreach : ∀ device, im.device = some device → device.InReach (im.address + len) ∧
      ∀ i, ¬device.Strands .noEmit (im.address + len) i) : ((im.advance len).prepare).Safe := by
  unfold prepare
  cases hdevice : (im.advance len).device with
  | none => exact ⟨h.errors, fun device hnone => absurd (hdevice.symm.trans hnone) (by simp)⟩
  | some device =>
    have hsound := h.sound device hdevice
    obtain ⟨hinReach, hstrands⟩ := hreach device hdevice
    have hchecked : ((im.advance len).checkPage .noEmit device).Checked :=
      checked_checkPage h.errors hsound.layout hsound.sizes (fun _ => hinReach)
        (fun _ => hsound.shown) hstrands
    exact hchecked.toSafe

end MemoryImage

/-! ### The steps of a run -/

namespace EmitState

/-- Checking a mapped page, or another address: what `CheckPage` of level `reset` needs. -/
theorem safe_reset {s : EmitState n m} {device : Device n m}
    (herrors : ∀ e ∈ s.image.errors, e.isTooLate = false) (hlayout : device.SlotLayout)
    (hsizes : ∀ page i, (device.pages page).size = (device.slots i).size)
    (hstrands : ∀ i, ¬device.Strands .reset s.emitAddress i) :
    (s.checkPage .reset device).image.Safe := by
  rw [image_checkPage]
  exact (MemoryImage.checked_checkPage herrors hlayout hsizes (fun h => absurd rfl h)
    (fun h => absurd rfl h) hstrands).toSafe

/-- Inside of the slot a chunk of an included file ends at the end of the page at the latest. -/
theorem safe_includeChunk {s : EmitState n m} (h : s.image.Safe) (length : Nat)
    (hstrands : ∀ device, s.device = some device → ∀ i, ¬device.Strands .emit s.emitAddress i) :
    (s.includeChunk length).image.Safe := by
  unfold includeChunk
  cases hdevice : s.device with
  | none =>
    dsimp only
    rw [image_advance]
    exact ⟨h.errors, fun device hsome => by
      rw [show (s.image.advance length).device = s.device from rfl, hdevice] at hsome
      exact absurd hsome (by simp)⟩
  | some device =>
    have hchecked := h.checkPage hdevice (hstrands device hdevice)
    have hpointer : ∀ device', (s.image.checkPage .emit device).device = some device' →
        device'.Armed → device'.memoryPointer = some (device'.ramPointer
          (device'.slots device'.previousSlotI) (s.image.checkPage .emit device).address) :=
      fun device' => h.pointer_checkPage hdevice (hstrands device hdevice)
    rw [← image_checkPage] at hchecked hpointer
    dsimp only
    generalize s.checkPage .emit device = t at hchecked hpointer ⊢
    cases hselected : t.device with
    | none => exact hchecked.toSafe
    | some device' =>
      have hsound := hchecked.sound device' hselected
      have hshows := hpointer device' hselected
      dsimp only
      cases hmemory : device'.memoryPointer with
      | none =>
        -- such a slot would show the address
        dsimp only
        rw [image_advance]
        refine ⟨hchecked.errors, fun device'' hdevice'' => ?_⟩
        obtain rfl := Option.some.inj (hselected.symm.trans hdevice'')
        refine ⟨hsound.layout, hsound.sizes, fun harmed => ?_, hsound.shown⟩
        rw [hshows harmed] at hmemory
        exact absurd hmemory (by simp)
      | some p =>
        dsimp only
        generalize hadvance : min (length : Int) ((device'.pages device'.page).ram
          + (device'.pages device'.page).size - p) = advanceLength
        show (({ t with device := some { device' with
          memoryPointer := some (p + advanceLength).toNat } } : EmitState n m).advance
            advanceLength).image.Safe
        rw [image_advance]
        refine ⟨hchecked.errors, fun device'' hdevice'' => ?_⟩
        obtain rfl := Option.some.inj hdevice''
        refine ⟨⟨hsound.layout.follow, hsound.layout.covers⟩, hsound.sizes, fun harmed => ?_,
          hsound.shown⟩
        -- the page ends with the slot
        have hp := Option.some.inj (hmemory.symm.trans (hshows harmed))
        have hpage := hsound.shown harmed.1
        have hsize := hsound.sizes device'.page device'.previousSlotI
        obtain ⟨hlow, hhigh⟩ := hchecked.inside device' hselected harmed
        rw [Device.ramPointer, ← hpage] at hp
        show _ ≤ t.image.address + advanceLength ∧ t.image.address + advanceLength ≤ _
        dsimp only
        omega

end EmitState

namespace EmitState

/-- Messages that are not the fatal one, and other addresses. -/
theorem errors_image_of_log {s t : EmitState n m} (h : s.image.Safe) {l : List Event}
    (hlog : t.log = s.log ++ l) (hl : ∀ e ∈ l, e.isTooLate = false) :
    ∀ e ∈ t.image.errors, e.isTooLate = false := by
  intro e he
  obtain ⟨hmem, herror⟩ := List.mem_filter.mp he
  rw [hlog] at hmem
  rcases List.mem_append.mp hmem with hmem | hmem
  · exact h.errors e (List.mem_filter.mpr ⟨hmem, herror⟩)
  · exact hl e hmem

theorem safe_of_log {s t : EmitState n m} (h : s.image.Safe) (hdevice : t.device = s.device)
    (haddress : t.emitAddress = s.emitAddress) {l : List Event} (hlog : t.log = s.log ++ l)
    (hl : ∀ e ∈ l, e.isTooLate = false) : t.image.Safe where
  errors := errors_image_of_log h hlog hl
  sound device hsome := by
    have hsound := h.sound device (hdevice.symm.trans hsome)
    show device.Sound t.emitAddress
    rw [haddress]
    exact hsound

end EmitState

theorem toInt_and_mask (a : Aint) :
    0 ≤ (a &&& 0xFFFF).toInt ∧ (a &&& 0xFFFF).toInt < 0x10000 := by
  have hle : (a &&& 0xFFFF).toNat < 0x10000 := by
    rw [BitVec.toNat_and]
    exact lt_of_le_of_lt Nat.and_le_right (by decide)
  rw [BitVec.toInt_eq_toNat_of_lt (by omega)]
  omega

/-- With a device, `ORG` sets an address of the processor. -/
theorem toInt_orgAddress {s : EmitState n m} (hdevice : s.device.isSome) (val : Aint) :
    0 ≤ (s.orgAddress val).toInt ∧ (s.orgAddress val).toInt < 0x10000 := by
  unfold EmitState.orgAddress
  rw [hdevice, Bool.true_or, Bool.true_and]
  split_ifs with hcrop
  · exact toInt_and_mask val
  · unfold check16u checkRange at hcrop
    split_ifs at hcrop with hrange
    · simp at hcrop
    · omega

/-! ### `ORG` and `PAGE` -/

/-- Inside of a displacement `ORG` does not move the bytes. -/
theorem EmitState.emitAddress_setOrg (val : Aint) (didWriteOutputByte : Bool) (s : EmitState n m) :
    (s.setOrg val didWriteOutputByte).emitAddress
      = if s.displaced then s.adrdisp else (s.orgAddress val).toInt := rfl

/-- Setting the address reports warnings only. -/
theorem EmitState.log_setOrg (val : Aint) (didWriteOutputByte : Bool) (s : EmitState n m) :
    ∃ l, (s.setOrg val didWriteOutputByte).log = s.log ++ l ∧ ∀ e ∈ l, e.isTooLate = false := by
  refine ⟨_, rfl, fun e he => Event.isTooLate_of_not_error ?_⟩
  have hcheck : ∀ e ∈ check16u val, e.isErrorCall = false := by
    unfold check16u checkRange
    intro e he
    split_ifs at he
    · rw [List.mem_singleton.mp he]
      rfl
    · simp at he
  -- the three warnings of the source, each under its condition
  simp only [List.mem_append] at he
  rcases he with (he | he) | he
  · split_ifs at he
    · exact hcheck e he
    · simp at he
  · split_ifs at he
    · rw [List.mem_singleton.mp he]
      rfl
    · simp at he
  · split_ifs at he
    · rw [List.mem_singleton.mp he]
      rfl
    · simp at he

namespace AsmProgram

/-- The device whose mapping `dirPageImpl` checks, if it maps the page. -/
theorem pageDevice_places {s : AsmState n m} (h : s.image.Safe) {pageNumber : Aint}
    {device : Device n m} (hdevice : s.pageDevice pageNumber = some device) :
    device.SlotLayout ∧ ∀ page i, (device.pages page).size = (device.slots i).size := by
  unfold AsmState.pageDevice at hdevice
  split at hdevice
  · rename_i selected slot page hselected _ _
    obtain rfl := Option.some.inj hdevice
    have hsound := h.sound selected hselected
    -- mapping a page moves no slot
    have hplaces : selected.SamePlaces (selected.mapCurrent slot page) :=
      selected.samePlaces_setSlot slot _ rfl rfl
    refine ⟨hsound.layout.of_places hplaces, fun page' i => ?_⟩
    rw [(hplaces i).2]
    exact hsound.sizes page' i
  · simp at hdevice

/-- `dirPageImpl`: nothing but an error where the page is refused. -/
theorem safe_dirPageImpl {s : AsmState n m} (dirName : String) (pageNumber : Aint)
    (herrors : ∀ e ∈ s.image.errors, e.isTooLate = false)
    (hrefused : s.pageDevice pageNumber = none → s.image.Safe)
    (hmapped : ∀ device, s.pageDevice pageNumber = some device → device.SlotLayout ∧
      (∀ page i, (device.pages page).size = (device.slots i).size) ∧
      ∀ i, ¬device.Strands .reset s.emitAddress i) :
    ((dirPageImpl dirName pageNumber).final s).image.Safe := by
  unfold AsmState.pageDevice at hrefused hmapped
  unfold dirPageImpl
  rw [final_bind_of_some (exec_get s)]
  -- no device and no current slot leave the state as it is
  cases hdevice : s.device with
  | none =>
    rw [hdevice] at hrefused
    exact hrefused rfl
  | some device =>
    cases hslot : s.currentSlot with
    | none =>
      rw [hdevice, hslot] at hrefused
      exact hrefused rfl
    | some slot =>
      rw [hdevice, hslot] at hrefused hmapped
      dsimp only
      cases hpage : pageOf m pageNumber with
      | none =>
        rw [hpage] at hrefused
        exact EmitState.safe_of_log (hrefused rfl) rfl rfl rfl
          (by simp [errorInt, Event.isTooLate])
      | some page =>
        rw [hpage] at hmapped
        obtain ⟨hlayout, hsizes, hstrands⟩ := hmapped _ rfl
        exact EmitState.safe_reset herrors hlayout hsizes hstrands

theorem isTooLate_orgSlotWarning (slotNumber : Fin n) (slot : DeviceSlot m) (address : Int) :
    ∀ e ∈ orgSlotWarning slotNumber slot address, e.isTooLate = false := by
  unfold orgSlotWarning
  split_ifs <;> simp [Event.isTooLate]

/-- `ORG` behind its address. -/
theorem safe_orgPage {s : AsmState n m} (pageNumber : Option (Option Aint))
    (herrors : ∀ e ∈ s.image.errors, e.isTooLate = false)
    (hrefused : s.orgDevice pageNumber = none → s.image.Safe)
    (hmapped : ∀ device, s.orgDevice pageNumber = some device → device.SlotLayout ∧
      (∀ page i, (device.pages page).size = (device.slots i).size) ∧
      ∀ i, ¬device.Strands .reset s.emitAddress i) :
    ((orgPage pageNumber).final s).image.Safe := by
  unfold orgPage
  rw [final_bind_of_some (exec_get s)]
  cases hdevice : s.device with
  | none =>
    refine hrefused ?_
    -- a page was written but it is not a number, or it is checked by `dirPageImpl`
    rcases pageNumber with _ | _ | pageNumber <;>
      simp [AsmState.orgDevice, AsmState.pageDevice, hdevice]
  | some device =>
    cases pageNumber with
    | none =>
      obtain ⟨hlayout, hsizes, hstrands⟩ := hmapped device hdevice
      exact EmitState.safe_reset herrors hlayout hsizes hstrands
    | some pageNumber =>
      cases hslot : s.currentSlot with
      | none =>
        refine hrefused ?_
        cases pageNumber <;> simp [AsmState.orgDevice, AsmState.pageDevice, hslot]
      | some slot =>
        have hwarning := isTooLate_orgSlotWarning slot (device.slots slot) s.curAddress
        dsimp only
        rw [final_bind_of_some (p := report _) (a := ()) rfl]
        cases pageNumber with
        | none =>
          refine EmitState.safe_of_log (hrefused rfl) rfl rfl (List.append_assoc _ _ _) fun e he => ?_
          rcases List.mem_append.mp he with he | he
          · exact hwarning e he
          · rw [List.mem_singleton.mp he]
            rfl
        | some pageNumber =>
          refine safe_dirPageImpl "ORG" pageNumber (fun e he => ?_) (fun hnone => ?_) hmapped
          · obtain ⟨hmem, herror⟩ := List.mem_filter.mp he
            rcases List.mem_append.mp hmem with hmem | hmem
            · exact herrors e (List.mem_filter.mpr ⟨hmem, herror⟩)
            · exact hwarning e hmem
          · exact EmitState.safe_of_log (hrefused hnone) rfl rfl rfl hwarning

/-- Only a selected device is checked. -/
theorem isSome_device_of_orgDevice {s : AsmState n m} {pageNumber : Option (Option Aint)}
    {device : Device n m} (h : s.orgDevice pageNumber = some device) : s.device.isSome := by
  cases hdevice : s.device with
  | none =>
    rcases pageNumber with _ | _ | pageNumber <;>
      simp [AsmState.orgDevice, AsmState.pageDevice, hdevice] at h
  | some device => rfl

/-- `ORG`. -/
theorem safe_org {s : AsmState n m} (h : s.image.Safe) (val : Aint) (didWriteOutputByte : Bool)
    (pageNumber : Option (Option Aint))
    (hrefused : s.orgDevice pageNumber = none → s.displaced = false →
      ∀ device, s.device = some device → device.InReach (s.toEmitState.orgAddress val).toInt)
    (hmapped : ∀ device, s.orgDevice pageNumber = some device → s.displaced = true →
      ∀ i, ¬device.Strands .reset s.adrdisp i) :
    ((org val didWriteOutputByte pageNumber).final s).image.Safe := by
  obtain ⟨l, hlog, hl⟩ := s.toEmitState.log_setOrg val didWriteOutputByte
  unfold org
  rw [final_bind_of_some (p := emit _) (a := ()) rfl]
  have herrors := EmitState.errors_image_of_log h hlog hl
  refine safe_orgPage pageNumber herrors (fun hnone => ?_) fun device hdevice => ?_
  · -- a refused page leaves the address without a check
    refine ⟨herrors, fun device hdevice => ?_⟩
    have hsound := h.sound device hdevice
    refine ⟨hsound.layout, hsound.sizes, ?_, hsound.shown⟩
    show device.InReach (s.toEmitState.setOrg val didWriteOutputByte).emitAddress
    have hreach : device.InReach s.emitAddress := hsound.reach
    rw [EmitState.emitAddress_setOrg]
    rw [EmitState.emitAddress] at hreach
    by_cases hdisplaced : s.displaced = true
    · rw [if_pos hdisplaced] at hreach ⊢
      exact hreach
    · rw [if_neg hdisplaced]
      exact hrefused hnone (by simpa using hdisplaced) device hdevice
  -- the page is mapped, and the address of the directive is checked
  · have hplaces : device.SlotLayout ∧ ∀ page i, (device.pages page).size = (device.slots i).size := by
      rcases pageNumber with _ | _ | pageNumber
      · have hsound := h.sound device hdevice
        exact ⟨hsound.layout, hsound.sizes⟩
      · simp [AsmState.orgDevice] at hdevice
      · exact pageDevice_places h hdevice
    refine ⟨hplaces.1, hplaces.2, ?_⟩
    show ∀ i, ¬device.Strands .reset (s.toEmitState.setOrg val didWriteOutputByte).emitAddress i
    rw [EmitState.emitAddress_setOrg]
    by_cases hdisplaced : s.displaced = true
    · rw [if_pos hdisplaced]
      exact hmapped device hdevice hdisplaced
    · obtain ⟨hlow, hhigh⟩ := toInt_orgAddress (isSome_device_of_orgDevice hdevice) val
      rw [if_neg hdisplaced]
      exact hplaces.1.not_strands .reset hlow hhigh

/-! ### `MMU` -/

/-- The loop of `MMU` maps pages into slots where they are. -/
theorem mapSlots_places (lp : Text) (slotOpt : SlotOption) (slots : List (Fin n)) (pageN : Aint)
    (device : Device n m) :
    (∀ e ∈ (device.mapSlots lp slotOpt slots pageN).2, e.isTooLate = false) ∧
      ∀ device', (device.mapSlots lp slotOpt slots pageN).1 = some device' →
        device.SamePlaces device' ∧ device'.pages = device.pages := by
  -- by induction on the slots: each of them gets a page and stays where it is
  induction slots generalizing pageN device with
  | nil =>
    refine ⟨by simp [Device.mapSlots], fun device' hdevice' => ?_⟩
    obtain rfl := Option.some.inj hdevice'
    exact ⟨device.samePlaces_of_slots rfl, rfl⟩
  | cons slotN slots ih =>
    have hlog : ∀ e ∈ (device.getPage lp pageN).2, e.isTooLate = false := by
      unfold Device.getPage
      split_ifs <;> simp [Event.isTooLate]
    unfold Device.mapSlots
    rcases hpage : device.getPage lp pageN with ⟨_ | page, log⟩
    · rw [hpage] at hlog
      exact ⟨hlog, fun device' hdevice' => by simp at hdevice'⟩
    · rw [hpage] at hlog
      obtain ⟨hrest, hplaces⟩ := ih (pageN + 1) (device.mapSlot slotOpt slotN page)
      refine ⟨fun e he => ?_, fun device' hdevice' => ?_⟩
      · rcases List.mem_append.mp he with he | he
        · exact hlog e he
        · exact hrest e he
      · have hslot : device.SamePlaces (device.mapSlot slotOpt slotN page) :=
          device.samePlaces_setSlot slotN _ rfl rfl
        exact ⟨hslot.trans (hplaces device' hdevice').1, (hplaces device' hdevice').2⟩

/-- `MMU` brings the emit address back into the address space. -/
theorem emitAddress_wrap (s : EmitState n m) :
    0 ≤ s.wrapEmitAddress.emitAddress ∧ s.wrapEmitAddress.emitAddress < 0x10000 := by
  unfold EmitState.wrapEmitAddress EmitState.emitAddress EmitState.displaced
  by_cases hdisplaced : s.pseudoORG = .none <;> simp [hdisplaced] <;> omega

/-- The third argument of `MMU` moves the emit address when there is no displacement. -/
theorem emitAddress_mmuAddress {s : EmitState n m} (device : Device n m) (address : Aint)
    (slot1 slot2 : Fin n) (h : 0 ≤ s.emitAddress ∧ s.emitAddress < 0x10000) :
    0 ≤ (s.mmuAddress device (address &&& 0xFFFF).toInt slot1 slot2).emitAddress ∧
      (s.mmuAddress device (address &&& 0xFFFF).toInt slot1 slot2).emitAddress < 0x10000 := by
  have hmask := toInt_and_mask address
  have haddress : (s.mmuAddress device (address &&& 0xFFFF).toInt slot1 slot2).emitAddress
      = if s.displaced then s.adrdisp else (address &&& 0xFFFF).toInt := rfl
  rw [haddress]
  rw [EmitState.emitAddress] at h
  -- a displaced block keeps its own address
  by_cases hdisplaced : s.displaced = true
  · rw [if_pos hdisplaced] at h ⊢
    exact h
  · rw [if_neg hdisplaced]
    exact hmask

/-- The end of `MMU`, with the new mapping. -/
theorem safe_mmuFinish {s : AsmState n m} {device : Device n m} (h : s.image.Safe)
    (hlayout : device.SlotLayout) (hsizes : ∀ page i, (device.pages page).size = (device.slots i).size)
    (address : Option Aint) (slot1 slot2 : Fin n) :
    ((mmuFinish device address slot1 slot2).final s).image.Safe := by
  have hwrap := emitAddress_wrap s.toEmitState
  have hlog : s.wrapEmitAddress.log = s.log := by
    unfold EmitState.wrapEmitAddress
    split_ifs <;> rfl
  -- what is left is a check of an address of the processor
  have hreset : ∀ t : EmitState n m, 0 ≤ t.emitAddress ∧ t.emitAddress < 0x10000 →
      ∀ l, t.log = s.log ++ l → (∀ e ∈ l, e.isTooLate = false) →
      (t.checkPage .reset device).image.Safe := by
    rintro t ⟨hlow, hhigh⟩ l hl hlate
    exact EmitState.safe_reset (EmitState.errors_image_of_log h hl hlate) hlayout hsizes
      (hlayout.not_strands .reset hlow hhigh)
  unfold mmuFinish
  rw [final_bind_of_some (p := emit _) (a := ()) rfl]
  cases address with
  | none => exact hreset _ hwrap [] (hlog.trans (List.append_nil _).symm) (by simp)
  | some address =>
    rw [final_bind_of_some (p := emit _) (a := ()) rfl]
    refine hreset _ (emitAddress_mmuAddress device address slot1 slot2 hwrap) _
      ((congrArg (· ++ _ ++ _) hlog).trans (List.append_assoc _ _ _)) fun e he => ?_
    rcases List.mem_append.mp he with he | he
    · split_ifs at he
      · rw [List.mem_singleton.mp he]
        rfl
      · simp at he
    · split_ifs at he
      · rw [List.mem_singleton.mp he]
        rfl
      · simp at he

/-- `MMU`. -/
theorem safe_mmu {s : AsmState n m} (h : s.image.Safe) (args : MmuArguments) :
    ((mmu args).final s).image.Safe := by
  have hwarnings : ∀ e ∈ (args.address.elim [] check16 : List Event), e.isTooLate = false :=
    fun e he => Event.isTooLate_of_not_error (isErrorCall_check16 e he)
  unfold mmu
  rw [final_bind_of_some (exec_get s)]
  cases hdevice : s.device with
  | none => exact h
  | some device =>
    dsimp only
    rw [final_bind_of_some (p := report _) (a := ()) rfl]
    have hsound := h.sound device hdevice
    -- the errors of the arguments are not the fatal one
    have hreported : ∀ l, (∀ e ∈ l, e.isTooLate = false) →
        ({ s with log := s.log ++ args.address.elim [] check16 ++ l } : AsmState n m).image.Safe := by
      intro l hl
      refine EmitState.safe_of_log h rfl rfl (List.append_assoc _ _ _) fun e he => ?_
      rcases List.mem_append.mp he with he | he
      · exact hwarnings e he
      · exact hl e he
    split_ifs with hslots hpages
    · exact hreported _ (by simp [Event.isTooLate])
    · exact hreported _ (by simp [Event.isTooLate])
    · rw [final_bind_of_some (exec_get _)]
      dsimp only
      rw [final_bind_of_some (p := report _) (a := ()) rfl]
      obtain ⟨hlog, hplaces⟩ := mapSlots_places s.lp args.slots.slotOpt
        (slotRange n (device.slotNumberFromPreciseAddress args.slots.slot1).toInt.toNat
          (device.slotNumberFromPreciseAddress args.slots.slot2).toInt.toNat) args.pageN device
      have hsafe := hreported _ hlog
      generalize device.mapSlots s.lp args.slots.slotOpt _ args.pageN = mapped at hlog hplaces hsafe ⊢
      cases hmapped : mapped.1 with
      | none => exact hsafe
      | some device' =>
        obtain ⟨hsame, hpages'⟩ := hplaces device' hmapped
        refine safe_mmuFinish hsafe (hsound.layout.of_places hsame) (fun page i => ?_) _ _ _
        rw [hpages', (hsame i).2]
        exact hsound.sizes page i

end AsmProgram

/-! ### Runs -/

/-- A device as the program makes them: the slots cover the address space, and every page fits into
every slot. -/
structure PlacedDevice (n m : Nat) where
  device : Device n m
  layout : device.SlotLayout
  sizes : ∀ page i, (device.pages page).size = (device.slots i).size

/-- The end of `SetDevice`, with a new device or one that was selected before. -/
def AsmProgram.selectDevice (selected : PlacedDevice n m) (currentSlot : Fin n) :
    AsmProgram n m Unit := do
  modify fun s => { s with currentSlot := some currentSlot }
  AsmProgram.emit (·.checkPage .reset selected.device)

/-- A step that emits, moves the address or changes the mapping.  `back` is `EmitBlock` with a length
that is not positive; a longer block, and an included file in the last pass, is emitted byte by byte. -/
inductive PageStep (n m : Nat)
  | device (selected : PlacedDevice n m) (currentSlot : Fin n)
  | deviceNone
  | byte (byte : Byte) (preserveDeviceMemory : Bool)
  | back (len : Nat)
  | prepareLine
  | includeChunk (length : Nat)
  | org (val : Aint) (didWriteOutputByte : Bool) (pageNumber : Option (Option Aint))
  | page (pageNumber : Aint)
  | slot (val : Aint)
  | mmu (args : MmuArguments)
  | disp (valAdr : Option Aint) (isResultAffected : Bool) (valPageNum : Option (Option Aint))
  | ent

namespace PageStep

def program : PageStep n m → AsmProgram n m Unit
  | device selected currentSlot => AsmProgram.selectDevice selected currentSlot
  | deviceNone => modify fun s => { s with device := none, currentSlot := none }
  | byte b preserveDeviceMemory => AsmProgram.emit (·.emitByteNoListing b preserveDeviceMemory)
  | back len => AsmProgram.emit (·.emitBlock 0 (-len) false)
  | prepareLine => AsmProgram.emit (·.prepareLine)
  | includeChunk length => AsmProgram.emit (·.includeChunk length)
  | org val didWriteOutputByte pageNumber => AsmProgram.org val didWriteOutputByte pageNumber
  | page pageNumber => AsmProgram.page pageNumber
  | slot val => AsmProgram.slot val
  | mmu args => AsmProgram.mmu args
  | disp valAdr isResultAffected valPageNum =>
    AsmProgram.emit (·.dirDISP valAdr isResultAffected valPageNum)
  | ent => AsmProgram.emit (·.dirENT)

/-- The step does not strand the current slot: it does not leave one that is to map a next page, other
than to the address right behind it, and it does not check an address that lies outside of the slot that
becomes the current one. -/
def Meets (s : AsmState n m) : PageStep n m → Prop
  | device selected _ => ∀ i, ¬selected.device.Strands .reset s.emitAddress i
  | byte _ _ => ∀ device, s.device = some device → ∀ i, ¬device.Strands .emit s.emitAddress i
  | includeChunk _ => ∀ device, s.device = some device → ∀ i, ¬device.Strands .emit s.emitAddress i
  | prepareLine => ∀ device, s.device = some device → ∀ i, ¬device.Strands .noEmit s.emitAddress i
  | back len => ∀ device, s.device = some device → device.InReach (s.emitAddress + -len) ∧
      ∀ i, ¬device.Strands .noEmit (s.emitAddress + -len) i
  | page pageNumber => ∀ device, s.pageDevice pageNumber = some device →
      ∀ i, ¬device.Strands .reset s.emitAddress i
  | org val _ pageNumber =>
    (∀ device, s.orgDevice pageNumber = some device → s.displaced = true →
      ∀ i, ¬device.Strands .reset s.adrdisp i) ∧
    (s.orgDevice pageNumber = none → s.displaced = false →
      ∀ device, s.device = some device → device.InReach (s.toEmitState.orgAddress val).toInt)
  | deviceNone | slot _ | mmu _ | disp _ _ _ | ent => True

theorem safe_deviceNone {s : AsmState n m} (h : s.image.Safe) :
    ((deviceNone : PageStep n m).program.final s).image.Safe :=
  ⟨h.errors, fun _ hdevice => by
    have hnone : (none : Option (Device n m)) = some _ := hdevice
    simp at hnone⟩

theorem safe_page {s : AsmState n m} (h : s.image.Safe) {pageNumber : Aint}
    (hmeets : (page pageNumber : PageStep n m).Meets s) :
    ((AsmProgram.page pageNumber).final s).image.Safe := by
  unfold AsmProgram.page
  rw [final_bind_of_some (exec_get s)]
  split_ifs
  · exact EmitState.safe_of_log h rfl rfl rfl (by simp [Event.isTooLate])
  · refine AsmProgram.safe_dirPageImpl "PAGE" pageNumber h.errors (fun _ => h) fun device hdevice => ?_
    obtain ⟨hlayout, hsizes⟩ := AsmProgram.pageDevice_places h hdevice
    exact ⟨hlayout, hsizes, hmeets device hdevice⟩

theorem safe_slot {s : AsmState n m} (h : s.image.Safe) (val : Aint) :
    ((AsmProgram.slot val).final s).image.Safe := by
  unfold AsmProgram.slot
  rw [final_bind_of_some (exec_get s)]
  cases s.device with
  | none => exact EmitState.safe_of_log h rfl rfl rfl (by simp [Event.isTooLate])
  | some device =>
    dsimp only
    split_ifs
    · exact h
    · exact EmitState.safe_of_log h rfl rfl rfl (by simp [Event.isTooLate])

/-- A message that is not the fatal one. -/
theorem safe_report {s : EmitState n m} (h : s.image.Safe) {e : Event} (he : e.isTooLate = false) :
    (s.report [e]).image.Safe := by
  refine EmitState.safe_of_log h rfl rfl rfl fun e' he' => ?_
  rw [List.mem_singleton.mp he']
  exact he

/-- Opening a displacement does not move the bytes. -/
theorem safe_dirDISP {s : EmitState n m} (h : s.image.Safe) (valAdr : Option Aint)
    (isResultAffected : Bool) (valPageNum : Option (Option Aint)) :
    (s.dirDISP valAdr isResultAffected valPageNum).image.Safe := by
  unfold EmitState.dirDISP
  by_cases hdisplaced : s.displaced = true
  · rw [if_pos hdisplaced]
    exact safe_report h rfl
  · have henter : ∀ adr page, (s.enterDisplacement adr page).image.Safe := by
      intro adr page
      have hmode : s.pseudoORG = .none := by simpa [EmitState.displaced] using hdisplaced
      rw [image_enterDisplacement hmode]
      exact h
    rw [if_neg hdisplaced]
    rcases valAdr with _ | valAdr
    · exact safe_report h rfl
    · dsimp only
      by_cases haffected : isResultAffected = true
      · rw [if_pos haffected]
        exact safe_report h rfl
      · rw [if_neg haffected]
        rcases valPageNum with _ | _ | valPageNum
        · exact henter _ _
        · exact safe_report h rfl
        · dsimp only
          split_ifs
          · exact safe_report h rfl
          · exact safe_report h rfl
          · exact henter _ _

/-- `ENT` leaves the bytes where they go. -/
theorem safe_dirENT {s : EmitState n m} (h : s.image.Safe) : s.dirENT.image.Safe := by
  unfold EmitState.dirENT
  split_ifs with hdisplaced
  · exact safe_report h rfl
  · exact safe_report h rfl
  · exact safe_report h rfl
  · have haddress : s.emitAddress = s.adrdisp := if_pos (by simpa using hdisplaced)
    exact EmitState.safe_of_log h rfl haddress.symm (List.append_nil _).symm (by simp)

/-- Every step that meets the condition keeps the memory image safe. -/
theorem safe_step {s : AsmState n m} (h : s.image.Safe) (step : PageStep n m) (hmeets : step.Meets s) :
    (step.program.final s).image.Safe := by
  cases step with
  | device selected currentSlot =>
    exact EmitState.safe_reset h.errors selected.layout selected.sizes hmeets
  | deviceNone => exact safe_deviceNone h
  | byte b preserveDeviceMemory =>
    have hbyte := h.emitByte b preserveDeviceMemory hmeets
    rw [← EmitState.image_emitByteNoListing] at hbyte
    exact hbyte
  | back len =>
    have hback := h.prepare_advance (-len) hmeets
    have himage := EmitState.image_emitBlock s.toEmitState 0 (-len) false
    rw [MemoryImage.emitBlock, if_pos (by omega)] at himage
    rw [← himage] at hback
    exact hback
  | prepareLine =>
    show (s.toEmitState.prepareLine).image.Safe
    unfold EmitState.prepareLine
    cases hdevice : s.device with
    | none => exact h
    | some device =>
      rw [EmitState.image_checkPage]
      exact (h.checkPage hdevice (hmeets device hdevice)).toSafe
  | includeChunk length => exact EmitState.safe_includeChunk h length hmeets
  | org val didWriteOutputByte pageNumber =>
    exact AsmProgram.safe_org h val didWriteOutputByte pageNumber hmeets.2 hmeets.1
  | page pageNumber => exact safe_page h hmeets
  | slot val => exact safe_slot h val
  | mmu args => exact AsmProgram.safe_mmu h args
  | disp valAdr isResultAffected valPageNum =>
    exact safe_dirDISP h valAdr isResultAffected valPageNum
  | ent => exact safe_dirENT h

end PageStep

namespace AsmState

def runPages (s : AsmState n m) (steps : List (PageStep n m)) : AsmState n m :=
  steps.foldl (fun s step => step.program.final s) s

/-- All steps of a run meet the condition. -/
def MeetsAll (s : AsmState n m) : List (PageStep n m) → Prop
  | [] => True
  | step :: steps => step.Meets s ∧ (step.program.final s).MeetsAll steps

end AsmState

/-- The memory pointer is right behind every check of a device with the slots of the program. -/
theorem pointsRight_checkPage (level : CheckPageLevel) {device : Device n m}
    (hlayout : device.SlotLayout) (t : EmitState n m) :
    ∃ checked, (t.checkPage level device).device = some checked ∧
      checked.PointsRight (t.checkPage level device).emitAddress := by
  have himage := t.image_checkPage level device
  have haddress := congrArg MemoryImage.address himage
  have hdevice := congrArg MemoryImage.device himage
  refine ⟨_, hdevice, ?_⟩
  have hright := Device.PointsRight.check hlayout t.image.lastPass level t.image.address
  show Device.PointsRight _ (t.checkPage level device).image.address
  rw [haddress]
  exact hright

/-- A run whose steps meet the condition never gets to the fatal error, and whatever its devices map, a
check of them leaves the memory pointer at the byte of the emit address. -/
theorem caughtTooLate_run {s : AsmState n m} (hdevice : s.device = none)
    (hlog : ∀ e ∈ s.log, e.isTooLate = false) (steps : List (PageStep n m))
    (hmeets : s.MeetsAll steps) :
    (∀ e ∈ (s.runPages steps).log, e.isTooLate = false) ∧
      ∀ device device' : Device n m, (s.runPages steps).device = some device →
        device.SamePlaces device' → ∀ (level : CheckPageLevel) (t : EmitState n m),
          ∃ checked, (t.checkPage level device').device = some checked ∧
            checked.PointsRight (t.checkPage level device').emitAddress := by
  have hstart : s.image.Safe := ⟨fun e he => hlog e (List.mem_filter.mp he).1,
    fun device hsome => absurd (hdevice.symm.trans hsome) (by simp)⟩
  have hrun : (s.runPages steps).image.Safe := by
    clear hdevice hlog
    induction steps generalizing s with
    | nil => exact hstart
    | cons step steps ih => exact ih hmeets.2 (PageStep.safe_step hstart step hmeets.1)
  refine ⟨fun e he => ?_, fun device device' hsome hplaces level t => ?_⟩
  · by_contra hlate
    have herror : e.isErrorCall = true := by
      by_contra hne
      exact hlate (Event.isTooLate_of_not_error (by simpa using hne))
    exact hlate (hrun.errors e (List.mem_filter.mpr ⟨he, herror⟩))
  · exact pointsRight_checkPage level ((hrun.sound device hsome).layout.of_places hplaces) t

/-! ### An example -/

/-- `DEVICE ZXSPECTRUM128`. -/
def examplePlaced : PlacedDevice 4 8 := ⟨zxSpectrum128 0, slotLayout_zxSpectrum128 0, by decide⟩

/-- `MMU 3 n, 5, address` in the first pass. -/
def exampleNextSteps (address : Aint) : List (PageStep 4 8) :=
  [.device examplePlaced 3, .mmu ⟨.one 3 .next, 5, some address⟩, .prepareLine]

/-- What can be decided of the selected device. -/
theorem forall_selected {selected : Option (Device n m)} {P : Device n m → Prop} [DecidablePred P]
    (h : selected.all (fun device => P device) = true) :
    ∀ device, selected = some device → P device := by
  intro device hdevice
  rw [hdevice] at h
  exact of_decide_eq_true h

/-- `BLOCK -1` at the start of a slot with the option `next`. -/
theorem caughtTooLate_back :
    ¬∀ e ∈ ((AsmState.start 4 8).runPages (exampleNextSteps 0xC000 ++ [.back 1])).log,
      e.isTooLate = false := by
  decide

/-- `DB 1, 2` over the end of the slot, and `BLOCK -1`. -/
theorem caughtTooLate_exampleNextSteps :
    ((AsmState.start 4 8).runPages
        (exampleNextSteps 0xFFFF ++ [.byte 1 false, .byte 2 false, .back 1])).log.filter
      Event.isTooLate = [] := by
  have hmeets : (AsmState.start 4 8).MeetsAll
      (exampleNextSteps 0xFFFF ++ [.byte 1 false, .byte 2 false, .back 1]) := by
    refine ⟨?_, trivial, ?_, ?_, ?_, ?_, trivial⟩
    · exact (by decide : ∀ i, ¬(zxSpectrum128 0).Strands .reset 0 i)
    · exact forall_selected (by decide)
    · exact forall_selected (by decide)
    · exact forall_selected (by decide)
    · exact forall_selected (by decide)
  refine List.filter_eq_nil_iff.mpr fun e he => ?_
  rw [(caughtTooLate_run rfl (by decide) _ hmeets).1 e he]
  decide

end Sjasmplus
