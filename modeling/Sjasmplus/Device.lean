import Mathlib.Data.Fin.Basic
import Mathlib.Logic.Function.Basic
import Mathlib.Tactic.SplitIfs
import Sjasmplus.Aint

/-!
# Virtual devices (`devices.cpp`)

A device has `n` slots of the address space and `m` pages of memory; each slot shows one page.  The
globals `Page` and `MemoryPointer`, which only mean something while a device is selected, are fields
of the device here, and so is the memory that all pages share.

`Device.check` is `CheckPage` behind its first lines: from the address where the next byte goes it
finds the slot, follows the option of the slot that was left (an error, a warning, or mapping the
next page), and says how far the emit address moves back.  Which of the two address counters that is
depends on the displacement mode and is left to the caller.
-/

namespace Sjasmplus

/-- `CDeviceSlot::ESlotOptions`. -/
inductive SlotOption
  | none | error | warning | next
deriving DecidableEq, Repr

/-- `CDevice::ECheckPageLevel`. -/
inductive CheckPageLevel
  | reset | noEmit | emit
deriving DecidableEq, Repr

/-- `CDevicePage`: where its bytes start in the memory of the device. -/
structure DevicePage where
  ram : Nat
  size : Nat
deriving DecidableEq, Repr

/-- `CDeviceSlot` of a device with `m` pages. -/
structure DeviceSlot (m : Nat) where
  address : Int
  size : Nat
  size_pos : 0 < size
  page : Fin m
  option : SlotOption

abbrev Byte := BitVec 8

instance instLawfulBEqByte : LawfulBEq Byte := inferInstance

/-! The devices of the ZX Spectrum have four slots, and eight pages, of 16 kiB. -/

instance instNeZeroFour : NeZero 4 := ⟨by decide⟩

instance instNeZeroEight : NeZero 8 := ⟨by decide⟩

theorem slotSize_pos : 0 < 0x4000 := by decide

theorem slotCount_pos : 0 < 4 := by decide

/-- `CDevice`, with the globals `Page` and `MemoryPointer`. -/
structure Device (n m : Nat) where
  slots : Fin n → DeviceSlot m
  pages : Fin m → DevicePage
  memory : Nat → Byte
  previousSlotI : Fin n
  previousSlotOpt : SlotOption
  limitExceeded : Bool
  page : Fin m
  memoryPointer : Option Nat

/-- What a check of the emit address leaves behind. -/
structure CheckResult (n m : Nat) where
  device : Device n m
  /-- How far the emit address moves back. -/
  back : Nat
  log : List Event

namespace DeviceSlot

variable {m : Nat}

/-- The address lies in the slot. -/
def Contains (slot : DeviceSlot m) (address : Int) : Prop :=
  slot.address ≤ address ∧ address < slot.address + slot.size

instance (slot : DeviceSlot m) (address : Int) : Decidable (slot.Contains address) :=
  inferInstanceAs (Decidable (_ ∧ _))

end DeviceSlot

/-- `ErrorInt`. -/
def errorInt (message : String) (badValue : Int) (type : EStatus) : Event :=
  .error message (some (toString badValue).toList) type

namespace Device

variable {n m : Nat} (device : Device n m)

/-- A device has a page. -/
theorem pages_pos (device : Device n m) : 0 < m := device.page.pos

/-- Where the byte at an address of the slot is kept. -/
def ramPointer (slot : DeviceSlot m) (address : Int) : Nat :=
  (device.pages slot.page).ram + (address - slot.address).toNat

/-- The loop over the slots from the last one: the first that does not start behind the address. -/
def findSlot (address : Int) : Option (Fin n) :=
  (List.finRange n).reverse.find? fun i => (device.slots i).address ≤ address % 0x10000

/-- `GetSlotOfA16`. -/
def getSlotOfA16 (address : Int) : Option (Fin n) :=
  match (List.finRange n).reverse.find? fun i => (device.slots i).address ≤ address with
  | .none => .none
  | some i => if (device.slots i).Contains address then some i else .none

def setSlot (i : Fin n) (slot : DeviceSlot m) : Device n m :=
  { device with slots := Function.update device.slots i slot }

/-- The end of `CheckPage`: emitting into another slot makes it the current one. -/
def refresh (level : CheckPageLevel) (i : Fin n) : Device n m :=
  if level = .emit then
    { device with
      limitExceeded := device.limitExceeded && device.previousSlotI = i
      previousSlotI := i
      previousSlotOpt := (device.slots i).option }
  else device

/-- Map a page into the slot that was left; its first byte is the next one to write. -/
def mapPage (page : Fin m) : Device n m :=
  { device.setSlot device.previousSlotI { device.slots device.previousSlotI with page := page } with
    page := page
    memoryPointer := some (device.pages page).ram }

/-- The case `O_NEXT` of `CheckPage`. -/
def nextPage (level : CheckPageLevel) (i : Fin n) (longAddr : Int) : CheckResult n m :=
  let prevS := device.slots device.previousSlotI
  if h : prevS.page.val + 1 < m then
    if longAddr ≠ prevS.address + prevS.size then
      ⟨device.refresh level i, 0,
        [errorInt "Write beyond memory slot in wrap-around slot caught too late by"
          (longAddr - prevS.address - prevS.size) .fatal]⟩
    else
      ⟨device.mapPage ⟨prevS.page.val + 1, h⟩, prevS.size, []⟩
  else
    let disabled := device.setSlot device.previousSlotI { prevS with option := .none }
    ⟨{ disabled with
        limitExceeded := false
        previousSlotI := i
        previousSlotOpt := (disabled.slots i).option }.refresh level i, 0,
      [errorInt "No more memory pages to map next one into slot" device.previousSlotI.val .suppress]⟩

/-- The `switch` of `CheckPage` over the option of the slot that was left; `MemoryPointer` is already
that of slot `i`. -/
def crossSlot (lastPass : Bool) (level : CheckPageLevel) (i : Fin n) (longAddr : Int) :
    CheckResult n m :=
  let reports : Bool := lastPass && level = .emit && !device.limitExceeded
  match device.previousSlotOpt with
  | .error =>
    if reports then
      ⟨{ device with limitExceeded := true }.refresh level i, 0,
        [errorInt "Write outside of memory slot" longAddr .suppress]⟩
    else ⟨device.refresh level i, 0, []⟩
  | .warning =>
    if reports then
      ⟨{ device with limitExceeded := true }.refresh level i, 0,
        [.warning "Write outside of memory slot" .none .pass3]⟩
    else ⟨device.refresh level i, 0, []⟩
  | .next => device.nextPage level i longAddr
  | .none =>
    if reports && device.memoryPointer.isNone then
      ⟨{ device with limitExceeded := true, previousSlotI := i }.refresh level i, 0,
        [errorInt "Write outside of device memory at" longAddr .suppress]⟩
    else ⟨device.refresh level i, 0, []⟩

/-- `Page` and `MemoryPointer` for an address that was looked up in slot `i`. -/
def showSlot (i : Fin n) (longAddr : Int) : Device n m :=
  { device with
    page := (device.slots i).page
    memoryPointer :=
      if (device.slots i).Contains longAddr then some (device.ramPointer (device.slots i) longAddr)
      else .none }

/-- `CheckPage` from the line where `longAddr` is known. -/
def check (lastPass : Bool) (level : CheckPageLevel) (longAddr : Int) : CheckResult n m :=
  let prevS := device.slots device.previousSlotI
  -- quicker check to avoid scanning whole slots array every byte
  if level ≠ .reset ∧ prevS.Contains longAddr then
    ⟨{ device with memoryPointer := some (device.ramPointer prevS longAddr) }, 0, []⟩
  else
    match device.findSlot longAddr with
    | .none =>
      ⟨device, 0, [.error "CheckPage(..): please, contact the author of this program." .none .fatal]⟩
    | some i =>
      let S := device.slots i
      let mapped := device.showSlot i longAddr
      if level = .reset then
        ⟨{ mapped with
          previousSlotOpt := S.option, previousSlotI := i, limitExceeded := false }, 0, []⟩
      else if i = device.previousSlotI ∧ S.Contains longAddr then ⟨mapped, 0, []⟩
      else mapped.crossSlot lastPass level i longAddr

/-- `*MemoryPointer = byte`. -/
def store (p : Nat) (byte : Byte) : Device n m :=
  { device with memory := Function.update device.memory p byte }

/-! ### Checks without emitting -/

/-- A check that hits the current slot refreshes the memory pointer only. -/
theorem check_of_contains (lastPass : Bool) {level : CheckPageLevel} (hlevel : level ≠ .reset)
    {longAddr : Int} (h : (device.slots device.previousSlotI).Contains longAddr) :
    device.check lastPass level longAddr
      = ⟨{ device with
          memoryPointer := some (device.ramPointer (device.slots device.previousSlotI) longAddr) },
        0, []⟩ :=
  if_pos ⟨hlevel, h⟩

/-- Without a message the next page was mapped, from the end of the slot. -/
theorem nextPage_of_log {level : CheckPageLevel} {i : Fin n} {longAddr : Int}
    (hlog : (device.nextPage level i longAddr).log = []) :
    ∃ page, device.nextPage level i longAddr
        = ⟨device.mapPage page, (device.slots device.previousSlotI).size, []⟩ ∧
      longAddr - (device.slots device.previousSlotI).size
        = (device.slots device.previousSlotI).address := by
  unfold nextPage at hlog ⊢
  by_cases h : (device.slots device.previousSlotI).page.val + 1 < m
  · by_cases haddr : longAddr = (device.slots device.previousSlotI).address
        + (device.slots device.previousSlotI).size
    · refine ⟨⟨_, h⟩, ?_, by omega⟩
      simp only [h, haddr, ne_eq, not_true_eq_false, dite_true, if_false]
    · simp [h, haddr] at hlog
  · simp [h] at hlog

/-- Behind a mapped page a check finds the slot that it was mapped into. -/
theorem check_mapPage (lastPass : Bool) {level : CheckPageLevel} (hlevel : level ≠ .reset)
    (page : Fin m) :
    (device.mapPage page).check lastPass level (device.slots device.previousSlotI).address
      = ⟨device.mapPage page, 0, []⟩ := by
  have hslot : (device.mapPage page).slots (device.mapPage page).previousSlotI
      = { device.slots device.previousSlotI with page := page } := by
    simp [mapPage, setSlot]
  have hcontains : ((device.mapPage page).slots (device.mapPage page).previousSlotI).Contains
      (device.slots device.previousSlotI).address := by
    have := (device.slots device.previousSlotI).size_pos
    rw [hslot]
    constructor <;> dsimp only <;> omega
  rw [check_of_contains _ lastPass hlevel hcontains, hslot]
  simp [mapPage, setSlot, ramPointer]

/-- Outside the current slot a check follows the option of that slot. -/
theorem check_of_findSlot (lastPass : Bool) {longAddr : Int} {i : Fin n}
    (hprev : ¬(device.slots device.previousSlotI).Contains longAddr)
    (hfind : device.findSlot longAddr = some i) :
    device.check lastPass .noEmit longAddr
      = (device.showSlot i longAddr).crossSlot lastPass .noEmit i longAddr := by
  have hne : ¬(i = device.previousSlotI ∧ (device.slots i).Contains longAddr) := by
    rintro ⟨rfl, h⟩
    exact hprev h
  unfold check
  rw [if_neg (fun h => hprev h.2), hfind]
  show (if CheckPageLevel.noEmit = .reset then _ else _) = _
  rw [if_neg (by decide), if_neg hne]

/-- A check that does not emit and reports nothing leaves nothing to do for a second one. -/
theorem check_noEmit_idem (lastPass : Bool) {longAddr : Int}
    (hlog : (device.check lastPass .noEmit longAddr).log = []) :
    (device.check lastPass .noEmit longAddr).device.check lastPass .noEmit
        (longAddr - (device.check lastPass .noEmit longAddr).back)
      = ⟨(device.check lastPass .noEmit longAddr).device, 0, []⟩ := by
  have hlevel : CheckPageLevel.noEmit ≠ .reset := by decide
  -- the address is in the slot of the last check, or another slot is shown
  by_cases hprev : (device.slots device.previousSlotI).Contains longAddr
  · rw [device.check_of_contains lastPass hlevel hprev]
    dsimp only
    rw [Int.natCast_zero, Int.sub_zero]
    exact check_of_contains _ lastPass hlevel hprev
  · rcases hfind : device.findSlot longAddr with _ | i
    · simp [check, hprev, hfind] at hlog
    · rw [device.check_of_findSlot lastPass hprev hfind] at hlog ⊢
      -- the option for the next page is the only one that acts without a byte
      by_cases hopt : device.previousSlotOpt = .next
      · have hcross : (device.showSlot i longAddr).crossSlot lastPass .noEmit i longAddr
            = (device.showSlot i longAddr).nextPage .noEmit i longAddr := by
          simp only [crossSlot, showSlot, hopt]
        rw [hcross] at hlog ⊢
        obtain ⟨page, hpage, hback⟩ := nextPage_of_log _ hlog
        rw [hpage]
        dsimp only
        rw [hback]
        exact check_mapPage _ lastPass hlevel page
      · -- the other options only act when a byte is emitted
        have hcross : (device.showSlot i longAddr).crossSlot lastPass .noEmit i longAddr
            = ⟨device.showSlot i longAddr, 0, []⟩ := by
          unfold crossSlot
          cases h : device.previousSlotOpt <;> simp_all [showSlot, refresh]
        have hagain : (device.showSlot i longAddr).showSlot i longAddr
            = device.showSlot i longAddr := rfl
        rw [hcross]
        dsimp only
        rw [Int.natCast_zero, Int.sub_zero,
          (device.showSlot i longAddr).check_of_findSlot lastPass hprev hfind, hagain, hcross]

/-- Whatever a check reports without emitting is an error. -/
theorem isErrorCall_of_mem_check_noEmit (lastPass : Bool) (longAddr : Int) :
    ∀ e ∈ (device.check lastPass .noEmit longAddr).log, e.isErrorCall = true := by
  unfold check crossSlot nextPage
  dsimp only
  intro e he
  repeat' split at he
  all_goals simp_all [errorInt, Event.isErrorCall]

end Device

end Sjasmplus
