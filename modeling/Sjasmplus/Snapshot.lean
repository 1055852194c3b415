import Sjasmplus.DeviceLayout

/-!
# Snapshots of ZX machines (`SaveSNA_ZX` of `io_snapshots.cpp`)

A 48K snapshot has no place for the start address: it goes into the memory, under the stack of the
machine while that still is the default one, and else onto the screen.

`saveSNA_frame` — nothing else in the memory changes, and nothing at all for the larger machines; a
second save with the same start address writes the same file unless the first one used the stack, and a
third one always does.
-/

namespace Sjasmplus

/-! ### ZX machines -/

/-- `ZX_STACK_DATA`. -/
def zxStackData : List Byte := [0x03, 0x13, 0x00, 0x3e]

/-- A ZX-like device with `m` pages: four slots and pages of 16 KiB, and the page of each slot when the
device was set. -/
structure ZxDevice (m : Nat) where
  device : Device 4 m
  /-- The device is `ZXSPECTRUM48`. -/
  is48kSnap : Bool
  zxRamTop : Int
  initialPage : Fin 4 → Fin m
  slots : ∀ i, (device.slots i).address = 0x4000 * (i.val : Int) ∧ (device.slots i).size = 0x4000
  pages : ∀ p, device.pages p = ⟨0x4000 * p.val, 0x4000⟩
  pageCount : m = 4 ∨ 8 ≤ m
  initialPage48 : is48kSnap = true → m = 4 ∧ ∀ i, (initialPage i).val = i.val
  ramTop : zxRamTop = -1 ∨ 0x5D00 ≤ zxRamTop ∧ zxRamTop ≤ 0xFFFF

/-- The bytes of a page. -/
def Device.pageBytes {n m : Nat} (device : Device n m) (page : DevicePage) : List Byte :=
  (List.range page.size).map fun i => device.memory (page.ram + i)

namespace ZxDevice

variable {m : Nat} (z : ZxDevice m)

/-- Set a byte of the memory. -/
def poke (p : Nat) (byte : Byte) : ZxDevice m :=
  { z with
    device := z.device.store p byte
    slots := z.slots
    pages := z.pages }

/-- The machine with another content of its memory. -/
def withMemory (memory : Nat → Byte) : ZxDevice m :=
  { z with
    device := { z.device with memory := memory }
    slots := z.slots
    pages := z.pages }

/-- Where the byte at an address is kept, with the pages that the slots showed at first. -/
def initialPointer (address : Int) : Nat :=
  match z.device.getSlotOfA16 address with
  | none => 0
  | some i =>
    let page := z.device.pages (z.initialPage i)
    page.ram + (address.toNat &&& (page.size - 1))

/-- `GetPage` and the bytes there; every ZX device has the pages that are saved. -/
def savedPage (page : Nat) : List Byte :=
  if h : page < m then z.device.pageBytes (z.device.pages ⟨page, h⟩) else []

/-- The start of the default stack. -/
def stackAdr : Int := if z.zxRamTop + 1 - 4 < 0x4002 then 0x4002 else z.zxRamTop + 1 - 4

/-- What the default stack holds, with the two bytes ahead of it for a 48K snapshot. -/
def defaultStackData : List (Int × Byte) :=
  (if z.is48kSnap then [(-2, 0), (-1, 0)] else []) ++
    zxStackData.zipIdx.map fun data => ((data.2 : Int), data.1)

/-- The default stack was not modified. -/
def defaultStack : Bool :=
  z.defaultStackData.all fun data =>
    data.2 = z.device.memory (z.initialPointer (z.stackAdr + data.1))

end ZxDevice

/-! ### `SaveSNA_ZX` -/

/-- The header of 27 bytes, with `BC` and `SP`. -/
def snaHeader (start : BitVec 16) (sp : Int) : List Byte :=
  [0x3F, 0x58, 0x27, 0x9B, 0x36, 0x00, 0x00, 0x44, 0x00, 0x2B, 0x2D, 0xDC, 0x5C,
    start.setWidth 8, (start >>> 8).setWidth 8,
    0x3A, 0x5C, 0x3C, 0xFF, 0x00, 0x00, 0x54, 0x00,
    BitVec.ofInt 8 sp, BitVec.ofInt 8 (sp / 256), 0x01, 0x07]

/-- What a save leaves behind. -/
structure SnaSave (m : Nat) where
  file : List Byte
  device : ZxDevice m
  log : List Event

namespace ZxDevice

variable {m : Nat} (z : ZxDevice m)

/-- The device with the start address in its memory, and `SP`. -/
def injectStart (start : BitVec 16) : ZxDevice m × Int :=
  if z.defaultStack then
    if z.is48kSnap then
      -- inject PC under default stack
      let high := z.poke (z.initialPointer (z.stackAdr - 1)) ((start >>> 8).setWidth 8)
      (high.poke (high.initialPointer (z.stackAdr - 2)) (start.setWidth 8), z.stackAdr - 2)
    else (z, z.stackAdr)
  else if z.is48kSnap then
    if h : 1 < m then
      let ram := (z.device.pages ⟨1, h⟩).ram
      ((z.poke ram (start.setWidth 8)).poke (ram + 1) ((start >>> 8).setWidth 8), 0x4000)
    else (z, 0x4000)
  else (z, 0x6000)

/-- `Device->GetSlot(3)->Page->Number`. -/
def slot3Page : Nat := (z.device.slots 3).page.val

/-- What is written behind the 48K header. -/
def snaPages (start : BitVec 16) : List Byte :=
  if z.is48kSnap then [1, 2, 3].flatMap z.savedPage
  else
    [5, 2, z.slot3Page].flatMap z.savedPage ++
      [start.setWidth 8, (start >>> 8).setWidth 8, BitVec.ofNat 8 (0x10 + z.slot3Page), 0] ++
      ((List.range 8).filter fun i => i ≠ z.slot3Page ∧ i ≠ 2 ∧ i ≠ 5).flatMap z.savedPage

/-- `SaveSNA_ZX` with a ZX device and an opened file. -/
def saveSNA_ZX (fname : Text) (start : BitVec 16) : SnaSave m :=
  let injected := z.injectStart start
  { file := snaHeader start injected.2 ++ injected.1.snaPages start
    device := injected.1
    log := (if !z.defaultStack && z.is48kSnap then [.warningById .sna48 none .pass3] else []) ++
      (if 128 * 1024 < m * 0x4000 then [.warningById .sna128 (some fname) .pass3] else []) }

end ZxDevice

/-! ### Where the start address goes -/

namespace ZxDevice

variable {m : Nat} (z : ZxDevice m)

@[simp] theorem memory_poke (p : Nat) (byte : Byte) :
    (z.poke p byte).device.memory = Function.update z.device.memory p byte := rfl

@[simp] theorem initialPointer_poke (p : Nat) (byte : Byte) :
    (z.poke p byte).initialPointer = z.initialPointer := rfl

/-- The slots cover the address space. -/
theorem slotLayout : z.device.SlotLayout where
  follow := by
    refine follow_ofFn (fun h => ?_) fun i h => ?_
    · rw [(z.slots _).1]
      rfl
    · rw [(z.slots _).1, (z.slots _).1, (z.slots _).2]
      push_cast
      ring
  covers := by
    have hsizes : z.device.slotList.map DeviceSlot.size = List.replicate 4 0x4000 := by
      rw [Device.slotList, List.map_ofFn, show DeviceSlot.size ∘ z.device.slots = fun _ => 0x4000
        from funext fun i => (z.slots i).2]
      rfl
    rw [extent, hsizes]
    decide

/-- In a 48K machine the memory is the address space. -/
theorem initialPointer_eq (h48 : z.is48kSnap = true) {address : Int} (hlow : 0 ≤ address)
    (hhigh : address < 0x10000) : z.initialPointer address = address.toNat := by
  obtain ⟨i, hi⟩ := z.slotLayout.exists_contains hlow hhigh
  have hbounds := hi
  rw [DeviceSlot.Contains, (z.slots i).1, (z.slots i).2] at hbounds
  rw [initialPointer, z.slotLayout.getSlotOfA16_eq_some hi]
  dsimp only
  rw [z.pages, (z.initialPage48 h48).2 i]
  have hmask : address.toNat &&& (0x4000 - 1) = address.toNat % 0x4000 :=
    Nat.and_two_pow_sub_one_eq_mod address.toNat 14
  rw [hmask]
  dsimp only
  omega

/-- The address of the two bytes that a 48K snapshot takes for the start address. -/
def startPlace : Nat := if z.defaultStack then (z.stackAdr - 2).toNat else 0x4000

theorem stackAdr_bounds : z.stackAdr = 0x4002 ∨ 0x5CFD ≤ z.stackAdr ∧ z.stackAdr ≤ 0xFFFC := by
  have := z.ramTop
  unfold stackAdr
  split_ifs <;> omega

/-- The larger machines are left as they are. -/
theorem injectStart_of_not48 (h48 : z.is48kSnap = false) (start : BitVec 16) :
    (z.injectStart start).1 = z := by
  unfold injectStart
  rw [h48]
  split_ifs <;> simp_all

/-- The memory of a 48K machine behind a save: two bytes of it are the start address. -/
theorem memory_injectStart (h48 : z.is48kSnap = true) (start : BitVec 16) :
    (z.injectStart start).1.device.memory =
      Function.update (Function.update z.device.memory (z.startPlace + 1) ((start >>> 8).setWidth 8))
        z.startPlace (start.setWidth 8) := by
  have hbounds := z.stackAdr_bounds
  unfold injectStart startPlace
  -- the address goes below the default stack, and otherwise to the start of the screen
  by_cases hdefault : z.defaultStack = true
  · have hhigh : (z.stackAdr - 1).toNat = (z.stackAdr - 2).toNat + 1 := by omega
    rw [if_pos hdefault, if_pos h48, if_pos hdefault]
    dsimp only
    rw [memory_poke, memory_poke, initialPointer_poke, z.initialPointer_eq h48 (by omega) (by omega),
      z.initialPointer_eq h48 (by omega) (by omega), hhigh]
  · have hm := (z.initialPage48 h48).1
    rw [if_neg hdefault, if_pos h48, dif_pos (by omega), if_neg hdefault]
    dsimp only
    rw [memory_poke, memory_poke, z.pages]
    exact Function.update_comm (show (0x4000 : Nat) * 1 ≠ 0x4000 * 1 + 1 by decide) _ _ _

/-- A save changes the memory only. -/
theorem injectStart_eq (start : BitVec 16) :
    (z.injectStart start).1 = z.withMemory (z.injectStart start).1.device.memory := by
  unfold injectStart
  split_ifs <;> rfl

/-- Where the memory stays, everything does. -/
theorem injectStart_of_memory {start : BitVec 16}
    (h : (z.injectStart start).1.device.memory = z.device.memory) : (z.injectStart start).1 = z := by
  rw [injectStart_eq, h]
  rfl

/-- `SP` of a 48K machine points at the start address. -/
theorem injectStart_snd (h48 : z.is48kSnap = true) (start : BitVec 16) :
    (z.injectStart start).2 = z.startPlace := by
  have hbounds := z.stackAdr_bounds
  unfold injectStart startPlace
  by_cases hdefault : z.defaultStack = true
  · rw [if_pos hdefault, if_pos h48, if_pos hdefault]
    dsimp only
    omega
  · rw [if_neg hdefault, if_pos h48, if_neg hdefault]
    split_ifs <;> rfl

/-! ### The next save -/

/-- The default stack of a 48K machine has two zeros ahead, where the start address goes. -/
theorem memory_startPlace_of_defaultStack (h48 : z.is48kSnap = true) (h : z.defaultStack = true) :
    z.device.memory z.startPlace = 0 ∧ z.device.memory (z.startPlace + 1) = 0 := by
  have hbounds := z.stackAdr_bounds
  have hall := List.all_eq_true.mp h
  rw [defaultStackData, if_pos h48] at hall
  have hlow := hall (-2, 0) (by simp)
  have hhigh := hall (-1, 0) (by simp)
  -- the test compares the two bytes ahead of the stack as well
  rw [decide_eq_true_iff] at hlow hhigh
  dsimp only at hlow hhigh
  rw [z.initialPointer_eq h48 (by omega) (by omega)] at hlow hhigh
  have hplace : z.startPlace = (z.stackAdr + -2).toNat := by rw [startPlace, if_pos h]; rfl
  have hnext : z.startPlace + 1 = (z.stackAdr + -1).toNat := by omega
  rw [hnext, hplace]
  exact ⟨hlow.symm, hhigh.symm⟩

/-- Bytes below the stack do not decide whether it is the default one. -/
theorem defaultStack_withMemory (h48 : z.is48kSnap = true) {memory : Nat → Byte}
    (h : ∀ p : Nat, z.stackAdr - 2 ≤ p → memory p = z.device.memory p) :
    (z.withMemory memory).defaultStack = z.defaultStack := by
  have hbounds := z.stackAdr_bounds
  -- the test reads from two bytes below the stack on
  have hdata : ∀ data ∈ z.defaultStackData, -2 ≤ data.1 ∧ data.1 ≤ 3 := by
    rw [defaultStackData, if_pos h48]
    decide
  have hread : ∀ data ∈ z.defaultStackData,
      memory (z.initialPointer (z.stackAdr + data.1))
        = z.device.memory (z.initialPointer (z.stackAdr + data.1)) := by
    intro data hmem
    have := hdata data hmem
    rw [z.initialPointer_eq h48 (by omega) (by omega)]
    exact h _ (by omega)
  rw [Bool.eq_iff_iff, defaultStack, defaultStack, List.all_eq_true, List.all_eq_true]
  refine forall₂_congr fun data hmem => ?_
  have hsame : (z.withMemory memory).device.memory
      ((z.withMemory memory).initialPointer ((z.withMemory memory).stackAdr + data.1))
        = memory (z.initialPointer (z.stackAdr + data.1)) := rfl
  rw [hsame, hread data hmem]

variable {z}

/-- Where the start address goes to the same place again, the next save writes the same. -/
theorem injectStart_again_of_startPlace (h48 : z.is48kSnap = true) {start : BitVec 16}
    (h : (z.injectStart start).1.startPlace = z.startPlace) :
    (z.injectStart start).1.injectStart start = z.injectStart start := by
  set z' := (z.injectStart start).1 with hz'
  have h48' : z'.is48kSnap = true := by
    rw [hz', injectStart_eq]
    exact h48
  have hmem : z'.device.memory = _ := z.memory_injectStart h48 start
  refine Prod.ext (z'.injectStart_of_memory ?_) ?_
  · rw [z'.memory_injectStart h48', h, hmem, Function.update_comm (by omega), Function.update_idem,
      Function.update_comm (by omega), Function.update_idem]
  · rw [z'.injectStart_snd h48', z.injectStart_snd h48, h]

/-- A save that does not use up the default stack is repeated by the next one. -/
theorem injectStart_again {start : BitVec 16}
    (h : ¬(z.is48kSnap = true ∧ z.defaultStack = true ∧ start ≠ 0)) :
    (z.injectStart start).1.injectStart start = z.injectStart start := by
  have hbounds := z.stackAdr_bounds
  by_cases h48 : z.is48kSnap = true
  · refine injectStart_again_of_startPlace h48 ?_
    by_cases hdefault : z.defaultStack = true
    · -- the two zeros are written again
      obtain rfl : start = 0 := by
        by_contra hstart
        exact h ⟨h48, hdefault, hstart⟩
      obtain ⟨hlow, hhigh⟩ := z.memory_startPlace_of_defaultStack h48 hdefault
      rw [z.injectStart_of_memory]
      rw [z.memory_injectStart h48, Function.update_eq_self_iff.mpr, Function.update_eq_self_iff.mpr]
      · exact hhigh.symm
      · rw [Function.update_of_ne (by omega)]
        exact hlow.symm
    · have hplace : z.startPlace = 0x4000 := by rw [startPlace, if_neg hdefault]
      have hstack : (z.injectStart start).1.stackAdr = z.stackAdr := by
        rw [injectStart_eq]
        rfl
      rw [hplace, startPlace, hstack]
      split_ifs with hdefault'
      · -- the start address may complete a stack that begins right behind it
        by_contra hfar
        refine hdefault ?_
        rw [← hdefault', injectStart_eq, z.defaultStack_withMemory h48 fun p hp => ?_]
        rw [z.memory_injectStart h48, hplace, Function.update_of_ne (by omega),
          Function.update_of_ne (by omega)]
      · rfl
  · rw [z.injectStart_of_not48 (by simpa using h48)]

/-- Two saves use up the default stack. -/
theorem injectStart_third (z : ZxDevice m) (start : BitVec 16) :
    ((z.injectStart start).1.injectStart start).1.injectStart start
      = (z.injectStart start).1.injectStart start := by
  by_cases h : z.is48kSnap = true ∧ z.defaultStack = true ∧ start ≠ 0
  · obtain ⟨h48, hdefault, hstart⟩ := h
    refine injectStart_again ?_
    rintro ⟨h48', hdefault', -⟩
    -- a second default stack would have zeros where the first save has put the address
    have hplace : (z.injectStart start).1.startPlace = z.startPlace := by
      rw [startPlace, if_pos hdefault', startPlace, if_pos hdefault, injectStart_eq]
      rfl
    obtain ⟨hlow, hhigh⟩ := memory_startPlace_of_defaultStack _ h48' hdefault'
    rw [hplace, z.memory_injectStart h48] at hlow hhigh
    rw [Function.update_self] at hlow
    rw [Function.update_of_ne (by omega), Function.update_self] at hhigh
    refine hstart (BitVec.eq_of_toNat_eq ?_)
    have hlow' := congrArg BitVec.toNat hlow
    have hhigh' := congrArg BitVec.toNat hhigh
    simp [BitVec.toNat_ushiftRight, Nat.shiftRight_eq_div_pow] at hlow' hhigh' ⊢
    omega
  · rw [injectStart_again h, injectStart_again h]

/-! ### Saves -/

/-- The frame of `SaveSNA_ZX`, and what it does again when it is called again. -/
theorem saveSNA_frame (z : ZxDevice m) (fname : Text) (start : BitVec 16) :
    -- the memory of the larger machines stays, and nothing but memory changes in any machine
    (z.is48kSnap = false → (z.saveSNA_ZX fname start).device = z) ∧
    (z.saveSNA_ZX fname start).device
        = z.withMemory (z.saveSNA_ZX fname start).device.device.memory ∧
    -- in a 48K machine two bytes hold the start address, under the default stack or on the screen
    (z.is48kSnap = true →
      (z.saveSNA_ZX fname start).device.device.memory z.startPlace = start.setWidth 8 ∧
      (z.saveSNA_ZX fname start).device.device.memory (z.startPlace + 1)
          = (start >>> 8).setWidth 8 ∧
      (∀ p, p ≠ z.startPlace → p ≠ z.startPlace + 1 →
        (z.saveSNA_ZX fname start).device.device.memory p = z.device.memory p) ∧
      (z.defaultStack = false →
        .warningById .sna48 none .pass3 ∈ (z.saveSNA_ZX fname start).log)) ∧
    -- the second save repeats the first one unless that used up the default stack
    (¬(z.is48kSnap = true ∧ z.defaultStack = true ∧ start ≠ 0) →
      ((z.saveSNA_ZX fname start).device.saveSNA_ZX fname start).file
          = (z.saveSNA_ZX fname start).file ∧
        ((z.saveSNA_ZX fname start).device.saveSNA_ZX fname start).device
          = (z.saveSNA_ZX fname start).device) ∧
    -- and the third save always repeats the second one
    (((z.saveSNA_ZX fname start).device.saveSNA_ZX fname start).device.saveSNA_ZX fname start).file
        = ((z.saveSNA_ZX fname start).device.saveSNA_ZX fname start).file ∧
      (((z.saveSNA_ZX fname start).device.saveSNA_ZX fname start).device.saveSNA_ZX fname
          start).device
        = ((z.saveSNA_ZX fname start).device.saveSNA_ZX fname start).device := by
  have hfile : ∀ z z' : ZxDevice m, z'.injectStart start = z.injectStart start →
      (z'.saveSNA_ZX fname start).file = (z.saveSNA_ZX fname start).file ∧
        (z'.saveSNA_ZX fname start).device = (z.saveSNA_ZX fname start).device := by
    intro z z' h
    unfold saveSNA_ZX
    dsimp only
    rw [h]
    exact ⟨rfl, rfl⟩
  refine ⟨fun h48 => z.injectStart_of_not48 h48 start, z.injectStart_eq start, fun h48 => ?_,
    fun h => hfile _ _ (injectStart_again h), hfile _ _ (z.injectStart_third start)⟩
  have hmem : (z.saveSNA_ZX fname start).device.device.memory = _ := z.memory_injectStart h48 start
  rw [hmem]
  refine ⟨Function.update_self _ _ _, ?_, fun p hlow hhigh => ?_, fun hdefault => ?_⟩
  · rw [Function.update_of_ne (by omega), Function.update_self]
  · rw [Function.update_of_ne hlow, Function.update_of_ne hhigh]
  · simp [saveSNA_ZX, hdefault, h48]

end ZxDevice

/-! ### An example -/

/-- `ZX_RAMTOP_DEFAULT` is in its range. -/
theorem ramTop_default : (0x5D5B : Int) = -1 ∨ (0x5D00 : Int) ≤ 0x5D5B ∧ (0x5D5B : Int) ≤ 0xFFFF := by
  decide

/-- `DEVICE ZXSPECTRUM48`, with nothing but the default stack in its memory. -/
def zxSpectrum48 : ZxDevice 4 where
  device :=
    { initRegularSlotDevice 0x4000 slotSize_pos slotCount_pos ![0, 1, 2, 3] with
      memory := fun p => if 0x5D58 ≤ p then (zxStackData[p - 0x5D58]?).getD 0 else 0 }
  is48kSnap := true
  zxRamTop := 0x5D5B
  initialPage := ![0, 1, 2, 3]
  slots _ := ⟨rfl, rfl⟩
  pages _ := rfl
  pageCount := .inl rfl
  initialPage48 _ := ⟨rfl, by decide⟩
  ramTop := ramTop_default

/-- The start address gets into the memory, and `SP` of the next snapshot points at the screen. -/
theorem saveSNA_changes_zxSpectrum48 :
    (zxSpectrum48.saveSNA_ZX [] 0x8000).device.device.memory ≠ zxSpectrum48.device.memory ∧
      ((zxSpectrum48.saveSNA_ZX [] 0x8000).device.saveSNA_ZX [] 0x8000).file
        ≠ (zxSpectrum48.saveSNA_ZX [] 0x8000).file := by
  constructor
  · intro h
    have hhigh := congrFun h 0x5D57
    revert hhigh
    decide
  · intro h
    have hsp := congrArg (fun file => file[23]?) h
    revert hsp
    decide

end Sjasmplus
