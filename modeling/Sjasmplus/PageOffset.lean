import Mathlib.Data.Nat.Bitwise
import Sjasmplus.DeviceDefinition
import Sjasmplus.DeviceLayout

/-!
# Offsets inside of a page (`CDevice::Poke` and the label maps of `tables.cpp`)

The slots of a defined device start at the multiples of the slot size, and a byte of a slot is kept in
its page as far from the start as its address is from the start of the slot.  `CheckPage` and
`MemGetByte` subtract the address of the slot; `Poke` and both label maps mask the address with the page
size minus one instead.

`DEFDEVICE` accepts every slot size from 256 bytes to 64 KiB.  The mask gives the offset for all
addresses exactly when the slot size is a power of two (`inPageOffsets_iff`); with any other size the
first address of the second slot already is masked to some other place.
-/

namespace Sjasmplus

variable {n m : Nat}

/-! ### The program -/

/-- `address & (size - 1)`. -/
def pageMasked (size : Nat) (address : Aint) : Aint := address &&& (BitVec.ofNat 32 size - 1)

namespace Device

variable (device : Device n m)

/-- `GetPage(0)`. -/
def page0 : DevicePage := device.pages ⟨0, device.pages_pos⟩

/-- `Poke`. -/
def poke (z80adr : Aint) (value : Byte) : Device n m :=
  match device.getSlotOfA16 z80adr.toInt with
  -- an invalid address is silently ignored
  | none => device
  | some i =>
    let page := device.pages (device.slots i).page
    device.store (page.ram + (pageMasked page.size z80adr).toNat) value

end Device

/-- The value of a label in the map of `DumpForUnreal`; without a device the pages have 16 KiB. -/
def unrealValue (device : Option (Device n m)) (emitVirtualLabels : Bool) (value : Aint) : Aint :=
  if emitVirtualLabels then value &&& 0xFFFF
  else
    match device with
    | some device => pageMasked device.page0.size value
    | none => value &&& 0x3FFF

/-- `CSpectMapPageSize`: `CSPECTMAP` remembers the page size of the device. -/
def cspectMapPageSize (device : Device n m) : Nat := device.page0.size

/-- `longAddress` of `DumpForCSpect`. -/
def cspectLongAddress (pageSize : Nat) (page : Int) (value : Aint) : Aint :=
  pageMasked pageSize value + BitVec.ofInt 32 page * BitVec.ofNat 32 pageSize

/-! ### Definitions and their devices -/

/-- The lists of definitions that `DEFDEVICE` statements leave, with any operands in any passes. -/
inductive DevicesDefined : List CDeviceDef → Prop
  | nil : DevicesDefined []
  | defDevice {defDevices : List CDeviceDef} (pass : Nat) (bp : Text) (id : Option Text)
      (given : Option ArgumentList) (h : DevicesDefined defDevices) :
      DevicesDefined (dirDEFDEVICE pass bp id given defDevices).1

/-- What `DEFDEVICE` guarantees of a definition. -/
structure CDeviceDef.Allowed (dev : CDeviceDef) : Prop where
  slotSize_ge : 256 ≤ dev.slotSize.toInt
  slotSize_le : dev.slotSize.toInt ≤ 0x10000
  pagesCount_pos : 1 ≤ dev.pagesCount.toInt
  length_eq : dev.initialPages.length = slotsCount dev.slotSize
  page_lt : ∀ page ∈ dev.initialPages, 0 ≤ page ∧ page < dev.pagesCount.toInt

/-- A device of the definition: the slots stand behind each other, and all pages have the size of the
slots.  The pages that the slots show and all that was written may be anything. -/
structure CDeviceDef.Describes (dev : CDeviceDef) (device : Device n m) : Prop where
  slots_count : n = slotsCount dev.slotSize
  address_eq : ∀ i, (device.slots i).address = dev.slotSize.toInt * i.val
  size_eq : ∀ i, ((device.slots i).size : Int) = dev.slotSize.toInt
  pageSize_eq : ∀ page, ((device.pages page).size : Int) = dev.slotSize.toInt

namespace CDeviceDef.Allowed

variable {dev : CDeviceDef} (h : dev.Allowed)

include h

theorem slotSize_toNat : (dev.slotSize.toInt.toNat : Int) = dev.slotSize.toInt := by
  have hge := h.slotSize_ge
  omega

/-- Together the slots cover the address space. -/
theorem covers : 0x10000 ≤ slotsCount dev.slotSize * dev.slotSize.toInt.toNat := by
  have hge := h.slotSize_ge
  have hsize := h.slotSize_toNat
  generalize dev.slotSize.toInt.toNat = size at hsize ⊢
  have hcount : (slotsCount dev.slotSize : Int) = (0xFFFF + size) / size := by
    rw [slotsCount, ← hsize, Int.toNat_of_nonneg (Int.ediv_nonneg (by omega) (by omega))]
    congr 1
    ring
  have hdiv := Int.mul_ediv_add_emod (0xFFFF + (size : Int)) size
  have hmod := Int.emod_lt_of_pos (0xFFFF + (size : Int)) (show (0 : Int) < size by omega)
  have hprod : (0x10000 : Int) ≤ slotsCount dev.slotSize * size := by
    rw [hcount, Int.mul_comm]
    omega
  exact_mod_cast hprod

theorem slotsCount_pos : 0 < slotsCount dev.slotSize := by
  have hcovers := h.covers
  by_contra hzero
  rw [Nat.eq_zero_of_not_pos hzero, Nat.zero_mul] at hcovers
  omega

/-- `SetUserDefinedDevice`. -/
def device : Device (slotsCount dev.slotSize) dev.pagesCount.toInt.toNat :=
  initRegularSlotDevice dev.slotSize.toInt.toNat
    (by have := h.slotSize_ge; omega) h.slotsCount_pos fun i =>
      ⟨(dev.initialPages.get (i.cast h.length_eq.symm)).toNat, by
        have hpage := h.page_lt _ (List.get_mem _ (i.cast h.length_eq.symm))
        omega⟩

/-- `SetUserDefinedDevice` builds a device of the definition. -/
theorem describes_device : dev.Describes h.device where
  slots_count := rfl
  address_eq i := by
    show ((dev.slotSize.toInt.toNat : Int) * (i.val : Int)) = _
    rw [h.slotSize_toNat]
  size_eq _ := h.slotSize_toNat
  pageSize_eq _ := h.slotSize_toNat

end CDeviceDef.Allowed

/-- A statement adds no definition but an allowed one. -/
theorem allowed_of_mem_dirDEFDEVICE {pass : Nat} {bp : Text} {id : Option Text}
    {given : Option ArgumentList} {defDevices : List CDeviceDef} {dev : CDeviceDef}
    (hdev : dev ∈ (dirDEFDEVICE pass bp id given defDevices).1) : dev ∈ defDevices ∨ dev.Allowed := by
  cases id with
  | none => exact .inl hdev
  | some id =>
    unfold dirDEFDEVICE at hdev
    dsimp only at hdev
    -- nothing is added for a known name, without arguments, or out of range
    by_cases hknown : defDevices.any (sameIgnoringCase id ·.id) ∨ 1 < pass
    · rw [if_pos hknown] at hdev
      exact .inl hdev
    · rw [if_neg hknown] at hdev
      cases hargs : given.bind (getIntArguments defDeviceArgs defDeviceOptional) with
      | none =>
        rw [hargs] at hdev
        exact .inl hdev
      | some args =>
        rw [hargs] at hdev
        dsimp only at hdev
        split_ifs at hdev with hrange
        · exact .inl hdev
        · rw [not_or, Bool.not_eq_true, Bool.not_eq_true] at hrange
          obtain ⟨hslot, hpages⟩ := hrange.imp toInt_of_inside toInt_of_inside
          rcases List.mem_append.mp hdev with hold | hnew
          · exact .inl hold
          · rw [List.mem_singleton] at hnew
            subst hnew
            refine .inr ⟨hslot.1, hslot.2, hpages.1, ?_, fun page hpage => ?_⟩
            · simp only [length_initPages, List.length_map, List.length_range]
            · exact mem_initPages hpages.1 (by omega) (by show -1 < (args 1).toInt; omega) hpage

/-- All definitions are allowed ones. -/
theorem DevicesDefined.allowed {defDevices : List CDeviceDef} (h : DevicesDefined defDevices) :
    ∀ dev ∈ defDevices, dev.Allowed := by
  induction h with
  | nil => simp
  | defDevice pass bp id given _ ih =>
    intro dev hdev
    exact (allowed_of_mem_dirDEFDEVICE hdev).elim (ih dev) fun h => h

/-! ### The offset of an address -/

/-- The masks give the place of the address in its slot: `Poke` writes where the slot shows the address,
and both label maps show the distance from the start of the slot. -/
structure Device.InPageOffset (device : Device n m) (address : Aint) (i : Fin n) : Prop where
  poke : ∀ value, device.poke address value
    = device.store (device.ramPointer (device.slots i) address.toInt) value
  unreal : (unrealValue (some device) false address).toInt = address.toInt - (device.slots i).address
  cspect : ∀ page, cspectLongAddress (cspectMapPageSize device) page address
    = BitVec.ofInt 32 (address.toInt - (device.slots i).address
        + page * (cspectMapPageSize device : Int))

/-- The masks give the place of every address of the processor in the slot that contains it. -/
def Device.InPageOffsets (device : Device n m) : Prop :=
  ∀ address : Aint, 0 ≤ address.toInt → address.toInt < 0x10000 →
    ∀ i, (device.slots i).Contains address.toInt → device.InPageOffset address i

/-! ### The mask -/

/-- A mask that fits into a number of bits keeps the value below it. -/
theorem toNat_pageMasked {size : Nat} (hpos : 0 < size) (hsize : size ≤ 0x10000) (address : Aint) :
    (pageMasked size address).toNat = address.toNat &&& (size - 1) := by
  rw [pageMasked, BitVec.toNat_and]
  congr 1
  rw [BitVec.toNat_sub_of_le]
  · rw [BitVec.toNat_ofNat, Nat.mod_eq_of_lt (by omega)]
    rfl
  · rw [BitVec.le_def, BitVec.toNat_ofNat, Nat.mod_eq_of_lt (by omega)]
    exact hpos

theorem toInt_pageMasked {size : Nat} (hpos : 0 < size) (hsize : size ≤ 0x10000) (address : Aint) :
    (pageMasked size address).toInt = ((address.toNat &&& (size - 1) : Nat) : Int) := by
  have hle : address.toNat &&& (size - 1) ≤ size - 1 := Nat.and_le_right
  rw [BitVec.toInt_eq_toNat_of_lt] <;> rw [toNat_pageMasked hpos hsize]
  omega

/-- The mask is the remainder for all numbers up to the size exactly when the size is a power of two. -/
theorem land_pred_eq_mod_iff {size : Nat} (hpos : 0 < size) :
    (∀ address, address &&& (size - 1) = address % size) ↔ size.isPowerOfTwo := by
  constructor
  · intro h
    have hsecond := h size
    rw [Nat.mod_self] at hsecond
    exact (Nat.and_sub_one_eq_zero_iff_isPowerOfTwo (by omega)).mp hsecond
  · rintro ⟨k, rfl⟩ address
    exact Nat.and_two_pow_sub_one_eq_mod address k

/-! ### The devices of a definition -/

namespace CDeviceDef.Describes

variable {dev : CDeviceDef} {device : Device n m} (h : dev.Describes device) (hdev : dev.Allowed)

include h hdev

theorem slotLayout : device.SlotLayout where
  follow := by
    refine follow_ofFn (fun hn => ?_) fun i hi => ?_
    · rw [h.address_eq]
      simp
    · rw [h.address_eq, h.address_eq, h.size_eq]
      push_cast
      ring
  covers := by
    have hcovers := hdev.covers
    have hsizes : extent device.slotList = n * dev.slotSize.toInt.toNat := by
      have hsize (i : Fin n) : (device.slots i).size = dev.slotSize.toInt.toNat := by
        have hi := h.size_eq i
        omega
      simp [extent, Device.slotList, List.map_ofFn, Function.comp_def, hsize]
    rwa [hsizes, h.slots_count]

/-- How far an address is from the start of its slot. -/
theorem sub_address_eq {address : Aint} (haddress : 0 ≤ address.toInt) {i : Fin n}
    (hi : (device.slots i).Contains address.toInt) :
    address.toInt - (device.slots i).address
      = ((address.toNat % dev.slotSize.toInt.toNat : Nat) : Int) := by
  obtain ⟨hlow, hhigh⟩ := hi
  rw [h.size_eq] at hhigh
  rw [h.address_eq] at hlow hhigh ⊢
  push_cast
  rw [toNat_of_nonneg haddress, hdev.slotSize_toNat]
  have hsplit : address.toInt
      = (address.toInt - dev.slotSize.toInt * i.val) + dev.slotSize.toInt * i.val := by ring
  conv_rhs => rw [hsplit]
  rw [Int.add_mul_emod_self_left, Int.emod_eq_of_lt (by omega) (by omega)]

omit hdev in
theorem pageSize_toNat (page : Fin m) : (device.pages page).size = dev.slotSize.toInt.toNat := by
  have hpage := h.pageSize_eq page
  omega

/-- The masks give the place of an address exactly when its low bits are the remainder. -/
theorem inPageOffset_iff {address : Aint} (haddress : 0 ≤ address.toInt) {i : Fin n}
    (hi : (device.slots i).Contains address.toInt) :
    device.InPageOffset address i ↔ address.toNat &&& (dev.slotSize.toInt.toNat - 1)
      = address.toNat % dev.slotSize.toInt.toNat := by
  have hge := hdev.slotSize_ge
  have hle := hdev.slotSize_le
  have hpos : 0 < dev.slotSize.toInt.toNat := by omega
  have hmax : dev.slotSize.toInt.toNat ≤ 0x10000 := by omega
  have hsub := h.sub_address_eq hdev haddress hi
  have hpage0 : device.page0.size = dev.slotSize.toInt.toNat := h.pageSize_toNat _
  have hmask := toInt_pageMasked hpos hmax address
  -- one of the masks decides, as all of them are the same one
  constructor
  · intro hoffset
    have hunreal := hoffset.unreal
    rw [hsub, unrealValue, if_neg Bool.false_ne_true, hpage0, hmask] at hunreal
    exact_mod_cast hunreal
  · intro hmod
    -- `Poke`, and the two maps: each has the masked address where the remainder should be
    constructor
    · intro value
      rw [Device.poke, (h.slotLayout hdev).getSlotOfA16_eq_some hi, Device.ramPointer, hsub]
      dsimp only
      rw [h.pageSize_toNat, toNat_pageMasked hpos hmax, hmod]
      rfl
    · rw [hsub, unrealValue, if_neg Bool.false_ne_true, hpage0, hmask, hmod]
    · intro page
      rw [hsub, cspectLongAddress, cspectMapPageSize, hpage0, BitVec.ofInt_add, BitVec.ofInt_mul,
        BitVec.ofInt_natCast, BitVec.ofInt_natCast]
      congr 1
      apply BitVec.eq_of_toInt_eq
      rw [hmask, hmod, ← BitVec.ofInt_natCast, BitVec.toInt_ofInt, Int.bmod_eq_of_le]
      all_goals
        have hlt := Nat.mod_lt address.toNat hpos
        omega

end CDeviceDef.Describes

/-- **Offsets inside of a page.**  For every device that any `DEFDEVICE` defines, whatever its slots
show, the masks of `Poke` and of both label maps give the distance from the start of the slot for every
address of the processor if and only if the slot size is a power of two. -/
theorem inPageOffsets_iff {defDevices : List CDeviceDef} (hdefined : DevicesDefined defDevices)
    {dev : CDeviceDef} (hmem : dev ∈ defDevices) {device : Device n m} (h : dev.Describes device) :
    device.InPageOffsets ↔ dev.slotSize.toInt.toNat.isPowerOfTwo := by
  have hdev := hdefined.allowed dev hmem
  have hge := hdev.slotSize_ge
  have hle := hdev.slotSize_le
  have hpos : 0 < dev.slotSize.toInt.toNat := by omega
  constructor
  · intro hoffsets
    -- a single slot has the whole memory, which is a power of two
    by_cases hall : dev.slotSize.toInt = 0x10000
    · exact ⟨16, by rw [hall]; rfl⟩
    · -- the first address of the second slot
      have hnonneg : 0 ≤ dev.slotSize.toInt := by omega
      obtain ⟨i, hi⟩ := (h.slotLayout hdev).exists_contains hnonneg (by omega)
      have hoffset := hoffsets dev.slotSize hnonneg (by omega) i hi
      rw [h.inPageOffset_iff hdev hnonneg hi] at hoffset
      have hnat : dev.slotSize.toNat = dev.slotSize.toInt.toNat := by
        have hcast := toNat_of_nonneg hnonneg
        omega
      rw [hnat, Nat.mod_self] at hoffset
      exact (Nat.and_sub_one_eq_zero_iff_isPowerOfTwo (by omega)).mp hoffset
  · intro hpower address hlow hhigh i hi
    rw [h.inPageOffset_iff hdev hlow hi]
    exact (land_pred_eq_mod_iff hpos).mpr hpower _

/-- `DEFDEVICE weirdSlotSz, $E000, 4`. -/
def weirdSlotSz : CDeviceDef := ⟨"weirdSlotSz".toList, 0xE000, 4, [0, 1]⟩

theorem devicesDefined_weirdSlotSz : DevicesDefined [weirdSlotSz] := by
  have hdefined := DevicesDefined.nil.defDevice 1 [] (some weirdSlotSz.id)
    (some ⟨[0xE000, 4], false⟩)
  rwa [dirDEFDEVICE_eq (by decide) [] rfl (by decide) (by decide) (by decide)] at hdefined

theorem allowed_weirdSlotSz : weirdSlotSz.Allowed :=
  devicesDefined_weirdSlotSz.allowed _ List.mem_cons_self

/-- Two slots of 56 KiB: no power of two. -/
theorem inPageOffsets_iff_weirdSlotSz :
    DevicesDefined [weirdSlotSz] ∧ weirdSlotSz.Describes allowed_weirdSlotSz.device ∧
      (allowed_weirdSlotSz.device.InPageOffsets
        ↔ weirdSlotSz.slotSize.toInt.toNat.isPowerOfTwo) :=
  ⟨devicesDefined_weirdSlotSz, allowed_weirdSlotSz.describes_device,
    inPageOffsets_iff devicesDefined_weirdSlotSz List.mem_cons_self
      allowed_weirdSlotSz.describes_device⟩

/-- The first address of the second slot of this device is masked to an offset of 48 KiB. -/
theorem not_inPageOffsets :
    ¬ ∀ defDevices, DevicesDefined defDevices → ∀ dev ∈ defDevices, ∀ (n m : Nat)
      (device : Device n m), dev.Describes device → device.InPageOffsets := by
  intro h
  have hdescribes := allowed_weirdSlotSz.describes_device
  have hsecond : (allowed_weirdSlotSz.device.slots ⟨1, by decide⟩).Contains (0xE000 : Aint).toInt := by
    decide
  have hoffset := h _ devicesDefined_weirdSlotSz _ List.mem_cons_self _ _ _ hdescribes
    0xE000 (by decide) (by decide) _ hsecond
  rw [hdescribes.inPageOffset_iff allowed_weirdSlotSz (by decide) hsecond] at hoffset
  exact absurd hoffset (by decide)

end Sjasmplus
