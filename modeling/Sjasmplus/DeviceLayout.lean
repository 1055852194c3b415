import Mathlib.Data.Fin.VecNotation
import Mathlib.Tactic.Ring
import Sjasmplus.Assembler
import Sjasmplus.Lib.Segments

/-!
# The slots of a device (`initRegularSlotDevice` of `devices.cpp`)

Every device gets its slots one behind the other from address 0 on, and together they cover the
address space of the processor.  `Device.SlotLayout` says so of any device, with slots of any sizes:
what a reader of the mapped memory relies on.
-/

namespace Sjasmplus

variable {n m : Nat}

/-- `initRegularSlotDevice`: slots and pages of one size, and the page that each slot shows first.
`Page` is that of the first slot until an address is checked. -/
def initRegularSlotDevice (slotSize : Nat) (hsize : 0 < slotSize) (hn : 0 < n)
    (initialPages : Fin n → Fin m) : Device n m where
  slots i := ⟨slotSize * i.val, slotSize, hsize, initialPages i, .none⟩
  pages i := ⟨slotSize * i.val, slotSize⟩
  memory _ := 0
  previousSlotI := ⟨0, hn⟩
  previousSlotOpt := .none
  limitExceeded := false
  page := initialPages ⟨0, hn⟩
  memoryPointer := none

/-- The end of `SetDevice`: the device is checked at the current address. -/
def setDevice (device : Device n m) (address : Int) : Device n m :=
  (device.check false .reset address).device

/-- `DEVICE ZXSPECTRUM128` at an address. -/
def zxSpectrum128 (address : Int) : Device 4 8 :=
  setDevice (initRegularSlotDevice 0x4000 slotSize_pos slotCount_pos ![7, 5, 2, 0]) address

/-! ### Slots that follow each other -/

/-- The slots start one behind the other, from an address on. -/
def Follow : Int → List (DeviceSlot m) → Prop
  | _, [] => True
  | base, slot :: slots => slot.address = base ∧ Follow (base + slot.size) slots

/-- How much of the address space the slots cover. -/
def extent (slots : List (DeviceSlot m)) : Nat := (slots.map DeviceSlot.size).sum

@[simp] theorem extent_nil : extent ([] : List (DeviceSlot m)) = 0 := rfl

@[simp] theorem extent_cons (slot : DeviceSlot m) (slots : List (DeviceSlot m)) :
    extent (slot :: slots) = slot.size + extent slots := List.sum_cons

/-- All slots start at or behind the first address. -/
theorem Follow.le_address {slots : List (DeviceSlot m)} {base : Int} (h : Follow base slots) :
    ∀ slot ∈ slots, base ≤ slot.address := by
  induction slots generalizing base with
  | nil => simp
  | cons slot slots ih =>
    intro other hother
    rcases List.mem_cons.mp hother with rfl | hother
    · exact h.1.ge
    · have := ih h.2 other hother
      omega

/-- A slot ends in front of all that follow. -/
theorem Follow.pairwise {slots : List (DeviceSlot m)} {base : Int} (h : Follow base slots) :
    slots.Pairwise fun slot other : DeviceSlot m => slot.address + slot.size ≤ other.address := by
  induction slots generalizing base with
  | nil => exact .nil
  | cons slot slots ih =>
    refine .cons (fun other hother => ?_) (ih h.2)
    rw [h.1]
    exact h.2.le_address other hother

/-- Every address that the slots cover lies in one of them. -/
theorem Follow.exists_contains {slots : List (DeviceSlot m)} {base : Int} (h : Follow base slots)
    {k : Nat} (hk : k < extent slots) : ∃ slot ∈ slots, slot.Contains (base + k) := by
  induction slots generalizing base k with
  | nil => exact absurd hk (Nat.not_lt_zero k)
  | cons slot slots ih =>
    obtain ⟨haddress, hfollow⟩ := h
    by_cases hslot : k < slot.size
    · refine ⟨slot, List.mem_cons_self, ?_⟩
      constructor <;> omega
    · rw [extent_cons] at hk
      obtain ⟨other, hother, hcontains⟩ := ih hfollow (k := k - slot.size) (by omega)
      refine ⟨other, List.mem_cons_of_mem _ hother, ?_⟩
      have haddr : base + slot.size + ((k - slot.size : Nat) : Int) = base + k := by omega
      rwa [haddr] at hcontains

/-- Only the places of the slots matter. -/
theorem follow_ofFn_congr {slots slots' : Fin n → DeviceSlot m} {base : Int}
    (hplaces : ∀ i, (slots' i).address = (slots i).address ∧ (slots' i).size = (slots i).size)
    (h : Follow base (List.ofFn slots)) : Follow base (List.ofFn slots') := by
  induction n generalizing base with
  | zero => exact trivial
  | succ n ih =>
    rw [List.ofFn_succ] at h ⊢
    refine ⟨(hplaces 0).1.trans h.1, ?_⟩
    rw [(hplaces 0).2]
    exact ih (fun i => hplaces i.succ) h.2

namespace Device

variable (device : Device n m)

/-- The slots in their order. -/
def slotList : List (DeviceSlot m) := List.ofFn device.slots

/-- The slots follow each other from address 0 on and cover the address space. -/
structure SlotLayout : Prop where
  follow : Follow 0 device.slotList
  covers : 0x10000 ≤ extent device.slotList

/-- `count` bytes behind `RAM + offset` of the page in a slot. -/
def ramBytes (slot : DeviceSlot m) (offset : Int) (count : Nat) : List Byte :=
  (List.range count).map fun k => device.memory ((device.pages slot.page).ram + offset.toNat + k)

/-- All bytes that a slot shows. -/
def content (slot : DeviceSlot m) : List Byte := device.ramBytes slot 0 slot.size

/-- The address space as the slots show it. -/
def mapped : List (List Byte) := device.slotList.map device.content

@[simp] theorem length_ramBytes (slot : DeviceSlot m) (offset : Int) (count : Nat) :
    (device.ramBytes slot offset count).length = count := by
  simp [ramBytes]

@[simp] theorem length_content (slot : DeviceSlot m) : (device.content slot).length = slot.size :=
  device.length_ramBytes slot 0 slot.size

/-- What is read from a slot is a part of what it shows. -/
theorem ramBytes_eq {slot : DeviceSlot m} {offset : Int} {count : Nat} (hoffset : 0 ≤ offset)
    (h : offset + count ≤ slot.size) :
    device.ramBytes slot offset count = ((device.content slot).drop offset.toNat).take count := by
  refine List.ext_getElem (by simp; omega) fun k hk hk' => ?_
  simp only [ramBytes, content, List.getElem_map, List.getElem_range, List.getElem_take,
    List.getElem_drop, Int.toNat_zero, Nat.add_zero]
  congr 1
  omega

theorem sum_length_content (slots : List (DeviceSlot m)) :
    ((slots.map device.content).map List.length).sum = extent slots := by
  rw [List.map_map, extent]
  congr 2
  funext slot
  exact device.length_content slot

/-- A covered address shows the byte of any slot that contains it. -/
theorem getElem?_flatten_content {slots : List (DeviceSlot m)} {base : Int} (h : Follow base slots)
    {slot : DeviceSlot m} (hslot : slot ∈ slots) {k : Nat} (hcontains : slot.Contains (base + k)) :
    (slots.map device.content).flatten[k]? = some (device.memory (device.ramPointer slot (base + k)))
    := by
  -- by induction on the slots, which follow each other without a gap
  induction slots generalizing base k with
  | nil => simp at hslot
  | cons first slots ih =>
    obtain ⟨haddress, hfollow⟩ := h
    obtain ⟨hlow, hhigh⟩ := hcontains
    rw [List.map_cons, List.flatten_cons]
    rcases List.mem_cons.mp hslot with rfl | hslot
    · have hk : k < slot.size := by omega
      rw [List.getElem?_append_left (by rwa [length_content]),
        List.getElem?_eq_getElem (by rwa [length_content])]
      simp only [content, ramBytes, List.getElem_map, List.getElem_range, Int.toNat_zero,
        Nat.add_zero, ramPointer, haddress]
      congr 3
      omega
    · have hle := hfollow.le_address slot hslot
      have haddr : base + first.size + ((k - first.size : Nat) : Int) = base + k := by omega
      rw [List.getElem?_append_right (by rw [length_content]; omega), length_content]
      have hrest := ih hfollow hslot (k := k - first.size) (by rw [haddr]; exact ⟨hlow, hhigh⟩)
      rwa [haddr] at hrest

/-- A reset finds the slot of the address and keeps the mapping. -/
theorem check_reset (lastPass : Bool) (longAddr : Int) :
    (device.check lastPass .reset longAddr).device.slots = device.slots ∧
      (device.check lastPass .reset longAddr).device.pages = device.pages ∧
      (device.check lastPass .reset longAddr).device.memory = device.memory := by
  unfold check
  dsimp only
  rw [if_neg (fun h => h.1 rfl)]
  cases device.findSlot longAddr with
  | none => exact ⟨rfl, rfl, rfl⟩
  | some i => exact ⟨rfl, rfl, rfl⟩

namespace SlotLayout

variable {device} (h : device.SlotLayout)

include h

/-- Two slots of one address are the same. -/
theorem contains_unique {i j : Fin n} {address : Int} (hi : (device.slots i).Contains address)
    (hj : (device.slots j).Contains address) : i = j := by
  have hpairwise := h.follow.pairwise
  rw [slotList, List.pairwise_ofFn] at hpairwise
  obtain ⟨hlow, hhigh⟩ := hi
  obtain ⟨hlow', hhigh'⟩ := hj
  rcases lt_trichotomy i j with hlt | heq | hlt
  · have := hpairwise hlt
    omega
  · exact heq
  · have := hpairwise hlt
    omega

/-- Every address of the processor lies in a slot. -/
theorem exists_contains {address : Int} (hlow : 0 ≤ address) (hhigh : address < 0x10000) :
    ∃ i, (device.slots i).Contains address := by
  obtain ⟨k, rfl⟩ := Int.eq_ofNat_of_zero_le hlow
  have hcovers := h.covers
  obtain ⟨slot, hslot, hcontains⟩ := h.follow.exists_contains (k := k) (by omega)
  obtain ⟨i, rfl⟩ := (List.mem_ofFn' _ _).mp hslot
  rw [Int.zero_add] at hcontains
  exact ⟨i, hcontains⟩

/-- The loop over the slots from the last one finds the slot that contains the address. -/
theorem find_eq_some {i : Fin n} {address : Int} (hi : (device.slots i).Contains address) :
    (List.finRange n).reverse.find? (fun i => (device.slots i).address ≤ address) = some i := by
  have hpairwise := h.follow.pairwise
  rw [slotList, List.pairwise_ofFn] at hpairwise
  rw [List.find?_eq_some_iff_getElem]
  -- the slots from the last one down: the first that starts at the address or below
  refine ⟨by simpa using hi.1, n - 1 - i.val, by simp; omega, ?_, fun k hk => ?_⟩
  · rw [List.getElem_reverse]
    ext
    simp
    omega
  · -- a later slot starts behind the end of this one
    rw [List.getElem_reverse]
    have hlater : i < (⟨n - 1 - k, by omega⟩ : Fin n) := by
      rw [Fin.lt_def]
      dsimp only
      omega
    have hbehind := hpairwise hlater
    obtain ⟨-, hhigh⟩ := hi
    simp
    omega

/-- `GetSlotOfA16` finds the slot that contains the address. -/
theorem getSlotOfA16_eq_some {i : Fin n} {address : Int}
    (hi : (device.slots i).Contains address) : device.getSlotOfA16 address = some i := by
  rw [getSlotOfA16, h.find_eq_some hi]
  exact if_pos hi

/-- `CheckPage` always finds a slot, for an address of the processor the one that contains it. -/
theorem exists_findSlot (address : Int) :
    ∃ i, device.findSlot address = some i ∧ (device.slots i).Contains (address % 0x10000) := by
  have hlow : 0 ≤ address % 0x10000 := by omega
  obtain ⟨i, hi⟩ := h.exists_contains hlow (by omega)
  exact ⟨i, h.find_eq_some hi, hi⟩

/-- `MemGetByte` reads what the slots show. -/
theorem memGetByte_eq {address : Nat} (hhigh : address < 0x10000) :
    ∃ byte, device.mapped.flatten[address]? = some byte ∧
      device.memGetByte address = (byte.toNat, []) := by
  obtain ⟨i, hi⟩ := h.exists_contains (Int.natCast_nonneg address) (by omega)
  refine ⟨device.memory (device.ramPointer (device.slots i) address), ?_, ?_⟩
  · have hmem : device.slots i ∈ device.slotList := (List.mem_ofFn' _ _).mpr ⟨i, rfl⟩
    have hread := device.getElem?_flatten_content h.follow hmem (k := address)
      (by rwa [Int.zero_add])
    rwa [Int.zero_add] at hread
  · have hfind : ((List.finRange n).find? fun i => (device.slots i).Contains address) = some i := by
      rcases hfirst : (List.finRange n).find? fun i => (device.slots i).Contains address with _ | j
      · exact absurd hi (by simpa using List.find?_eq_none.mp hfirst i (List.mem_finRange i))
      · have hj : (device.slots j).Contains address := by simpa using List.find?_some hfirst
        rw [h.contains_unique hj hi]
    rw [memGetByte, hfind]

end SlotLayout

/-- The bytes that `MemGetByte` gives from an address on. -/
def mappedBytes (start length : Nat) : List Byte :=
  (List.range length).map fun k => BitVec.ofNat 8 (device.memGetByte (start + k)).1

@[simp] theorem length_mappedBytes (start length : Nat) :
    (device.mappedBytes start length).length = length := by
  simp [mappedBytes]

/-- `MemGetByte` reads a range of what the slots show. -/
theorem SlotLayout.mappedBytes_eq {device : Device n m} (h : device.SlotLayout) {start length : Nat}
    (hend : start + length ≤ 0x10000) :
    device.mappedBytes start length = Segments.read device.mapped start length := by
  have hcovers := h.covers
  have hlength : (Segments.read device.mapped start length).length = length := by
    refine Segments.length_read ?_
    rw [mapped, sum_length_content]
    omega
  refine List.ext_getElem (by rw [hlength, length_mappedBytes]) fun k hk hk' => ?_
  have hklt : k < length := by rwa [length_mappedBytes] at hk
  obtain ⟨byte, hbyte, hread⟩ := h.memGetByte_eq (show start + k < 0x10000 by omega)
  have hget : (Segments.read device.mapped start length)[k]? = some byte := by
    rw [Segments.read, List.getElem?_take_of_lt hklt, List.getElem?_drop, hbyte]
  rw [List.getElem?_eq_getElem hk', Option.some.injEq] at hget
  rw [hget]
  simp [mappedBytes, hread]

/-- The slots of the other device stand where those of this one do. -/
def SamePlaces (device' : Device n m) : Prop :=
  ∀ i, (device'.slots i).address = (device.slots i).address ∧
    (device'.slots i).size = (device.slots i).size

/-- The layout is a matter of the places of the slots only, whatever they show. -/
theorem SlotLayout.of_places {device device' : Device n m} (h : device.SlotLayout)
    (hplaces : device.SamePlaces device') : device'.SlotLayout where
  follow := follow_ofFn_congr hplaces h.follow
  covers := by
    have hcovers := h.covers
    have hextent : extent device'.slotList = extent device.slotList := by
      unfold extent slotList
      rw [List.map_ofFn, List.map_ofFn]
      exact congrArg (fun f => (List.ofFn f).sum) (funext fun i => (hplaces i).2)
    rwa [hextent]

theorem SlotLayout.of_slots {device device' : Device n m} (h : device.SlotLayout)
    (hslots : device'.slots = device.slots) : device'.SlotLayout :=
  h.of_places fun i => by rw [hslots]; exact ⟨rfl, rfl⟩

end Device

/-! ### The layout of regular devices -/

/-- Slots that start where the one in front ends. -/
theorem follow_ofFn {slots : Fin n → DeviceSlot m} {base : Int}
    (hfirst : ∀ h : 0 < n, (slots ⟨0, h⟩).address = base)
    (hnext : ∀ i (h : i + 1 < n), (slots ⟨i + 1, h⟩).address
      = (slots ⟨i, by omega⟩).address + (slots ⟨i, by omega⟩).size) :
    Follow base (List.ofFn slots) := by
  induction n generalizing base with
  | zero => exact trivial
  | succ n ih =>
    rw [List.ofFn_succ]
    refine ⟨hfirst (Nat.succ_pos n), ih (fun h => ?_) fun i h => hnext (i + 1) (by omega)⟩
    rw [← hfirst (Nat.succ_pos n)]
    exact hnext 0 (by omega)

/-- The slots of a device of the program cover the address space in their order. -/
theorem slotLayout_initRegularSlotDevice {slotSize : Nat} (hsize : 0 < slotSize) (hn : 0 < n)
    (initialPages : Fin n → Fin m) (hcovers : 0x10000 ≤ n * slotSize) :
    (initRegularSlotDevice slotSize hsize hn initialPages).SlotLayout where
  follow := by
    refine follow_ofFn (fun h => ?_) fun i h => ?_
    · simp [initRegularSlotDevice]
    · simp only [initRegularSlotDevice]
      push_cast
      ring
  covers := by
    have hextent : extent (initRegularSlotDevice slotSize hsize hn initialPages).slotList
        = n * slotSize := by
      simp [extent, Device.slotList, initRegularSlotDevice, List.map_ofFn, Function.comp_def]
    rwa [hextent]

theorem slotLayout_zxSpectrum128 (address : Int) : (zxSpectrum128 address).SlotLayout :=
  (slotLayout_initRegularSlotDevice (by decide) (by decide) _ (by decide)).of_slots
    (Device.check_reset _ _ _).1

end Sjasmplus
