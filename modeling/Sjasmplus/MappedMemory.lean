import Sjasmplus.DeviceLayout

/-!
# Reading the mapped memory (`SaveRAM` and `SaveHex` of `sjio.cpp`, `getContigRAM` of `io_cpc.cpp`)

The files that hold a part of the address space are written by loops over the slots, each with its
own arithmetic.  All of them read the range that `MemGetByte` reads byte by byte.

* `saveRAM_eq`, `hexData_saveHex`, `getContigRAM_eq` — each loop gives `Device.mappedBytes`.
-/

namespace Sjasmplus

variable {n m : Nat}

/-! ### `SaveRAM` -/

namespace Device

variable (device : Device n m)

/-- The loop of `SaveRAM` over the slots: what it writes, and whether it ran to its end. -/
def saveRAMLoop : List (DeviceSlot m) → Int → Int → List Byte × Bool
  | [], _, _ => ([], false)
  | S :: slots, start, length =>
    if S.Contains start then
      let save := if length < S.size - (start - S.address) then length
        else S.size - (start - S.address)
      let bytes := device.ramBytes S (start - S.address) save.toNat
      if length - save ≤ 0 then (bytes, true)
      else
        let rest := saveRAMLoop slots (start + save) (length - save)
        (bytes ++ rest.1, rest.2)
    else saveRAMLoop slots start length

/-- `SaveRAM`, with a device: a negative start and a length that is not positive count from the end of
the memory. -/
def saveRAM (start length : Aint) : List Byte × Bool :=
  if start.toInt < -0x10000 ∨ 0xFFFF < start.toInt then ([], false)
  else
    let start := if start.toInt < 0 then start + 0x10000 else start
    let length := if length.toInt ≤ 0 then length + (0x10000 - start) else length
    if length.toInt ≤ 0 then ([], false)
    else
      let length := if 0x10000 < (start + length).toInt then 0x10000 - start else length
      device.saveRAMLoop device.slotList start.toInt length.toInt

/-- Inside of what the slots cover the loop writes the range. -/
theorem saveRAMLoop_eq {slots : List (DeviceSlot m)} {base : Int} (h : Follow base slots) :
    ∀ {offset length : Nat}, 0 < length → offset + length ≤ extent slots →
      device.saveRAMLoop slots (base + offset) length
        = (Segments.read (slots.map device.content) offset length, true) := by
  -- by induction on the slots: those in front of the address are passed over
  induction slots generalizing base with
  | nil =>
    intro offset length hlength hend
    rw [extent_nil] at hend
    omega
  | cons S slots ih =>
    obtain ⟨haddress, hfollow⟩ := h
    intro offset length hlength hend
    rw [extent_cons] at hend
    have hoffset : base + offset - S.address = offset := by omega
    have hcontains : S.Contains (base + offset) ↔ offset < S.size := by
      constructor
      · rintro ⟨-, hhigh⟩
        omega
      · intro hlt
        constructor <;> omega
    rw [saveRAMLoop, hoffset, List.map_cons]
    -- the address is in this slot, or behind it
    by_cases hin : offset < S.size
    · rw [if_pos (hcontains.mpr hin)]
      by_cases hlast : length < S.size - offset
      · -- the range ends in this slot
        rw [if_pos (show (length : Int) < S.size - offset by omega)]
        dsimp only
        rw [Int.toNat_natCast, if_pos (by omega),
          Segments.read_within (by rw [length_content]; omega), device.ramBytes_eq (by omega) (by omega),
          Int.toNat_natCast]
      · rw [if_neg (show ¬(length : Int) < S.size - offset by omega),
          Segments.read_cross (by rw [length_content]; omega), length_content]
        dsimp only
        have hsave : ((S.size : Int) - offset).toNat = S.size - offset := by omega
        have htake : ((device.content S).drop offset).take length = (device.content S).drop offset :=
          List.take_of_length_le (by rw [List.length_drop, length_content]; omega)
        have hbytes : device.ramBytes S offset (S.size - offset) = (device.content S).drop offset := by
          rw [device.ramBytes_eq (by omega) (by omega), Int.toNat_natCast]
          exact List.take_of_length_le (by rw [List.length_drop, length_content])
        rw [hsave, hbytes, htake]
        -- the rest of the range starts where the slot ends
        by_cases hdone : length = S.size - offset
        · rw [if_pos (by omega), Nat.sub_eq_zero_of_le hdone.le, Segments.read_zero,
            List.append_nil]
        · have hrest := ih hfollow (show 0 < length - (S.size - offset) by omega)
            (show 0 + (length - (S.size - offset)) ≤ extent slots by omega)
          have hstart : base + offset + (S.size - offset : Int) = base + S.size + (0 : Nat) := by omega
          have hleft : (length : Int) - (S.size - offset) = (length - (S.size - offset) : Nat) := by
            omega
          rw [if_neg (by omega), hstart, hleft, hrest]
    · rw [if_neg (fun hc => hin (hcontains.mp hc)), Segments.read_skip (by rw [length_content]; omega),
        length_content]
      have hrest := ih hfollow hlength (show offset - S.size + length ≤ extent slots by omega)
      have hstart : base + S.size + ((offset - S.size : Nat) : Int) = base + offset := by omega
      rwa [hstart] at hrest

/-- `SaveRAM` writes what `MemGetByte` reads. -/
theorem saveRAM_eq (h : device.SlotLayout) {start length : Aint} (hstart : 0 ≤ start.toInt)
    (hlength : 0 < length.toInt) (hend : start.toInt + length.toInt ≤ 0x10000) :
    device.saveRAM start length
      = (device.mappedBytes start.toInt.toNat length.toInt.toNat, true) := by
  have hcovers := h.covers
  have hsum : (start + length).toInt = start.toInt + length.toInt := by
    rw [BitVec.toInt_add, Int.bmod_eq_of_le (by omega) (by omega)]
  have hloop := device.saveRAMLoop_eq h.follow (show 0 < length.toInt.toNat by omega)
    (show start.toInt.toNat + length.toInt.toNat ≤ extent device.slotList by omega)
  rw [Int.zero_add, Int.toNat_of_nonneg hstart, Int.toNat_of_nonneg hlength.le] at hloop
  rw [saveRAM, if_neg (by omega)]
  dsimp only
  rw [if_neg (show ¬start.toInt < 0 by omega), if_neg (show ¬length.toInt ≤ 0 by omega),
    if_neg (by omega), if_neg (by omega), hloop, h.mappedBytes_eq (by omega)]
  rfl

/-- `SaveRAM` stops at the end of the memory. -/
theorem saveRAM_eq_min (h : device.SlotLayout) {start length : Aint} (hstart : 0 ≤ start.toInt)
    (hlow : start.toInt < 0x10000) (hlength : 0 < length.toInt) (hhigh : length.toInt ≤ 0x10000) :
    device.saveRAM start length
      = (device.mappedBytes start.toInt.toNat
          (min length.toInt.toNat (0x10000 - start.toInt.toNat)), true) := by
  -- a range that ends in the memory is saved as it is, a longer one up to the end
  by_cases hend : start.toInt + length.toInt ≤ 0x10000
  · rw [device.saveRAM_eq h hstart hlength hend, Nat.min_eq_left (by omega)]
  · have hrest : (0x10000 - start : Aint).toInt = 0x10000 - start.toInt := by
      rw [BitVec.toInt_sub, Int.bmod_eq_of_le] <;> simp <;> omega
    have hsum : (start + length).toInt = start.toInt + length.toInt := by
      rw [BitVec.toInt_add, Int.bmod_eq_of_le (by omega) (by omega)]
    have hfull : (start + (0x10000 - start) : Aint).toInt = 0x10000 := by
      rw [BitVec.toInt_add, hrest, Int.bmod_eq_of_le (by omega) (by omega)]
      omega
    -- the source cuts the length to what is left behind the start
    have hclamp : device.saveRAM start length = device.saveRAM start (0x10000 - start) := by
      have hrange : ¬(start.toInt < -0x10000 ∨ 0xFFFF < start.toInt) := by omega
      have hpos : ¬start.toInt < 0 := by omega
      rw [saveRAM, saveRAM, if_neg hrange, if_neg hrange]
      dsimp only
      rw [if_neg hpos, if_neg (show ¬length.toInt ≤ 0 by omega),
        if_neg (show ¬(0x10000 - start : Aint).toInt ≤ 0 by omega),
        if_neg (show ¬length.toInt ≤ 0 by omega),
        if_neg (show ¬(0x10000 - start : Aint).toInt ≤ 0 by omega), if_pos (by omega), hfull,
        if_neg (show ¬(0x10000 : Int) < 0x10000 by omega)]
    have hcount : ((0x10000 : Int) - start.toInt).toNat = 0x10000 - start.toInt.toNat := by omega
    rw [hclamp, device.saveRAM_eq h hstart (by omega) (by omega), Nat.min_eq_right (by omega), hrest,
      hcount]

end Device

/-! ### `SaveHex` -/

/-- `HEX_RECORD_MAX`. -/
def hexRecordMax : Nat := 16

/-- A record of a HEX file: the arguments of `WriteHexRecord`. -/
structure HexRecord where
  blockType : Byte
  address : BitVec 16
  data : List Byte
deriving DecidableEq, Repr

/-- The records of `CloseHex`: a start address, and the end of the file. -/
def closeHex (start : Aint) : List HexRecord :=
  (if 0 ≤ start.toInt then
    [⟨3, 0, [(start >>> 24).setWidth 8, (start >>> 16).setWidth 8, (start >>> 8).setWidth 8,
      start.setWidth 8]⟩]
  else []) ++ [⟨1, 0, []⟩]

/-- The data bytes of the records. -/
def hexData (records : List HexRecord) : List Byte :=
  (records.filter (·.blockType = 0)).flatMap HexRecord.data

theorem hexData_append (records records' : List HexRecord) :
    hexData (records ++ records') = hexData records ++ hexData records' := by
  rw [hexData, List.filter_append, List.flatMap_append, hexData, hexData]

/-- What closes the file are no data. -/
@[simp] theorem hexData_closeHex (start : Aint) : hexData (closeHex start) = [] := by
  unfold closeHex
  split_ifs <;> rfl

namespace Device

variable (device : Device n m)

/-- The records for `save` bytes of a slot: full ones, and the rest. -/
def hexRecords (S : DeviceSlot m) (start : Int) (save : Nat) : List HexRecord :=
  if hexRecordMax ≤ save then
    ⟨0, BitVec.ofInt 16 start, device.ramBytes S (start - S.address) hexRecordMax⟩ ::
      hexRecords S (start + hexRecordMax) (save - hexRecordMax)
  else if 0 < save then
    [⟨0, BitVec.ofInt 16 start, device.ramBytes S (start - S.address) save⟩]
  else []
termination_by save
decreasing_by
  simp only [hexRecordMax] at *
  omega

/-- The loop of `SaveHex` over the slots: the records, and whether it ran to its end. -/
def saveHexLoop : List (DeviceSlot m) → Int → Int → List HexRecord × Bool
  | [], _, _ => ([], false)
  | S :: slots, start, length =>
    if start < S.address then ([], false)
    else if start < S.address + S.size then
      -- the loop inside of a slot turns once: it reaches the end of the range or of the slot
      let save := min length (S.size - (start - S.address))
      let records := device.hexRecords S start save.toNat
      if length - save ≤ 0 then (records, true)
      else
        let rest := saveHexLoop slots (start + save) (length - save)
        (records ++ rest.1, rest.2)
    else saveHexLoop slots start length

/-- `SaveHex`, with a device and an opened file. -/
def saveHex (start length start_adr : Aint) : List HexRecord × Bool :=
  let r := device.saveHexLoop device.slotList start.toInt length.toInt
  if r.2 then (r.1 ++ closeHex start_adr, true) else r

/-- The records of a slot hold its bytes. -/
theorem hexData_hexRecords (S : DeviceSlot m) (offset save : Nat) (h : offset + save ≤ S.size) :
    hexData (device.hexRecords S (S.address + offset) save)
      = ((device.content S).drop offset).take save := by
  have hoffset : S.address + offset - S.address = offset := by omega
  -- by strong induction on the length, a full record at a time
  induction save using Nat.strong_induction_on generalizing offset with
  | _ save ih =>
  rw [hexRecords, hoffset]
  by_cases hfull : hexRecordMax ≤ save
  · have hpos : 0 < hexRecordMax := by decide
    have hnext : S.address + offset + hexRecordMax = S.address + (offset + hexRecordMax : Nat) := by
      omega
    have hrest := ih (save - hexRecordMax) (by omega) (offset + hexRecordMax) (by omega) (by omega)
    have hsplit : save = hexRecordMax + (save - hexRecordMax) := by omega
    rw [if_pos hfull, hnext]
    conv_rhs => rw [hsplit, List.take_add, List.drop_drop]
    rw [← hrest, device.ramBytes_eq (by omega) (by omega)]
    rfl
  · rw [if_neg hfull]
    -- the last record has what is left, if anything
    by_cases hpos : 0 < save
    · rw [if_pos hpos, device.ramBytes_eq (by omega) (by omega)]
      simp [hexData]
    · rw [if_neg hpos, Nat.eq_zero_of_not_pos hpos]
      rfl

/-- Inside of what the slots cover the loop writes the range. -/
theorem saveHexLoop_eq {slots : List (DeviceSlot m)} {base : Int} (h : Follow base slots) :
    ∀ {offset length : Nat}, 0 < length → offset + length ≤ extent slots →
      hexData (device.saveHexLoop slots (base + offset) length).1
          = Segments.read (slots.map device.content) offset length ∧
        (device.saveHexLoop slots (base + offset) length).2 = true := by
  -- by induction on the slots, as for the plain bytes
  induction slots generalizing base with
  | nil =>
    intro offset length hlength hend
    rw [extent_nil] at hend
    omega
  | cons S slots ih =>
    obtain ⟨haddress, hfollow⟩ := h
    intro offset length hlength hend
    rw [extent_cons] at hend
    have hoffset : base + offset - S.address = offset := by omega
    rw [saveHexLoop, if_neg (by omega), hoffset, List.map_cons, ← haddress]
    by_cases hin : offset < S.size
    · rw [if_pos (by omega)]
      dsimp only
      have hsave : (min (length : Int) (S.size - offset)).toNat = min length (S.size - offset) := by
        omega
      have hrecords := device.hexData_hexRecords S offset (min length (S.size - offset)) (by omega)
      rw [hsave, Segments.read_cross (by rw [length_content]; omega), length_content]
      -- the records end with the range, or go on in the next slot
      by_cases hdone : length ≤ S.size - offset
      · rw [if_pos (by omega), Nat.sub_eq_zero_of_le hdone, Segments.read_zero, List.append_nil]
        rw [Nat.min_eq_left hdone] at hrecords ⊢
        exact ⟨hrecords, rfl⟩
      · have hrest := ih hfollow (show 0 < length - (S.size - offset) by omega)
          (show 0 + (length - (S.size - offset)) ≤ extent slots by omega)
        have hstart : S.address + offset + min (length : Int) (S.size - offset)
            = base + S.size + (0 : Nat) := by omega
        have hleft : (length : Int) - min (length : Int) (S.size - offset)
            = (length - (S.size - offset) : Nat) := by omega
        rw [if_neg (by omega), hstart, hleft]
        dsimp only
        rw [hexData_append, hrecords, hrest.1, Nat.min_eq_right (by omega)]
        refine ⟨?_, hrest.2⟩
        congr 1
        rw [List.take_of_length_le (by rw [List.length_drop, length_content]),
          List.take_of_length_le (by rw [List.length_drop, length_content]; omega)]
    · rw [if_neg (by omega), Segments.read_skip (by rw [length_content]; omega), length_content]
      have hrest := ih hfollow hlength (show offset - S.size + length ≤ extent slots by omega)
      have hstart : base + S.size + ((offset - S.size : Nat) : Int) = S.address + offset := by omega
      rwa [hstart] at hrest

/-- The data of `SaveHex` are what `MemGetByte` reads. -/
theorem hexData_saveHex (h : device.SlotLayout) {start length : Aint} (start_adr : Aint)
    (hstart : 0 ≤ start.toInt) (hlength : 0 < length.toInt)
    (hend : start.toInt + length.toInt ≤ 0x10000) :
    hexData (device.saveHex start length start_adr).1
        = device.mappedBytes start.toInt.toNat length.toInt.toNat ∧
      (device.saveHex start length start_adr).2 = true := by
  have hcovers := h.covers
  obtain ⟨hdata, hdone⟩ := device.saveHexLoop_eq h.follow (show 0 < length.toInt.toNat by omega)
    (show start.toInt.toNat + length.toInt.toNat ≤ extent device.slotList by omega)
  rw [Int.zero_add, Int.toNat_of_nonneg hstart, Int.toNat_of_nonneg hlength.le] at hdata hdone
  rw [saveHex, if_pos hdone, hexData_append, hexData_closeHex, List.append_nil, hdata,
    h.mappedBytes_eq (by omega)]
  exact ⟨rfl, rfl⟩

/-! ### `getContigRAM` -/

/-- The loop of `CDTUtil::getContigRAM`.  Every turn copies a byte at least, so the length is enough
fuel; the `assert` excludes an address outside of all slots. -/
def getContigRAMLoop : Nat → Int → Int → List Byte
  | 0, _, _ => []
  | fuel + 1, startAddr, length =>
    if 0 < length then
      match device.getSlotOfA16 startAddr with
      | none => []
      | some slotId =>
        let S := device.slots slotId
        let offset := startAddr - S.address
        let slotLength := min (S.size - offset) length
        device.ramBytes S offset slotLength.toNat ++
          getContigRAMLoop fuel (startAddr + slotLength) (length - slotLength)
    else []

/-- `CDTUtil::getContigRAM`. -/
def getContigRAM (startAddr length : Aint) : List Byte :=
  device.getContigRAMLoop length.toInt.toNat startAddr.toInt length.toInt

/-- A run of addresses in one slot. -/
theorem ramBytes_eq_mappedBytes (h : device.SlotLayout) {i : Fin n} {start count : Nat}
    (hlow : (device.slots i).address ≤ start)
    (hhigh : start + count ≤ (device.slots i).address + (device.slots i).size)
    (hend : start + count ≤ 0x10000) :
    device.ramBytes (device.slots i) (start - (device.slots i).address) count
      = device.mappedBytes start count := by
  refine List.ext_getElem (by simp) fun k hk hk' => ?_
  rw [length_ramBytes] at hk
  obtain ⟨byte, hbyte, hread⟩ := h.memGetByte_eq (show start + k < 0x10000 by omega)
  have hmem : device.slots i ∈ device.slotList := (List.mem_ofFn' _ _).mpr ⟨i, rfl⟩
  have hshown := device.getElem?_flatten_content h.follow hmem (k := start + k)
    (by constructor <;> omega)
  have hpointer : (start - (device.slots i).address).toNat + k
      = (0 + ((start + k : Nat) : Int) - (device.slots i).address).toNat := by omega
  have heq : byte = device.memory (device.ramPointer (device.slots i) (0 + ((start + k : Nat) : Int))) :=
    Option.some.inj (hbyte.symm.trans hshown)
  simp only [ramBytes, mappedBytes, List.getElem_map, List.getElem_range, hread, heq, ramPointer,
    ← hpointer, BitVec.ofNat_toNat, BitVec.setWidth_eq, Nat.add_assoc]

theorem mappedBytes_add (start length length' : Nat) :
    device.mappedBytes start (length + length')
      = device.mappedBytes start length ++ device.mappedBytes (start + length) length' := by
  simp [mappedBytes, List.range_add, Nat.add_assoc]

theorem getContigRAMLoop_eq (h : device.SlotLayout) (fuel : Nat) :
    ∀ start length : Nat, length ≤ fuel → start + length ≤ 0x10000 →
      device.getContigRAMLoop fuel start length = device.mappedBytes start length := by
  -- by induction on the fuel: each turn reads up to the end of its slot
  induction fuel with
  | zero =>
    intro start length hfuel _
    rw [Nat.le_zero.mp hfuel]
    rfl
  | succ fuel ih =>
    intro start length hfuel hend
    rw [getContigRAMLoop]
    by_cases hpos : 0 < length
    · obtain ⟨i, hi⟩ := h.exists_contains (Int.natCast_nonneg start)
        (show (start : Int) < 0x10000 by omega)
      rw [if_pos (by omega), h.getSlotOfA16_eq_some hi]
      obtain ⟨hlow, hhigh⟩ := hi
      dsimp only
      obtain ⟨count, hcount⟩ := Int.eq_ofNat_of_zero_le (show 0 ≤ min ((device.slots i).size
        - ((start : Int) - (device.slots i).address)) length by omega)
      have hpositive : 0 < count := by omega
      have hrest := ih (start + count) (length - count) (by omega) (by omega)
      have hstart : (start : Int) + (count : Int) = (start + count : Nat) := by omega
      have hleft : (length : Int) - (count : Int) = (length - count : Nat) := by omega
      have hsplit : length = count + (length - count) := by omega
      rw [hcount]
      simp only [Int.toNat_natCast]
      rw [hstart, hleft, hrest, device.ramBytes_eq_mappedBytes h hlow (by omega) (by omega)]
      conv_rhs => rw [hsplit, mappedBytes_add]
    · rw [if_neg (by omega), Nat.eq_zero_of_not_pos hpos]
      rfl

/-- `getContigRAM` collects what `MemGetByte` reads. -/
theorem getContigRAM_eq (h : device.SlotLayout) {start length : Aint} (hstart : 0 ≤ start.toInt)
    (hlength : 0 ≤ length.toInt) (hend : start.toInt + length.toInt ≤ 0x10000) :
    device.getContigRAM start length
      = device.mappedBytes start.toInt.toNat length.toInt.toNat := by
  have hloop := device.getContigRAMLoop_eq h length.toInt.toNat start.toInt.toNat
    length.toInt.toNat le_rfl (by omega)
  rwa [Int.toNat_of_nonneg hstart, Int.toNat_of_nonneg hlength] at hloop

end Device

end Sjasmplus
