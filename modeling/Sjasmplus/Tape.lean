import Sjasmplus.MappedMemory

/-!
# Tape blocks (`TAP_SaveBlock` of `io_tape.cpp`, `TZX_AppendStandardBlock` of `io_tzx.cpp`)

A block on a tape is a length in two bytes, and then that many bytes: a flag, the payload, and a
checksum which makes the exclusive or of all of them 0 (`IsBlock`).  A file saved to a TAP gets a block
of its own for the header.

* `tape_blocks_iff` — the blocks are well formed, with the requested memory as their payload, exactly
  as long as flag, payload and checksum fit into the 16 bits of the length;
* `readers_agree` — the block, the files of `SaveRAM` and `SaveHex` and the buffer of `getContigRAM`
  hold the same bytes, those of `MemGetByte`.
-/

namespace Sjasmplus

open Parsing ParseFn

variable {n m : Nat}

/-! ### Bytes of a tape -/

/-- `writeword`. -/
def writeword (i : Nat) : List Byte := [BitVec.ofNat 8 i, BitVec.ofNat 8 (i / 256)]

/-- What `writebyte` makes of `parity` over some bytes. -/
def parity (bytes : List Byte) : Byte := bytes.foldl (· ^^^ ·) 0

/-- `ETapeHeaderType`. -/
inductive ETapeHeaderType
  | basic | numbers | chars | code | headless
deriving DecidableEq, Repr

/-- The value of the enumeration. -/
def ETapeHeaderType.toByte : ETapeHeaderType → Byte
  | basic => 0
  | numbers => 1
  | chars => 2
  | code => 3
  | headless => 255

/-- The ten characters of a name in a header. -/
def headerName (fname : Text) : List Byte :=
  let name := ((fname.takeWhile (· ≠ '\x00')).take 10).map fun c => BitVec.ofNat 8 c.toNat
  name ++ List.replicate (10 - name.length) 0x20

/-- `writeheader`. -/
def writeheader (flag : Byte) (fname : Text) (param1 param2 param3 : Int) : List Byte :=
  let word (i : Int) := writeword (i % 0x10000).toNat
  let bytes := flag :: headerName fname ++ word param1 ++ word param2 ++ word param3
  writeword 19 ++ 0 :: bytes ++ [parity bytes]

/-! ### `TAP_SaveBlock` -/

/-- The length of the data: up to the end of the memory when none is given or it ends behind. -/
def tapLength (start length : Int) : Int :=
  let length := if 0x10000 < length + start then -1 else length
  if length ≤ 0 then 0x10000 - start else length

/-- `param2` and `param3` of the header, with their defaults. -/
def tapParameters (start length param2 param3 : Int) : ETapeHeaderType → Reported (Int × Int)
  | .basic =>
    let param2' := if param2 < 0 then 0x8000 else param2
    ((param2', if param3 < 0 then length else param3),
      if 16384 ≤ param2' ∧ param2' ≠ 0x8000 then
        [errorInt "[SAVETAP] Autostart LINE out of range" param2' .pass3]
      else [])
  | .numbers => variableParameters 0x80
  | .chars => variableParameters 0xC0
  | .code =>
    ((if param2 < 0 then start else param2, if param3 < 0 then 0x8000 else param3), [])
  | .headless => ((param2, param3), [])
where
  /-- The cases `CHARS` and `NUMBERS`. -/
  variableParameters (varBase : Nat) : Reported (Int × Int) :=
    let variable' := ((if param2 ≤ 0 then 1 else param2) % 32).toNat
    ((((variable' ||| varBase) * 256 : Nat), 0x8000),
      if variable' < 1 ∨ 26 < variable' then
        [.error "[SAVETAP] Variable name out of range" none .pass3]
      else [])

namespace Device

variable (device : Device n m)

/-- The loop of `TAP_SaveBlock` inside of a slot. -/
def tapSlotBytes (S : DeviceSlot m) : Nat → Int → List Byte
  | 0, _ => []
  | length + 1, ptr =>
    if ptr < S.size then
      device.memory ((device.pages S.page).ram + ptr.toNat) :: tapSlotBytes S length (ptr + 1)
    else []

/-- The loop of `TAP_SaveBlock` over the slots. -/
def tapBytes : List (DeviceSlot m) → Int → Nat → List Byte
  | [], _, _ => []
  | S :: slots, start, length =>
    if S.address + S.size ≤ start then tapBytes slots start length
    else if length = 0 then []
    else
      let bytes := device.tapSlotBytes S length (start - S.address)
      bytes ++ tapBytes slots (start + bytes.length) (length - bytes.length)

end Device

/-- What `TAP_SaveBlock` appends to the file: the block of a header, and the one of the data. -/
structure TapBlocks where
  header : List Byte
  data : List Byte
  log : List Event

/-- `TAP_SaveBlock`. -/
def tapSaveBlock (device : Device n m) (type : ETapeHeaderType) (ftapname : Text)
    (start length param2 param3 : Int) : TapBlocks :=
  let length := tapLength start length
  let params := tapParameters start length param2 param3 type
  let flag : Byte := if type = .headless then BitVec.ofInt 8 params.1.2 else 0xFF
  let bytes := flag :: device.tapBytes device.slotList start length.toNat
  { header := if type = .headless then []
      else writeheader type.toByte ftapname length params.1.1 params.1.2
    data := writeword (length + 2).toNat ++ bytes ++ [parity bytes]
    log := params.2 }

/-! ### `TZX_AppendStandardBlock` -/

/-- `TZX_AppendStandardBlock`: the head of the TZX block, and the block of the tape. -/
def tzxAppendStandardBlock (buf : List Byte) (pauseAfterMs : BitVec 16) (sync : Byte) :
    List Byte × List Byte :=
  ([0x10, pauseAfterMs.setWidth 8, (pauseAfterMs >>> 8).setWidth 8],
    writeword (buf.length + 2) ++ sync :: buf ++ [buf.foldl (· ^^^ ·) sync])

/-! ### Well-formed blocks -/

/-- A block whose length counts the bytes behind it, with an even parity. -/
def IsBlock (payload block : List Byte) : Prop :=
  ∃ low high flag check, block = low :: high :: flag :: payload ++ [check] ∧
    low.toNat + 256 * high.toNat = payload.length + 2 ∧
    parity (flag :: payload ++ [check]) = 0

theorem parity_append (bytes bytes' : List Byte) :
    parity (bytes ++ bytes') = parity bytes ^^^ parity bytes' := by
  induction bytes' using List.reverseRecOn with
  | nil => simp [parity]
  | append_singleton bytes' byte ih =>
    have hlast (l : List Byte) : parity (l ++ [byte]) = parity l ^^^ byte := by simp [parity]
    rw [← List.append_assoc, hlast, ih, hlast, BitVec.xor_assoc]

/-- The checksum makes the parity even. -/
theorem parity_check (bytes : List Byte) : parity (bytes ++ [parity bytes]) = 0 := by
  have hone : parity [parity bytes] = parity bytes := BitVec.zero_xor
  rw [parity_append, hone, BitVec.xor_self]
  rfl

/-- A length is written without loss exactly if it has 16 bits. -/
theorem writeword_eq_iff (i : Nat) :
    (BitVec.ofNat 8 i).toNat + 256 * (BitVec.ofNat 8 (i / 256)).toNat = i ↔ i < 0x10000 := by
  rw [BitVec.toNat_ofNat, BitVec.toNat_ofNat]
  omega

/-- A block with its checksum is well formed as long as its length fits. -/
theorem isBlock_iff (flag : Byte) (payload : List Byte) :
    IsBlock payload (writeword (payload.length + 2) ++ flag :: payload
        ++ [parity (flag :: payload)]) ↔ payload.length ≤ 0xFFFD := by
  have hword := writeword_eq_iff (payload.length + 2)
  constructor
  · rintro ⟨low, high, flag', check, hblock, hlength, -⟩
    -- the two bytes of the length are the first ones of the block
    rw [writeword] at hblock
    injection hblock with hlow hblock
    injection hblock with hhigh hblock
    subst hlow hhigh
    have := hword.mp hlength
    omega
  · intro h
    exact ⟨_, _, flag, parity (flag :: payload), rfl, hword.mpr (by omega),
      parity_check (flag :: payload)⟩

/-- The header is well formed. -/
theorem isBlock_writeheader (flag : Byte) (fname : Text) (param1 param2 param3 : Int) :
    ∃ payload, IsBlock payload (writeheader flag fname param1 param2 param3) := by
  have hname : (headerName fname).length = 10 := by
    simp only [headerName, List.length_append, List.length_map, List.length_replicate,
      List.length_take]
    omega
  refine ⟨flag :: headerName fname ++ writeword (param1 % 0x10000).toNat
    ++ writeword (param2 % 0x10000).toNat ++ writeword (param3 % 0x10000).toNat,
    19, 0, 0, _, rfl, ?_, ?_⟩
  · simp [hname, writeword]
  · show parity (0 :: (_ ++ [parity _])) = 0
    exact parity_check _

namespace Device

variable (device : Device n m)

/-! ### The data of a block -/

/-- Inside of a slot the bytes are read one by one. -/
theorem tapSlotBytes_eq (S : DeviceSlot m) (length offset : Nat) :
    device.tapSlotBytes S length offset = ((device.content S).drop offset).take length := by
  -- by induction on the length: byte for byte up to the end of the slot
  induction length generalizing offset with
  | zero => simp [tapSlotBytes]
  | succ length ih =>
    rw [tapSlotBytes]
    by_cases hin : offset < S.size
    · have hget : (device.content S).drop offset
          = device.memory ((device.pages S.page).ram + offset)
            :: (device.content S).drop (offset + 1) := by
        rw [List.drop_eq_getElem_cons (by rwa [length_content])]
        simp [content, ramBytes]
      have hnext : (offset : Int) + 1 = (offset + 1 : Nat) := by omega
      rw [if_pos (by omega), Int.toNat_natCast, hnext, ih, hget, List.take_succ_cons]
    · rw [if_neg (by omega), List.drop_eq_nil_of_le (by rw [length_content]; omega), List.take_nil]

theorem tapBytes_zero (slots : List (DeviceSlot m)) (start : Int) :
    device.tapBytes slots start 0 = [] := by
  induction slots with
  | nil => rfl
  | cons S slots ih =>
    rw [tapBytes, ih, if_pos rfl, ite_self]

/-- The loop reads the range. -/
theorem tapBytes_eq {slots : List (DeviceSlot m)} {base : Int} (h : Follow base slots) :
    ∀ offset length : Nat, device.tapBytes slots (base + offset) length
      = Segments.read (slots.map device.content) offset length := by
  -- by induction on the slots: the range starts in the first of them, or behind it
  induction slots generalizing base with
  | nil =>
    intro offset length
    simp [tapBytes, Segments.read]
  | cons S slots ih =>
    obtain ⟨haddress, hfollow⟩ := h
    intro offset length
    rw [tapBytes, List.map_cons]
    by_cases hin : offset < S.size
    · rw [if_neg (by omega)]
      have hoffset : base + offset - S.address = offset := by omega
      by_cases hzero : length = 0
      · rw [if_pos hzero, hzero, Segments.read_zero]
      · rw [if_neg hzero, hoffset, tapSlotBytes_eq, Segments.read_cross (by rw [length_content]; omega),
          length_content]
        dsimp only
        congr 1
        rw [List.length_take, List.length_drop, length_content]
        -- the range ends in this slot, or goes on at the start of the next one
        by_cases hlast : length ≤ S.size - offset
        · rw [Nat.min_eq_left hlast, Nat.sub_self, tapBytes_zero, Nat.sub_eq_zero_of_le hlast,
            Segments.read_zero]
        · have hstart : base + offset + ((S.size - offset : Nat) : Int) = base + S.size + (0 : Nat) := by
            omega
          rw [Nat.min_eq_right (by omega), hstart]
          exact ih hfollow 0 _
    · rw [if_pos (by omega), Segments.read_skip (by rw [length_content]; omega), length_content]
      have hstart : base + S.size + ((offset - S.size : Nat) : Int) = base + offset := by omega
      rw [← hstart]
      exact ih hfollow _ _

/-- The data of `TAP_SaveBlock` are what `MemGetByte` reads. -/
theorem tapBytes_slotList (h : device.SlotLayout) {start length : Int} (hstart : 0 ≤ start)
    (hlength : 0 ≤ length) (hend : start + length ≤ 0x10000) :
    device.tapBytes device.slotList start length.toNat
      = device.mappedBytes start.toNat length.toNat := by
  have hbytes := device.tapBytes_eq h.follow start.toNat length.toNat
  rw [Int.zero_add, Int.toNat_of_nonneg hstart] at hbytes
  rw [hbytes, h.mappedBytes_eq (by omega), mapped]

end Device

/-- The data end with the memory. -/
theorem tapLength_bounds {start : Int} (length : Int) (hstart : 0 ≤ start) (hstart' : start ≤ 0xFFFF) :
    0 < tapLength start length ∧ start + tapLength start length ≤ 0x10000 := by
  simp only [tapLength]
  split_ifs <;> omega

/-! ### Blocks of the saved files -/

/-- The header, if there is one, and the data of a file are blocks, the data the requested memory. -/
def TapWellFormed (device : Device n m) (type : ETapeHeaderType) (ftapname : Text)
    (start length param2 param3 : Int) : Prop :=
  (type ≠ .headless → ∃ payload,
    IsBlock payload (tapSaveBlock device type ftapname start length param2 param3).header) ∧
  IsBlock (device.mappedBytes start.toNat (tapLength start length).toNat)
    (tapSaveBlock device type ftapname start length param2 param3).data

theorem tapWellFormed_iff {device : Device n m} (h : device.SlotLayout) (type : ETapeHeaderType)
    (ftapname : Text) {start : Int} (length param2 param3 : Int) (hstart : 0 ≤ start)
    (hstart' : start ≤ 0xFFFF) :
    TapWellFormed device type ftapname start length param2 param3
      ↔ tapLength start length ≤ 0xFFFD := by
  obtain ⟨hpos, hend⟩ := tapLength_bounds length hstart hstart'
  have hheader : type ≠ .headless → ∃ payload,
      IsBlock payload (tapSaveBlock device type ftapname start length param2 param3).header := by
    intro htype
    rw [tapSaveBlock]
    dsimp only
    rw [if_neg htype]
    exact isBlock_writeheader _ _ _ _ _
  -- the length in the block counts the flag and the checksum too
  have hwritten : (tapLength start length + 2).toNat
      = (device.mappedBytes start.toNat (tapLength start length).toNat).length + 2 := by
    rw [Device.length_mappedBytes]
    omega
  rw [TapWellFormed, and_iff_right hheader, tapSaveBlock]
  dsimp only
  rw [device.tapBytes_slotList h hstart hpos.le hend, hwritten, isBlock_iff,
    Device.length_mappedBytes]
  omega

theorem isBlock_tzxAppendStandardBlock_iff (buf : List Byte) (pauseAfterMs : BitVec 16)
    (sync : Byte) :
    IsBlock buf (tzxAppendStandardBlock buf pauseAfterMs sync).2 ↔ buf.length ≤ 0xFFFD := by
  have hcheck : buf.foldl (· ^^^ ·) sync = parity (sync :: buf) := by
    simp [parity]
  rw [tzxAppendStandardBlock, hcheck]
  exact isBlock_iff sync buf

/-- The blocks of `TAP_SaveBlock`, and the one of `TZX_AppendStandardBlock` for a range of the memory,
are well formed if and only if the data are at most 65533 bytes. -/
theorem tape_blocks_iff {device : Device n m} (h : device.SlotLayout) (type : ETapeHeaderType)
    (ftapname : Text) (start length param2 param3 : Int) (hstart : 0 ≤ start)
    (hstart' : start ≤ 0xFFFF) (startAddr buflen : Aint) (hstartAddr : 0 ≤ startAddr.toInt)
    (hbuflen : 0 ≤ buflen.toInt) (hend : startAddr.toInt + buflen.toInt ≤ 0x10000)
    (pauseAfterMs : BitVec 16) (sync : Byte) :
    (TapWellFormed device type ftapname start length param2 param3
      ↔ tapLength start length ≤ 0xFFFD) ∧
    (IsBlock (device.mappedBytes startAddr.toInt.toNat buflen.toInt.toNat)
        (tzxAppendStandardBlock (device.getContigRAM startAddr buflen) pauseAfterMs sync).2
      ↔ buflen.toInt ≤ 0xFFFD) := by
  refine ⟨tapWellFormed_iff h type ftapname length param2 param3 hstart hstart', ?_⟩
  rw [device.getContigRAM_eq h hstartAddr hbuflen hend, isBlock_tzxAppendStandardBlock_iff,
    Device.length_mappedBytes]
  omega

/-- `SAVETAP` of a program and a screen, and a headless block of a CDT. -/
theorem tape_blocks_zxSpectrum128 :
    (TapWellFormed (zxSpectrum128 0) .code "screen".toList 0x4000 0x1B00 (-1) (-1)
      ↔ tapLength 0x4000 0x1B00 ≤ 0xFFFD) ∧
    (IsBlock ((zxSpectrum128 0).mappedBytes (0x4000 : Aint).toInt.toNat (0x1B00 : Aint).toInt.toNat)
        (tzxAppendStandardBlock ((zxSpectrum128 0).getContigRAM 0x4000 0x1B00) 1000 0x16).2
      ↔ (0x1B00 : Aint).toInt ≤ 0xFFFD) :=
  tape_blocks_iff (slotLayout_zxSpectrum128 0) .code "screen".toList 0x4000 0x1B00 (-1) (-1)
    (by decide) (by decide) 0x4000 0x1B00 (by decide) (by decide) (by decide) 1000 0x16

/-- The longest block that can be asked for: its length field holds 1. -/
theorem not_tapWellFormed_zxSpectrum128 :
    ¬TapWellFormed (zxSpectrum128 0) .code "all".toList 0 0xFFFF (-1) (-1) := by
  rw [tapWellFormed_iff (slotLayout_zxSpectrum128 0) _ _ _ _ _ (by decide) (by decide)]
  decide

/-! ### All readers of the mapped memory -/

/-- The payload of a block, between its length and flag and its checksum. -/
def blockPayload (block : List Byte) : List Byte := (block.drop 3).dropLast

/-- For a range of the address space with at least one byte, the bytes of the files of `SaveRAM` and
`SaveHex`, of `getContigRAM` and of the block of `TAP_SaveBlock` are those of `MemGetByte`. -/
theorem readers_agree {device : Device n m} (h : device.SlotLayout) {start length : Aint}
    (hstart : 0 ≤ start.toInt) (hlength : 0 < length.toInt)
    (hend : start.toInt + length.toInt ≤ 0x10000) (start_adr : Aint) (type : ETapeHeaderType)
    (ftapname : Text) (param2 param3 : Int) :
    device.saveRAM start length
        = (device.mappedBytes start.toInt.toNat length.toInt.toNat, true) ∧
      hexData (device.saveHex start length start_adr).1
        = device.mappedBytes start.toInt.toNat length.toInt.toNat ∧
      device.getContigRAM start length
        = device.mappedBytes start.toInt.toNat length.toInt.toNat ∧
      blockPayload (tapSaveBlock device type ftapname start.toInt length.toInt param2 param3).data
        = device.mappedBytes start.toInt.toNat length.toInt.toNat := by
  refine ⟨device.saveRAM_eq h hstart hlength hend,
    (device.hexData_saveHex h start_adr hstart hlength hend).1,
    device.getContigRAM_eq h hstart hlength.le hend, ?_⟩
  have htap : tapLength start.toInt length.toInt = length.toInt := by
    simp only [tapLength]
    split_ifs <;> omega
  rw [tapSaveBlock]
  dsimp only
  rw [htap, device.tapBytes_slotList h hstart hlength.le hend]
  simp [blockPayload, writeword]

/-- Across the border between two slots. -/
theorem readers_agree_zxSpectrum128 :
    (zxSpectrum128 0).saveRAM 0x7FF0 0x20
        = ((zxSpectrum128 0).mappedBytes (0x7FF0 : Aint).toInt.toNat (0x20 : Aint).toInt.toNat,
          true) ∧
      hexData ((zxSpectrum128 0).saveHex 0x7FF0 0x20 (-1)).1
        = (zxSpectrum128 0).mappedBytes (0x7FF0 : Aint).toInt.toNat (0x20 : Aint).toInt.toNat ∧
      (zxSpectrum128 0).getContigRAM 0x7FF0 0x20
        = (zxSpectrum128 0).mappedBytes (0x7FF0 : Aint).toInt.toNat (0x20 : Aint).toInt.toNat ∧
      blockPayload (tapSaveBlock (zxSpectrum128 0) .code "border".toList (0x7FF0 : Aint).toInt
          (0x20 : Aint).toInt (-1) (-1)).data
        = (zxSpectrum128 0).mappedBytes (0x7FF0 : Aint).toInt.toNat (0x20 : Aint).toInt.toNat :=
  readers_agree (slotLayout_zxSpectrum128 0) (by decide) (by decide) (by decide) (-1) .code
    "border".toList (-1) (-1)

/-- An empty range at the last address: `SaveRAM` writes up to the end of the memory. -/
theorem saveRAM_empty :
    ((zxSpectrum128 0).saveRAM 0xFFFF 0).1 ≠ (zxSpectrum128 0).mappedBytes 0xFFFF 0 := by
  decide

end Sjasmplus
