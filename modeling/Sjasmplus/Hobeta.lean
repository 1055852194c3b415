import Sjasmplus.MappedMemory

/-!
# Hobeta files (`SaveHobeta` of `sjio.cpp`)

A Hobeta file has a header of 17 bytes, with the length of the data in bytes and in sectors of 256
bytes, and then the sectors.  The length is rounded up to sectors before `SaveRAM` gets it, and
`SaveRAM` stops at the end of the memory.

`hobeta_complete_iff` — the file has all the sectors of its header exactly when the last one ends in
the memory.
-/

namespace Sjasmplus

variable {n m : Nat}

/-! ### The file -/

/-- The byte that a character is stored as. -/
def charByte (c : Char) : Byte := BitVec.ofNat 8 c.toNat

/-- The text behind the last dot: `strrchr` with one more character. -/
def extension (fhobname : Text) : Option Text :=
  if '.' ∈ fhobname then some (fhobname.reverse.takeWhile (· ≠ '.')).reverse else none

/-- The first nine bytes of the header: a name of eight characters, and an extension of one. -/
def hobetaName (fhobname : Text) : List Byte :=
  let ext := if 1 < fhobname.length then (extension fhobname).filter (· ≠ []) else none
  let i := match ext with
    | some ext => fhobname.length - (ext.length + 1)
    | none => fhobname.length
  let name := (fhobname.take (min i 8)).map charByte
  name ++ List.replicate (8 - name.length) 0x20 ++ [charByte ((ext.getD []).headD ' ')]

/-- The length to save: what does not fit and what is not positive counts from the end of the RAM. -/
def hobetaLength (start length : Aint) : Aint :=
  let length := if 0x10000 < (start + length).toInt then 0 else length
  if length.toInt ≤ 0 then (0x10000 + length) - start else length

/-- The number of sectors in the header. -/
def hobetaSectors (length : Aint) : Byte :=
  let low : Byte := length.setWidth 8
  let high : Byte := (length >>> 8).setWidth 8
  if low = 0 then high else high + 1

/-- The loop of the checksum over the bytes from `i` on. -/
def hobetaChk : List Byte → Nat → Nat → Nat
  | [], _, chk => chk
  | byte :: header, i, chk => hobetaChk header (i + 1) (chk + byte.toNat * 257 + i)

/-- The first 15 bytes of the header. -/
def hobetaFields (fhobname : Text) (start length : Aint) : List Byte :=
  let name := hobetaName fhobname
  let word := if name.getD 8 0 = charByte 'B' then length else start
  name ++ [word.setWidth 8, (word >>> 8).setWidth 8, length.setWidth 8, (length >>> 8).setWidth 8, 0,
    hobetaSectors length]

/-- The header. -/
def hobetaHeader (fhobname : Text) (start length : Aint) : List Byte :=
  let fields := hobetaFields fhobname start length
  let chk := hobetaChk fields 0 0
  fields ++ [BitVec.ofNat 8 chk, BitVec.ofNat 8 (chk / 256)]

/-- `SaveHobeta`: the file and whether it was written to its end, or no file. -/
def saveHobeta (device : Device n m) (fhobname : Text) (start length : Aint) :
    Reported (Option (List Byte × Bool)) :=
  let length := hobetaLength start length
  if length.toInt ≤ 0 then (none, [errorInt "invalid length" length.toInt .pass3])
  else
    let sectors := hobetaSectors length
    let ram := device.saveRAM start (sectors.setWidth 32 * 0x100)
    (some (hobetaHeader fhobname start length ++ ram.1, ram.2), [])

/-- `dirSAVEHOB` in the last pass, with a device, behind its arguments: the file, and the messages. -/
def dirSAVEHOB (device : Device n m) (bp : Text) (fnaamh : Text) (start length : Aint) :
    Reported (Option (List Byte)) :=
  if start.toInt < 0x4000 ∨ 0xFFFF < start.toInt then
    (none, [errorInt "[SAVEHOB] startadress must be 16384..65535" start.toInt .pass3])
  else
    match saveHobeta device fnaamh start length with
    | (some (file, true), log) => (some file, log)
    | (r, log) =>
      (r.map Prod.fst, log ++ [.error "[SAVEHOB] Error writing file (Disk full?)" (some bp) .ifFirst])

/-! ### What a complete file is -/

/-- The number in a byte of the file. -/
def byteAt (file : List Byte) (i : Nat) : Nat := (file.getD i 0).toNat

/-- The number in two bytes of the file. -/
def wordAt (file : List Byte) (i : Nat) : Nat := byteAt file i + 256 * byteAt file (i + 1)

/-- A file with header and data that agree with each other and with the memory. -/
structure HobetaComplete (device : Device n m) (start length : Nat) (file : List Byte) : Prop where
  size : file.length = 17 + byteAt file 0x0e * 256
  sectors : byteAt file 0x0e = (wordAt file 0x0b + 255) / 256
  stored : wordAt file 0x0b = length
  data : (file.drop 17).take length = device.mappedBytes start length
  checksum : wordAt file 0x0f = (257 * ((file.take 15).map BitVec.toNat).sum + 105) % 0x10000

/-! ### The header -/

theorem length_hobetaName (fhobname : Text) : (hobetaName fhobname).length = 9 := by
  unfold hobetaName
  simp only [List.length_append, List.length_replicate, List.length_singleton, List.length_map,
    List.length_take]
  omega

theorem length_hobetaFields (fhobname : Text) (start length : Aint) :
    (hobetaFields fhobname start length).length = 15 := by
  simp [hobetaFields, length_hobetaName]

/-- The loop adds the numbers of the bytes and 257 times the bytes. -/
theorem hobetaChk_eq (header : List Byte) (i chk : Nat) :
    hobetaChk header i chk
      = chk + 257 * (header.map BitVec.toNat).sum + (List.range' i header.length).sum := by
  induction header generalizing i chk with
  | nil => simp [hobetaChk]
  | cons byte header ih =>
    rw [hobetaChk, ih, List.map_cons, List.sum_cons, List.length_cons, List.range'_succ,
      List.sum_cons]
    ring

section

variable (fhobname : Text) (start length : Aint) (ram : List Byte)

theorem length_hobetaHeader : (hobetaHeader fhobname start length).length = 17 := by
  simp [hobetaHeader, length_hobetaFields]

/-- What the file holds behind the name. -/
theorem drop_hobetaHeader : ∃ low high : Byte, (hobetaHeader fhobname start length ++ ram).drop 9 =
    [low, high, length.setWidth 8, (length >>> 8).setWidth 8, 0, hobetaSectors length,
      BitVec.ofNat 8 (hobetaChk (hobetaFields fhobname start length) 0 0),
      BitVec.ofNat 8 (hobetaChk (hobetaFields fhobname start length) 0 0 / 256)] ++ ram := by
  let word := if (hobetaName fhobname).getD 8 0 = charByte 'B' then length else start
  refine ⟨word.setWidth 8, (word >>> 8).setWidth 8, ?_⟩
  rw [hobetaHeader, hobetaFields, List.append_assoc, List.append_assoc,
    List.drop_left' (length_hobetaName fhobname)]
  rfl

/-- The bytes behind the name, counted from there. -/
theorem byteAt_drop (file : List Byte) (i : Nat) : byteAt file (9 + i) = byteAt (file.drop 9) i := by
  rw [byteAt, byteAt, List.getD_eq_getElem?_getD, List.getD_eq_getElem?_getD, List.getElem?_drop]

/-- The sectors in the header. -/
theorem byteAt_sectors :
    byteAt (hobetaHeader fhobname start length ++ ram) 0x0e = (hobetaSectors length).toNat := by
  obtain ⟨low, high, hdrop⟩ := drop_hobetaHeader fhobname start length ram
  rw [byteAt_drop _ 5, hdrop]
  rfl

/-- The length in the header. -/
theorem wordAt_length :
    wordAt (hobetaHeader fhobname start length ++ ram) 0x0b = length.toNat % 0x10000 := by
  obtain ⟨low, high, hdrop⟩ := drop_hobetaHeader fhobname start length ram
  have hlow : ((length.setWidth 8).toNat : Nat) = length.toNat % 256 := by simp
  have hhigh : (((length >>> 8).setWidth 8).toNat : Nat) = length.toNat / 256 % 256 := by
    simp [BitVec.toNat_ushiftRight, Nat.shiftRight_eq_div_pow]
  rw [wordAt, byteAt_drop _ 2, byteAt_drop _ 3, hdrop]
  show (length.setWidth 8).toNat + 256 * ((length >>> 8).setWidth 8).toNat = _
  rw [hlow, hhigh]
  omega

/-- The checksum in the header. -/
theorem wordAt_checksum :
    wordAt (hobetaHeader fhobname start length ++ ram) 0x0f
      = (257 * (((hobetaHeader fhobname start length ++ ram).take 15).map BitVec.toNat).sum + 105)
        % 0x10000 := by
  obtain ⟨low, high, hdrop⟩ := drop_hobetaHeader fhobname start length ram
  have htake : (hobetaHeader fhobname start length ++ ram).take 15
      = hobetaFields fhobname start length := by
    rw [hobetaHeader, List.append_assoc]
    exact List.take_left' (length_hobetaFields fhobname start length)
  -- the checksum is over the fifteen bytes of the fields
  have hchk := hobetaChk_eq (hobetaFields fhobname start length) 0 0
  rw [length_hobetaFields] at hchk
  have hsum : (List.range' 0 15).sum = 105 := by decide
  rw [htake, wordAt, byteAt_drop _ 6, byteAt_drop _ 7, hdrop]
  show (BitVec.ofNat 8 _).toNat + 256 * (BitVec.ofNat 8 _).toNat = _
  rw [BitVec.toNat_ofNat, BitVec.toNat_ofNat, hchk, hsum]
  omega

end

/-- The sectors are rounded up, in 8 bits. -/
theorem toNat_hobetaSectors (length : Aint) :
    (hobetaSectors length).toNat = (length.toNat + 255) / 256 % 256 := by
  have hlow : (length.setWidth 8).toNat = length.toNat % 256 := by simp
  have hhigh : ((length >>> 8).setWidth 8).toNat = length.toNat / 256 % 256 := by
    simp [BitVec.toNat_ushiftRight, Nat.shiftRight_eq_div_pow]
  unfold hobetaSectors
  dsimp only
  -- the low byte of the length decides whether a sector is added
  split_ifs with hzero
  · have hmod : length.toNat % 256 = 0 := by rw [← hlow, hzero]; rfl
    rw [hhigh]
    omega
  · have hmod : length.toNat % 256 ≠ 0 := fun h => hzero (BitVec.eq_of_toNat_eq (by rw [hlow, h]; rfl))
    rw [BitVec.toNat_add, hhigh]
    simp
    omega

/-! ### Complete files -/

/-- A file that is written has a header, and data for its sectors. -/
theorem dirSAVEHOB_eq_some {device : Device n m} {bp fnaamh : Text} {start length : Aint}
    {file : List Byte} {log : List Event}
    (h : dirSAVEHOB device bp fnaamh start length = (some file, log)) :
    (0x4000 ≤ start.toInt ∧ start.toInt ≤ 0xFFFF) ∧ 0 < (hobetaLength start length).toInt ∧
      file = hobetaHeader fnaamh start (hobetaLength start length) ++
        (device.saveRAM start
          ((hobetaSectors (hobetaLength start length)).setWidth 32 * 0x100)).1 := by
  unfold dirSAVEHOB saveHobeta at h
  -- a start out of the memory, and a file without bytes, are refused
  by_cases hrange : start.toInt < 0x4000 ∨ 0xFFFF < start.toInt
  · rw [if_pos hrange] at h
    cases h
  · rw [if_neg hrange] at h
    dsimp only at h
    by_cases hlength : (hobetaLength start length).toInt ≤ 0
    · rw [if_pos hlength] at h
      cases h
    · rw [if_neg hlength] at h
      refine ⟨by omega, by omega, ?_⟩
      rcases hram : device.saveRAM start
        ((hobetaSectors (hobetaLength start length)).setWidth 32 * 0x100) with ⟨bytes, ok⟩
      rw [hram] at h
      cases ok <;> exact (Option.some.inj (Prod.ext_iff.mp h).1).symm

/-- A Hobeta file is complete exactly when its last sector ends in the memory. -/
theorem hobeta_complete_iff {device : Device n m} (hdevice : device.SlotLayout)
    {bp fnaamh : Text} {start length : Aint} {file : List Byte} {log : List Event}
    (h : dirSAVEHOB device bp fnaamh start length = (some file, log)) :
    HobetaComplete device start.toNat (hobetaLength start length).toNat file ↔
      start.toNat + ((hobetaLength start length).toNat + 255) / 256 * 256 ≤ 0x10000 := by
  obtain ⟨⟨hlow, hhigh⟩, hpos, rfl⟩ := dirSAVEHOB_eq_some h
  set saved := hobetaLength start length with hsaved
  have hstart : start.toInt = start.toNat := by
    have := start.isLt
    rw [BitVec.toInt_eq_toNat_cond] at hlow hhigh ⊢
    split_ifs at hlow hhigh ⊢ <;> omega
  have hposNat : 0 < saved.toNat := by
    rw [BitVec.toInt_eq_toNat_cond] at hpos
    split_ifs at hpos <;> omega
  have hsectors := toNat_hobetaSectors saved
  -- what `SaveRAM` leaves of the sectors
  have hram : 0 < (hobetaSectors saved).toNat →
      (device.saveRAM start ((hobetaSectors saved).setWidth 32 * 0x100)).1
        = device.mappedBytes start.toNat
            (min ((hobetaSectors saved).toNat * 256) (0x10000 - start.toNat)) := by
    intro hsome
    have hlt := (hobetaSectors saved).isLt
    have hwidth : ((hobetaSectors saved).setWidth 32 * 0x100 : Aint).toNat
        = (hobetaSectors saved).toNat * 256 := by
      rw [BitVec.toNat_mul, BitVec.toNat_setWidth]
      simp
      omega
    have hint : ((hobetaSectors saved).setWidth 32 * 0x100 : Aint).toInt
        = ((hobetaSectors saved).toNat * 256 : Nat) := by
      rw [BitVec.toInt_eq_toNat_of_lt (by omega), hwidth]
    rw [device.saveRAM_eq_min hdevice (by omega) (by omega) (by omega) (by omega), hint, hstart]
    rfl
  constructor
  · intro hcomplete
    have hstored := hcomplete.stored
    have hcount := hcomplete.sectors
    have hsize := hcomplete.size
    rw [wordAt_length] at hstored hcount
    rw [byteAt_sectors] at hcount hsize
    rw [hram (by omega), List.length_append, length_hobetaHeader, Device.length_mappedBytes] at hsize
    omega
  · intro hend
    have hcount : (hobetaSectors saved).toNat = (saved.toNat + 255) / 256 := by omega
    have hdata := hram (by omega)
    rw [Nat.min_eq_left (by omega)] at hdata
    refine ⟨?_, ?_, ?_, ?_, wordAt_checksum _ _ _ _⟩
    · rw [byteAt_sectors, List.length_append, length_hobetaHeader, hdata,
        Device.length_mappedBytes]
    · rw [byteAt_sectors, wordAt_length, hcount]
      omega
    · rw [wordAt_length]
      omega
    · have hsplit : (hobetaSectors saved).toNat * 256
          = saved.toNat + ((hobetaSectors saved).toNat * 256 - saved.toNat) := by omega
      rw [List.drop_left' (length_hobetaHeader _ _ _), hdata, hsplit, Device.mappedBytes_add]
      exact List.take_left' (by rw [Device.length_mappedBytes])

/-- The last page of the memory fits. -/
theorem hobeta_complete_zxSpectrum128 :
    HobetaComplete (zxSpectrum128 0) (0xFF00 : Aint).toNat (hobetaLength 0xFF00 0).toNat
        (((dirSAVEHOB (zxSpectrum128 0) [] "test.C".toList 0xFF00 0).1).getD []) ↔
      (0xFF00 : Aint).toNat + ((hobetaLength 0xFF00 0).toNat + 255) / 256 * 256 ≤ 0x10000 :=
  hobeta_complete_iff (slotLayout_zxSpectrum128 0)
    (show dirSAVEHOB (zxSpectrum128 0) [] "test.C".toList 0xFF00 0 = (some _, []) from rfl)

/-- The last byte of the memory: the header has a sector, and the file has a byte. -/
theorem not_hobetaComplete_zxSpectrum128 :
    ¬HobetaComplete (zxSpectrum128 0) 0xFFFF 1
      (((dirSAVEHOB (zxSpectrum128 0) [] "test.C".toList 0xFFFF 1).1).getD []) := by
  intro h
  have hsize := h.size
  revert hsize
  decide

end Sjasmplus
