import Mathlib.Data.List.TakeWhile
import Sjasmplus.Lib.Areas
import Sjasmplus.Lib.Codec
import Sjasmplus.MappedMemory

/-!
# TRD images (`STrdFile`, `STrdDisc` and `STrdHead` of `io_trd.cpp`)

An image starts with a catalogue of 128 records and the information about the disc, which are copied
between the file and the memory as they are.  The data follow in sectors of 256 bytes, 16 on a
track.

`readFromFile_writeToFile` — what is written over the start of an image is read back from there.
-/

namespace Sjasmplus

open Codec Areas

/-! ### Bytes of a file -/

/-- `fread` at a place: what the file has of the bytes. -/
def fread (file : List Byte) (pos len : Nat) : List Byte := (file.drop pos).take len

/-- `fwrite` at a place; a gap behind the end is filled with zeros. -/
def fwrite (file : List Byte) (pos : Nat) (data : List Byte) : List Byte :=
  file.take pos ++ List.replicate (pos - file.length) 0 ++ data ++ file.drop (pos + data.length)

section

variable {file data : List Byte} {pos k : Nat}

theorem length_front :
    (file.take pos ++ List.replicate (pos - file.length) (0 : Byte)).length = pos := by
  rw [List.length_append, List.length_take, List.length_replicate]
  omega

/-- The bytes that are written. -/
theorem getElem?_fwrite_of_mem (hlow : pos ≤ k) (hhigh : k < pos + data.length) :
    (fwrite file pos data)[k]? = data[k - pos]? := by
  rw [fwrite, List.getElem?_append_left (by rw [List.length_append, length_front]; omega),
    List.getElem?_append_right (by rw [length_front]; omega), length_front]

/-- The bytes that the file has at other places stay. -/
theorem getElem?_fwrite_of_not_mem (hk : k < file.length)
    (h : k < pos ∨ pos + data.length ≤ k) : (fwrite file pos data)[k]? = file[k]? := by
  rcases h with hlow | hhigh
  · rw [fwrite, List.append_assoc, List.append_assoc,
      List.getElem?_append_left (by rw [List.length_take]; omega), List.getElem?_take_of_lt hlow]
  · rw [fwrite, List.getElem?_append_right (by rw [List.length_append, length_front]; omega),
      List.length_append, length_front, List.getElem?_drop]
    congr 1
    omega

/-- The bytes of a file from `low` up to `high` are in another one, by `d` further behind. -/
def MovesBytes (low high d : Nat) (file file' : List Byte) : Prop :=
  ∀ k b, low ≤ k → k < high → file[k]? = some b → file'[k + d]? = some b

section

variable {low high d : Nat} {file file' file'' : List Byte}

theorem MovesBytes.refl : MovesBytes low high 0 file file := fun _ _ _ _ h => h

theorem MovesBytes.trans (h : MovesBytes low high d file file')
    (h' : MovesBytes (low + d) (high + d) 0 file' file'') : MovesBytes low high d file file'' :=
  fun k b hlow hhigh hk =>
    h' (k + d) b (Nat.add_le_add_right hlow d) (Nat.add_lt_add_right hhigh d) (h k b hlow hhigh hk)

theorem MovesBytes.stay_trans (h : MovesBytes low high 0 file file')
    (h' : MovesBytes low high 0 file' file'') : MovesBytes low high 0 file file'' :=
  fun k b hlow hhigh hk => h' k b hlow hhigh (h k b hlow hhigh hk)

theorem MovesBytes.mono {low' high' : Nat} (h : MovesBytes low high d file file')
    (hlow : low ≤ low') (hhigh : high' ≤ high) : MovesBytes low' high' d file file' :=
  fun k b hk hk' => h k b (hlow.trans hk) (hk'.trans_le hhigh)

end

/-- The bytes in front of those that are written, or behind them, stay. -/
theorem movesBytes_fwrite {low high : Nat} (h : high ≤ pos ∨ pos + data.length ≤ low) :
    MovesBytes low high 0 file (fwrite file pos data) := by
  intro k b hlow hhigh hk
  have hlength := (List.getElem?_eq_some_iff.mp hk).1
  rw [Nat.add_zero, getElem?_fwrite_of_not_mem hlength (by omega), hk]

/-- Bytes that are read at one place and written at another. -/
theorem movesBytes_fwrite_fread {len d : Nat} (hread : (fread file pos len).length = len) :
    MovesBytes pos (pos + len) d file (fwrite file (pos + d) (fread file pos len)) := by
  intro k b hlow hhigh hk
  rw [getElem?_fwrite_of_mem (by omega) (by omega), fread,
    List.getElem?_take_of_lt (by omega), List.getElem?_drop, ← hk]
  congr 1
  omega

/-- What is written at the start of the file is in front of the rest. -/
theorem fwrite_zero : fwrite file 0 data = data ++ file.drop data.length := by
  simp [fwrite]

end

/-! ### Records of the catalogue -/

/-- `STrdFile`. -/
structure STrdFile where
  filename : Vector Byte 8
  ext : Byte
  addressLo : Byte
  addressHi : Byte
  length : BitVec 16
  sectorLength : Byte
  startSector : Byte
  startTrack : Byte
deriving DecidableEq, Repr

/-- `STrdDisc::SECTOR_SZ`. -/
def sectorSz : Nat := 256

/-- `STrdDisc::fileOffset`. -/
def fileOffset (track sector : Nat) : Nat := track * sectorSz * 16 + sector * sectorSz

/-- The bytes of a `word` in memory. -/
def wordLE (w : BitVec 16) : List Byte := [w.setWidth 8, (w >>> 8).setWidth 8]

namespace STrdFile

variable (file : STrdFile)

/-- The first byte of the name. -/
def first : Byte := file.filename[0]

/-- The first byte of the name is zero behind the last record. -/
def inUse : Bool := file.first ≠ 0

/-- The first byte of the name is 1 in a record of a deleted file. -/
def deleted : Bool := file.first = 1

def setFirst (b : Byte) : STrdFile := { file with filename := file.filename.set 0 b }

/-- The name, with the bytes behind it that may be an extension of three letters. -/
def fullName : List Byte := file.filename.toList ++ [file.ext, file.addressLo, file.addressHi]

/-- `memcmp` finds no difference in the first bytes. -/
def sameName (other : STrdFile) (len : Nat) : Bool :=
  file.fullName.take len = other.fullName.take len

/-- The record in memory. -/
def bytes : List Byte :=
  file.fullName ++ wordLE file.length ++ [file.sectorLength, file.startSector, file.startTrack]

/-- Where the data of the file start, in sectors. -/
def start : Nat := file.startTrack.toNat * 16 + file.startSector.toNat

/-- The number of its sectors. -/
def size : Nat := file.sectorLength.toNat

/-- The place of its data in the image. -/
def pos : Nat := fileOffset file.startTrack.toNat file.startSector.toNat

end STrdFile

/-- `STrdDisc`. -/
structure STrdDisc where
  endOfRootDirectory : Byte
  unused : Vector Byte 224
  freeSector : Byte
  freeTrack : Byte
  diskType : Byte
  numOfFiles : Byte
  numOfFreeSectors : BitVec 16
  trDosId : Byte
  unused2 : Vector Byte 2
  password : Vector Byte 9
  unused3 : Byte
  numOfDeleted : Byte
  label : Vector Byte 11
deriving DecidableEq, Repr

namespace STrdDisc

variable (info : STrdDisc)

/-- `isTrdInfo`. -/
def isTrdInfo : Bool := info.trDosId = 0x10

def bytes : List Byte :=
  [info.endOfRootDirectory] ++ info.unused.toList ++
    [info.freeSector, info.freeTrack, info.diskType, info.numOfFiles] ++
    wordLE info.numOfFreeSectors ++ [info.trDosId] ++ info.unused2.toList ++
    info.password.toList ++ [info.unused3, info.numOfDeleted] ++ info.label.toList

/-- The first free sector. -/
def freeStart : Nat := info.freeTrack.toNat * 16 + info.freeSector.toNat

/-- Its place in the image. -/
def freePos : Nat := fileOffset info.freeTrack.toNat info.freeSector.toNat

end STrdDisc

/-- `NUM_OF_FILES_MAX`. -/
def numOfFilesMax : Nat := 128

/-- `STrdHead`. -/
structure STrdHead where
  catalog : List STrdFile
  info : STrdDisc
  size : catalog.length = numOfFilesMax

namespace STrdHead

variable (head : STrdHead)

def bytes : List Byte := (head.catalog.map STrdFile.bytes).flatten ++ head.info.bytes

/-- Change one record. -/
def modifyFile (i : Nat) (f : STrdFile → STrdFile) : STrdHead where
  catalog := head.catalog.modify i f
  info := head.info
  size := (List.length_modify ..).trans head.size

/-- A record becomes one of a deleted file. -/
def deleteFile (i : Nat) : STrdHead :=
  { head.modifyFile i (·.setFirst 1) with
    info := { head.info with numOfDeleted := head.info.numOfDeleted + 1 } }

/-- The records in front of the first with a zero. -/
def used : List STrdFile := head.catalog.takeWhile STrdFile.inUse

end STrdHead

/-! ### Reading the records -/

def readWordLE : Decoder Byte (BitVec 16) := do
  let low ← item
  let high ← item
  pure (high ++ low)

def STrdFile.read : Decoder Byte STrdFile := do
  let filename ← vector 8
  let ext ← item
  let addressLo ← item
  let addressHi ← item
  let length ← readWordLE
  let sectorLength ← item
  let startSector ← item
  let startTrack ← item
  pure ⟨filename, ext, addressLo, addressHi, length, sectorLength, startSector, startTrack⟩

def STrdDisc.read : Decoder Byte STrdDisc := do
  let endOfRootDirectory ← item
  let unused ← vector 224
  let freeSector ← item
  let freeTrack ← item
  let diskType ← item
  let numOfFiles ← item
  let numOfFreeSectors ← readWordLE
  let trDosId ← item
  let unused2 ← vector 2
  let password ← vector 9
  let unused3 ← item
  let numOfDeleted ← item
  let label ← vector 11
  pure ⟨endOfRootDirectory, unused, freeSector, freeTrack, diskType, numOfFiles, numOfFreeSectors,
    trDosId, unused2, password, unused3, numOfDeleted, label⟩

def STrdHead.read : Decoder Byte STrdHead := do
  let catalog ← times STrdFile.read numOfFilesMax
  let info ← STrdDisc.read
  -- `times` gives as many records as it is asked for
  if size : catalog.length = numOfFilesMax then pure ⟨catalog, info, size⟩ else failure

/-- `STrdHead::readFromFile`. -/
def STrdHead.readFromFile (file : List Byte) : Option STrdHead :=
  match STrdHead.read.run file with
  | some (head, _) => if head.info.isTrdInfo then some head else none
  | none => none

/-- `STrdHead::writeToFile`, at the start of the file. -/
def STrdHead.writeToFile (head : STrdHead) (file : List Byte) : List Byte :=
  fwrite file 0 head.bytes

/-! ### What is written is read back -/

theorem reads_readWordLE (w : BitVec 16) : Reads readWordLE (wordLE w) w := by
  have hjoin : ((w >>> 8).setWidth 8 ++ w.setWidth 8 : BitVec 16) = w := by
    ext i hi
    simp only [BitVec.getElem_append, BitVec.getElem_setWidth, BitVec.getLsbD_ushiftRight]
    split_ifs with h
    · exact BitVec.getLsbD_eq_getElem hi
    · rw [show 8 + (i - 8) = i by omega]
      exact BitVec.getLsbD_eq_getElem hi
  have h : Reads readWordLE (wordLE w) ((w >>> 8).setWidth 8 ++ w.setWidth 8 : BitVec 16) :=
    .item_bind <| .item_bind <| reads_pure _
  rwa [hjoin] at h

theorem STrdFile.reads (file : STrdFile) : Reads STrdFile.read file.bytes file := by
  rw [STrdFile.bytes, STrdFile.fullName, List.append_assoc, List.append_assoc]
  refine (reads_vector file.filename).bind ?_
  refine .item_bind <| .item_bind <| .item_bind <| (reads_readWordLE file.length).bind ?_
  exact .item_bind <| .item_bind <| .item_bind <| reads_pure _

theorem STrdDisc.reads (info : STrdDisc) : Reads STrdDisc.read info.bytes info := by
  simp only [STrdDisc.bytes, List.append_assoc]
  refine .item_bind <| (reads_vector info.unused).bind ?_
  refine .item_bind <| .item_bind <| .item_bind <| .item_bind ?_
  refine (reads_readWordLE info.numOfFreeSectors).bind <| .item_bind ?_
  refine (reads_vector info.unused2).bind <| (reads_vector info.password).bind ?_
  refine .item_bind <| .item_bind ?_
  have h := (reads_vector info.label).bind (f := fun label => pure { info with label := label })
    (reads_pure info)
  rwa [List.append_nil] at h

theorem STrdHead.reads (head : STrdHead) : Reads STrdHead.read head.bytes head := by
  have hfiles :
      List.Forall₂ (Reads STrdFile.read) (head.catalog.map STrdFile.bytes) head.catalog := by
    rw [List.forall₂_map_left_iff]
    exact List.forall₂_same.mpr fun file _ => file.reads
  have hcatalog := reads_times hfiles
  rw [head.size] at hcatalog
  have hinfo : Reads (STrdDisc.read >>= fun info =>
      if size : head.catalog.length = numOfFilesMax then pure ⟨head.catalog, info, size⟩
        else failure) head.info.bytes head := by
    simp only [dif_pos head.size]
    exact head.info.reads.bind_pure fun info => (⟨head.catalog, info, head.size⟩ : STrdHead)
  exact hcatalog.bind hinfo

/-- What is written over the start of an image is read back from there. -/
theorem readFromFile_writeToFile {head : STrdHead} (h : head.info.isTrdInfo = true)
    (file : List Byte) : STrdHead.readFromFile (head.writeToFile file) = some head := by
  rw [STrdHead.writeToFile, fwrite_zero, STrdHead.readFromFile, head.reads]
  exact if_pos h

end Sjasmplus
