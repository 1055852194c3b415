import Sjasmplus.Lib.Codec
import Sjasmplus.Lib.Crc
import Sjasmplus.Tape

/-!
# Files on a CDT tape (`CDTUtil` of `io_cpc.cpp`, `TZX_AppendTurboBlock` of `io_tzx.cpp`)

A file is split into blocks of up to 2048 bytes, and each is written as a header and as data.
Either of them is a turbo block of the tape, with its bytes in chunks of 256 that are filled up with
zeros and have a checksum behind them.  All functions append to the tape; the definitions give what
they append.

`readTape` reads such blocks and rejects anything else: a wrong checksum, other filling, a length
that does not fit.

`writeTapeFile_decodable` — what `writeTapeFile` writes is read back as blocks that are the file.
-/

namespace Sjasmplus

open Codec

/-! ### Turbo blocks -/

/-- `STZXTurboBlock`. -/
structure STZXTurboBlock where
  pilotPulseLen : BitVec 16
  firstSyncLen : BitVec 16
  secondSyncLen : BitVec 16
  zeroBitLen : BitVec 16
  oneBitLen : BitVec 16
  pilotToneLen : BitVec 16
  lastByteUsedBits : Byte
  pauseAfterMs : BitVec 16
deriving DecidableEq, Repr

/-- `TZXBlockId::Turbo`. -/
def turboBlockId : Byte := 0x11

/-- `TZX_AppendTurboBlock`. -/
def tzxTurboBlock (buf : List Byte) (turbo : STZXTurboBlock) : List Byte :=
  [turboBlockId] ++
  writeword turbo.pilotPulseLen.toNat ++
  writeword turbo.firstSyncLen.toNat ++
  writeword turbo.secondSyncLen.toNat ++
  writeword turbo.zeroBitLen.toNat ++
  writeword turbo.oneBitLen.toNat ++
  writeword turbo.pilotToneLen.toNat ++
  [turbo.lastByteUsedBits] ++
  writeword turbo.pauseAfterMs.toNat ++
  writeword buf.length ++ [BitVec.ofNat 8 (buf.length / 0x10000)] ++
  buf

/-! ### Chunks -/

/-- `crcupdate`. -/
def crcupdate (c : BitVec 16) (b : Byte) : BitVec 32 :=
  (fun aux : BitVec 32 => if aux &&& 0x8000 ≠ 0 then aux <<< 1 ^^^ 4129 else aux <<< 1)^[8]
    (c.setWidth 32 ^^^ b.setWidth 32 <<< 8)

/-- The checksum of a chunk, before it is inverted. -/
def chunkCheck (chunk : List Byte) : BitVec 32 :=
  chunk.foldl (fun check b => crcupdate (check.setWidth 16) b) 0xFFFF

/-- The next 256 bytes, filled up with zeros. -/
def nextChunk (rptr : List Byte) : List Byte :=
  if rptr.length < 256 then rptr ++ List.replicate (256 - rptr.length) 0 else rptr.take 256

/-- A chunk with its checksum. -/
def checkedChunk (chunk : List Byte) : List Byte :=
  let check := chunkCheck chunk ^^^ 0xFFFF
  chunk ++ [(check >>> 8).setWidth 8, check.setWidth 8]

/-- The loop of `writeChunkedData`. -/
def writeChunks : Nat → List Byte → List Byte
  | 0, _ => []
  | i + 1, rptr => checkedChunk (nextChunk rptr) ++ writeChunks i (rptr.drop 256)

/-- The timing of the blocks. -/
def cdtTurbo (pauseAfter : BitVec 16) : STZXTurboBlock where
  pilotPulseLen := 0x091A
  firstSyncLen := 0x048D
  secondSyncLen := 0x048D
  zeroBitLen := 0x048D
  oneBitLen := 0x091A
  pilotToneLen := 0x1000
  lastByteUsedBits := 0x08
  pauseAfterMs := pauseAfter

/-- `writeChunkedData`. -/
def writeChunkedData (buf : List Byte) (pauseAfter : BitVec 16) (sync : Byte) : List Byte :=
  let chunkCount := (buf.length + 255) / 256
  tzxTurboBlock ([sync] ++ writeChunks chunkCount buf ++ List.replicate 4 0xFF)
    (cdtTurbo pauseAfter)

/-! ### Files -/

/-- `BlockTypeHeader`. -/
def blockTypeHeader : Byte := 0x2C

/-- `BlockTypeData`. -/
def blockTypeData : Byte := 0x16

/-- What the blocks of a file have in common. -/
structure TapeFile where
  tfname : List Byte
  fileType : Byte
  buflen : Nat
  startaddr : BitVec 16
  pause : BitVec 16

/-- The 64 bytes of `hbuf`. -/
def TapeFile.hbuf (file : TapeFile) (block : Byte) (memloc : BitVec 16) (dlen : Nat) (last : Byte) :
    List Byte :=
  let name := file.tfname.take 16
  (name ++ List.replicate (16 - name.length) 0) ++
  [block] ++ [last] ++ [file.fileType] ++
  writeword dlen ++
  writeword memloc.toNat ++
  [if block = 1 then 0xFF else 0x00] ++
  writeword file.buflen ++
  writeword file.startaddr.toNat ++
  List.replicate 36 0

/-- The loop of `writeTapeFile`. -/
def TapeFile.writeBlocks (file : TapeFile) (block : Byte) (memloc : BitVec 16) (rptr : List Byte) :
    List Byte :=
  if rptr = [] then []
  else
    let dlen := if 2048 < rptr.length then 2048 else rptr.length
    let last : Byte := if 2048 < rptr.length then 0x00 else 0xFF
    writeChunkedData (file.hbuf block memloc dlen last) 10 blockTypeHeader ++
      writeChunkedData (rptr.take dlen) file.pause blockTypeData ++
      file.writeBlocks (block + 1) (memloc + BitVec.ofNat 16 dlen) (rptr.drop dlen)
termination_by rptr.length
decreasing_by
  have := List.length_pos_iff.mpr ‹_›
  rw [List.length_drop]
  split <;> omega

/-- `writeTapeFile`. -/
def writeTapeFile (tfname : List Byte) (fileType : Byte) (buf : List Byte)
    (memaddr startaddr pause : BitVec 16) : List Byte :=
  TapeFile.writeBlocks ⟨tfname, fileType, buf.length, startaddr, pause⟩ 1 memaddr buf

/-! ### Reading a tape -/

/-- A number of two bytes, the low one first. -/
def readWord : Decoder Byte Nat := do
  let low ← item
  let high ← item
  pure (low.toNat + 256 * high.toNat)

/-- The bytes of a turbo block, with its timing left out. -/
def readTurboBlock : Decoder Byte (List Byte) := do
  let id ← item
  require (id = turboBlockId)
  let _ ← times readWord 6
  let _ ← item
  let _ ← readWord
  let low ← readWord
  let high ← item
  exactly (low + 0x10000 * high.toNat)

/-- The register of the CRC with the polynomial `0x1021` and the initial value `0xFFFF`. -/
def crc16 (bytes : List Byte) : BitVec 16 := Crc.feedForward 0x1021 0xFFFF bytes

/-- A chunk: its checksum is inverted. -/
def readChunk : Decoder Byte (List Byte) := do
  let chunk ← exactly 256
  let high ← item
  let low ← item
  require (high ++ low = ~~~crc16 chunk)
  pure chunk

/-- What is in a turbo block with `len` bytes in chunks. -/
def readChunks (sync : Byte) (len : Nat) : Decoder Byte (List Byte) := do
  let first ← item
  require (first = sync)
  let chunks ← times readChunk ((len + 255) / 256)
  let trailer ← exactly 4
  require (trailer = List.replicate 4 0xFF)
  require (∀ b ∈ chunks.flatten.drop len, b = 0)
  pure (chunks.flatten.take len)

/-- The fields of a header, as the comment in `writeTapeFile` lists them. -/
structure TapeHeader where
  fileName : List Byte
  blockNumber : Byte
  lastBlock : Byte
  fileType : Byte
  dataLength : Nat
  dataLocation : Nat
  firstBlock : Byte
  logicalLength : Nat
  entryAddress : Nat
deriving DecidableEq, Repr

/-- A header. -/
def readHeader : Decoder Byte TapeHeader := do
  let fileName ← exactly 16
  let blockNumber ← item
  let lastBlock ← item
  let fileType ← item
  let dataLength ← readWord
  let dataLocation ← readWord
  let firstBlock ← item
  let logicalLength ← readWord
  let entryAddress ← readWord
  let unused ← exactly 36
  require (unused = List.replicate 36 0)
  pure ⟨fileName, blockNumber, lastBlock, fileType, dataLength, dataLocation, firstBlock,
    logicalLength, entryAddress⟩

/-- A header and the data it announces. -/
structure TapeBlock where
  header : TapeHeader
  data : List Byte
deriving DecidableEq, Repr

/-- A header and its data. -/
def readBlock : Decoder Byte TapeBlock := do
  let header ← within (within readTurboBlock (readChunks blockTypeHeader 64)) readHeader
  let data ← within readTurboBlock (readChunks blockTypeData header.dataLength)
  pure ⟨header, data⟩

/-- All blocks of a tape. -/
def readTape (tape : List Byte) : Option (List TapeBlock) := readAll readBlock tape

/-! ### Turbo blocks are read back -/

theorem reads_readWord {k : Nat} (h : k < 0x10000) : Reads readWord (writeword k) k := by
  have hval : (BitVec.ofNat 8 k).toNat + 256 * (BitVec.ofNat 8 (k / 256)).toNat = k := by
    rw [BitVec.toNat_ofNat, BitVec.toNat_ofNat]
    omega
  have hread : Reads readWord ([BitVec.ofNat 8 k] ++ [BitVec.ofNat 8 (k / 256)])
      ((BitVec.ofNat 8 k).toNat + 256 * (BitVec.ofNat 8 (k / 256)).toNat) :=
    (reads_item _).bind ((reads_item _).bind_pure fun high : Byte => _ + 256 * high.toNat)
  rw [hval] at hread
  exact hread

theorem reads_readWord_toNat (word : BitVec 16) :
    Reads readWord (writeword word.toNat) word.toNat :=
  reads_readWord word.isLt

theorem reads_readTurboBlock (buf : List Byte) (turbo : STZXTurboBlock)
    (h : buf.length < 0x1000000) : Reads readTurboBlock (tzxTurboBlock buf turbo) buf := by
  have hwords : Reads (times readWord 6) (List.flatten [writeword turbo.pilotPulseLen.toNat,
      writeword turbo.firstSyncLen.toNat, writeword turbo.secondSyncLen.toNat,
      writeword turbo.zeroBitLen.toNat, writeword turbo.oneBitLen.toNat,
      writeword turbo.pilotToneLen.toNat]) [turbo.pilotPulseLen.toNat, turbo.firstSyncLen.toNat,
      turbo.secondSyncLen.toNat, turbo.zeroBitLen.toNat, turbo.oneBitLen.toNat,
      turbo.pilotToneLen.toNat] := by
    refine reads_times (show List.Forall₂ _ _ [_, _, _, _, _, _] from ?_)
    simp only [List.forall₂_cons, reads_readWord_toNat, List.Forall₂.nil, and_self]
  have hlow : Reads readWord (writeword buf.length) (buf.length % 0x10000) := by
    have hword : writeword buf.length = writeword (buf.length % 0x10000) := by
      unfold writeword
      congr 1
      · exact BitVec.eq_of_toNat_eq (by simp)
      · congr 1
        apply BitVec.eq_of_toNat_eq
        rw [BitVec.toNat_ofNat, BitVec.toNat_ofNat]
        omega
    rw [hword]
    exact reads_readWord (Nat.mod_lt _ (by decide))
  have hlength : buf.length
      = buf.length % 0x10000 + 0x10000 * (BitVec.ofNat 8 (buf.length / 0x10000)).toNat := by
    rw [BitVec.toNat_ofNat]
    omega
  unfold tzxTurboBlock
  simp only [List.append_assoc]
  exact (reads_item _).bind (Reads.require_bind rfl (hwords.bind ((reads_item _).bind
    ((reads_readWord_toNat _).bind (hlow.bind ((reads_item _).bind (reads_exactly hlength)))))))

/-! ### Chunks are read back -/

theorem crcupdate_eq (c : BitVec 16) (b : Byte) :
    (crcupdate c b).setWidth 16 = Crc.feedByteForward 0x1021 c b := by
  have hstep :
      (fun aux : BitVec 32 => if aux &&& 0x8000 ≠ 0 then aux <<< 1 ^^^ 4129 else aux <<< 1)
        = Crc.wideStep (0x1021 : BitVec 16) := by
    funext aux
    have hbit : aux &&& 0x8000 ≠ 0 ↔ aux.getLsbD 15 = true := by
      rw [show (0x8000 : BitVec 32) = BitVec.twoPow 32 15 from rfl, BitVec.and_twoPow]
      cases aux.getLsbD 15
      · simp
      · simp
        decide
    unfold Crc.wideStep
    simp only [hbit]
    rfl
  have hin : (c.setWidth 32 ^^^ b.setWidth 32 <<< 8).setWidth 16
      = c ^^^ b.setWidth 16 <<< (16 - 8) := by
    rw [BitVec.setWidth_xor, BitVec.setWidth_setWidth_of_le _ (by decide), BitVec.setWidth_eq,
      BitVec.setWidth_shiftLeft_of_le (by decide), BitVec.setWidth_setWidth_of_le _ (by decide)]
  rw [crcupdate, hstep, Crc.setWidth_wideSteps _ (by decide), hin]
  rfl

theorem chunkCheck_eq (chunk : List Byte) : (chunkCheck chunk).setWidth 16 = crc16 chunk := by
  have hfold : ∀ check : BitVec 32,
      (chunk.foldl (fun check b => crcupdate (check.setWidth 16) b) check).setWidth 16
        = Crc.feedForward 0x1021 (check.setWidth 16) chunk := by
    induction chunk with
    | nil => exact fun _ => rfl
    | cons b chunk ih =>
      intro check
      rw [List.foldl_cons, ih, crcupdate_eq]
      rfl
  exact hfold 0xFFFF

/-- The bytes in which a checksum is written. -/
theorem high_append_low (check : BitVec 32) :
    (check >>> 8).setWidth 8 ++ check.setWidth 8 = check.setWidth 16 := by
  apply BitVec.eq_of_getLsbD_eq
  intro i hi
  rw [BitVec.getLsbD_append, BitVec.getLsbD_setWidth, BitVec.getLsbD_setWidth,
    BitVec.getLsbD_setWidth, BitVec.getLsbD_ushiftRight]
  by_cases hlow : i < 8
  · simp [hlow, hi]
  · have hindex : 8 + (i - 8) = i := by omega
    simp [hlow, hi, hindex]
    omega

/-- The two bytes behind a chunk are the inverted checksum. -/
theorem reads_readChunk {chunk : List Byte} (h : chunk.length = 256) :
    Reads readChunk (checkedChunk chunk) chunk := by
  have hcheck : ((chunkCheck chunk ^^^ 0xFFFF) >>> 8).setWidth 8
      ++ (chunkCheck chunk ^^^ 0xFFFF).setWidth 8 = ~~~crc16 chunk := by
    rw [high_append_low, BitVec.setWidth_xor, chunkCheck_eq, BitVec.not_def]
    exact BitVec.xor_comm ..
  exact (reads_exactly h).bind ((reads_item _).bind ((reads_item _).bind
    (Reads.require_bind hcheck (reads_pure chunk))))

/-- The chunks that are written. -/
def chunksOf : Nat → List Byte → List (List Byte)
  | 0, _ => []
  | i + 1, rptr => nextChunk rptr :: chunksOf i (rptr.drop 256)

theorem length_nextChunk (rptr : List Byte) : (nextChunk rptr).length = 256 := by
  unfold nextChunk
  split_ifs with h
  · rw [List.length_append, List.length_replicate]
    omega
  · rw [List.length_take]
    omega

theorem length_chunksOf (i : Nat) (rptr : List Byte) : (chunksOf i rptr).length = i := by
  induction i generalizing rptr with
  | zero => rfl
  | succ i ih => rw [chunksOf, List.length_cons, ih]

theorem writeChunks_eq_flatten (i : Nat) (rptr : List Byte) :
    writeChunks i rptr = ((chunksOf i rptr).map checkedChunk).flatten := by
  induction i generalizing rptr with
  | zero => rfl
  | succ i ih => rw [writeChunks, chunksOf, List.map_cons, List.flatten_cons, ih]

theorem length_writeChunks (i : Nat) (rptr : List Byte) :
    (writeChunks i rptr).length = 258 * i := by
  induction i generalizing rptr with
  | zero => rfl
  | succ i ih =>
    have hchunk : (checkedChunk (nextChunk rptr)).length = 258 := by
      rw [checkedChunk, List.length_append, length_nextChunk]
      rfl
    rw [writeChunks, List.length_append, ih, hchunk]
    omega

theorem reads_chunksOf (i : Nat) (rptr : List Byte) :
    List.Forall₂ (Reads readChunk) ((chunksOf i rptr).map checkedChunk) (chunksOf i rptr) := by
  induction i generalizing rptr with
  | zero => exact List.Forall₂.nil
  | succ i ih => exact List.Forall₂.cons (reads_readChunk (length_nextChunk rptr)) (ih _)

/-- Enough chunks hold the bytes and zeros. -/
theorem flatten_chunksOf {i : Nat} {rptr : List Byte} (h : rptr.length ≤ 256 * i) :
    (chunksOf i rptr).flatten = rptr ++ List.replicate (256 * i - rptr.length) 0 := by
  -- by induction on the number of chunks
  induction i generalizing rptr with
  | zero =>
    obtain rfl := List.eq_nil_of_length_eq_zero (Nat.le_zero.mp h)
    rfl
  | succ i ih =>
    have hdrop : (rptr.drop 256).length = rptr.length - 256 := List.length_drop ..
    rw [chunksOf, List.flatten_cons, ih (by omega), hdrop, nextChunk]
    have hfill : rptr.length < 256 →
        256 - rptr.length + (256 * i - (rptr.length - 256)) = 256 * (i + 1) - rptr.length := by omega
    have hlong : ¬rptr.length < 256 →
        256 * i - (rptr.length - 256) = 256 * (i + 1) - rptr.length := by omega
    split_ifs with hshort
    · -- the last bytes; the chunks behind are zeros
      rw [List.drop_eq_nil_of_le (by omega), List.nil_append, List.append_assoc,
        List.replicate_append_replicate, hfill hshort]
    · rw [← List.append_assoc, List.take_append_drop, hlong hshort]

theorem reads_writeChunkedData (buf : List Byte) (pauseAfter : BitVec 16) (sync : Byte)
    (h : buf.length < 0x10000) :
    Reads (within readTurboBlock (readChunks sync buf.length)) (writeChunkedData buf pauseAfter sync)
      buf := by
  set count := (buf.length + 255) / 256 with hcount
  -- the chunks hold the data, and zeros up to the end of the last one
  have hchunks : (chunksOf count buf).flatten
      = buf ++ List.replicate (256 * count - buf.length) 0 :=
    flatten_chunksOf (by omega)
  have htimes : Reads (times readChunk count) (writeChunks count buf) (chunksOf count buf) := by
    have hread := reads_times (reads_chunksOf count buf)
    rw [length_chunksOf, ← writeChunks_eq_flatten] at hread
    exact hread
  have hzero : ∀ b ∈ (chunksOf count buf).flatten.drop buf.length, b = 0 := by
    rw [hchunks, List.drop_left]
    exact fun b hmem => List.eq_of_mem_replicate hmem
  have htake : (chunksOf count buf).flatten.take buf.length = buf := by
    rw [hchunks, List.take_left]
  -- behind the synchronisation byte come the chunks, and four bytes behind them
  have hinner : Reads (readChunks sync buf.length)
      ([sync] ++ (writeChunks count buf ++ (List.replicate 4 0xFF ++ []))) buf := by
    refine (reads_item _).bind (Reads.require_bind rfl (htimes.bind
      ((reads_exactly List.length_replicate).bind (Reads.require_bind rfl
        (Reads.require_bind hzero ?_)))))
    rw [htake]
    exact reads_pure buf
  rw [List.append_nil, ← List.append_assoc] at hinner
  refine reads_within (reads_readTurboBlock _ _ ?_) hinner
  rw [List.length_append, List.length_append, length_writeChunks, List.length_replicate,
    List.length_singleton]
  omega

/-! ### Blocks are read back -/

namespace TapeFile

variable (file : TapeFile)

/-- The name in the header: 16 bytes, filled up with zeros. -/
def paddedName : List Byte :=
  file.tfname.take 16 ++ List.replicate (16 - (file.tfname.take 16).length) 0

/-- The header that is read back. -/
def header (block : Byte) (memloc : BitVec 16) (dlen : Nat) (last : Byte) : TapeHeader where
  fileName := file.paddedName
  blockNumber := block
  lastBlock := last
  fileType := file.fileType
  dataLength := dlen
  dataLocation := memloc.toNat
  firstBlock := if block = 1 then 0xFF else 0x00
  logicalLength := file.buflen
  entryAddress := file.startaddr.toNat

theorem length_paddedName : file.paddedName.length = 16 := by
  rw [paddedName, List.length_append, List.length_replicate, List.length_take]
  omega

theorem length_hbuf (block : Byte) (memloc : BitVec 16) (dlen : Nat) (last : Byte) :
    (file.hbuf block memloc dlen last).length = 64 := by
  have hname := file.length_paddedName
  unfold paddedName at hname
  simp only [hbuf, List.length_append, List.length_replicate, List.length_singleton] at hname ⊢
  rw [hname]
  rfl

theorem reads_hbuf (block : Byte) (memloc : BitVec 16) {dlen : Nat} (last : Byte)
    (hfile : file.buflen < 0x10000) (hdlen : dlen < 0x10000) :
    Reads readHeader (file.hbuf block memloc dlen last) (file.header block memloc dlen last) := by
  unfold hbuf
  simp only [List.append_assoc]
  rw [← List.append_assoc, ← List.append_nil (List.replicate 36 0)]
  exact (reads_exactly file.length_paddedName).bind ((reads_item _).bind ((reads_item _).bind
    ((reads_item _).bind ((reads_readWord hdlen).bind ((reads_readWord_toNat _).bind
    ((reads_item _).bind ((reads_readWord hfile).bind ((reads_readWord_toNat _).bind
    ((reads_exactly List.length_replicate).bind (Reads.require_bind rfl (reads_pure _)))))))))))

/-- The two turbo blocks for a part of a file. -/
theorem reads_readBlock (block : Byte) (memloc : BitVec 16) (last : Byte) (data : List Byte)
    (hfile : file.buflen < 0x10000) (hdata : data.length < 0x10000) :
    Reads readBlock
      (writeChunkedData (file.hbuf block memloc data.length last) 10 blockTypeHeader ++
        writeChunkedData data file.pause blockTypeData)
      ⟨file.header block memloc data.length last, data⟩ := by
  have hlength := file.length_hbuf block memloc data.length last
  have hhbuf := reads_writeChunkedData (file.hbuf block memloc data.length last) 10 blockTypeHeader
    (by omega)
  rw [hlength] at hhbuf
  -- the header says how many bytes the block of the data has
  have hbody : Reads
      (within readTurboBlock
        (readChunks blockTypeData (file.header block memloc data.length last).dataLength))
      (writeChunkedData data file.pause blockTypeData) data :=
    reads_writeChunkedData data file.pause blockTypeData hdata
  exact (reads_within hhbuf (file.reads_hbuf block memloc last hfile hdata)).bind
    (hbody.bind_pure (TapeBlock.mk _))

/-! ### Files are read back -/

/-- The blocks from number `block` on are the rest `rptr` of the file, which belongs to the memory
from `memloc` on. -/
structure Holds (block : Nat) (memloc : BitVec 16) (rptr : List Byte) (blocks : List TapeBlock) :
    Prop where
  data : blocks.flatMap TapeBlock.data = rptr
  number : ∀ i (h : i < blocks.length), blocks[i].header.blockNumber.toNat = block + i
  first : ∀ i (h : i < blocks.length), blocks[i].header.firstBlock ≠ 0 ↔ block + i = 1
  last : ∀ i (h : i < blocks.length), blocks[i].header.lastBlock ≠ 0 ↔ i + 1 = blocks.length
  location : ∀ i (h : i < blocks.length), blocks[i].header.dataLocation
    = (memloc.toNat + ((blocks.take i).flatMap TapeBlock.data).length) % 0x10000
  dataLength : ∀ b ∈ blocks, b.header.dataLength = b.data.length ∧ b.data.length ≤ 2048
  fileFields : ∀ b ∈ blocks, b.header.fileName = file.paddedName ∧
    b.header.fileType = file.fileType ∧ b.header.logicalLength = file.buflen ∧
    b.header.entryAddress = file.startaddr.toNat

variable {file}

theorem Holds.nil (block : Nat) (memloc : BitVec 16) : file.Holds block memloc [] [] where
  data := rfl
  number := nofun
  first := nofun
  last := nofun
  location := nofun
  dataLength := nofun
  fileFields := nofun

/-- One more block in front. -/
theorem Holds.cons {block : Nat} {memloc : BitVec 16} {data rest : List Byte}
    {blocks : List TapeBlock} {last : Byte} (hblock : block < 256) (hdata : data.length ≤ 2048)
    (hlast : last ≠ 0 ↔ blocks = [])
    (h : file.Holds (block + 1) (memloc + BitVec.ofNat 16 data.length) rest blocks) :
    file.Holds block memloc (data ++ rest)
      (⟨file.header (BitVec.ofNat 8 block) memloc data.length last, data⟩ :: blocks) where
  data := by rw [List.flatMap_cons, h.data]
  number := by
    rintro (_ | i) hi
    · exact Nat.mod_eq_of_lt hblock
    · rw [List.getElem_cons_succ, h.number i (Nat.lt_of_succ_lt_succ hi)]
      omega
  first := by
    rintro (_ | i) hi
    · have hone : (BitVec.ofNat 8 block : Byte) = 1 ↔ block = 1 := by
        rw [← BitVec.toNat_inj, BitVec.toNat_ofNat, Nat.mod_eq_of_lt hblock]
        rfl
      show (if (BitVec.ofNat 8 block : Byte) = 1 then (0xFF : Byte) else 0x00) ≠ 0 ↔ block + 0 = 1
      rw [Nat.add_zero, ← hone]
      split_ifs with h1
      · exact iff_of_true (by decide) h1
      · exact iff_of_false (by decide) h1
    · rw [List.getElem_cons_succ, h.first i (Nat.lt_of_succ_lt_succ hi)]
      omega
  last := by
    rintro (_ | i) hi
    · rw [List.length_cons, Nat.zero_add]
      refine hlast.trans ?_
      rw [← List.length_eq_zero_iff]
      omega
    · rw [List.getElem_cons_succ, h.last i (Nat.lt_of_succ_lt_succ hi), List.length_cons]
      omega
  location := by
    rintro (_ | i) hi
    · exact (Nat.mod_eq_of_lt memloc.isLt).symm
    · rw [List.getElem_cons_succ, h.location i (Nat.lt_of_succ_lt_succ hi), List.take_succ_cons,
        List.flatMap_cons, List.length_append, BitVec.toNat_add, BitVec.toNat_ofNat]
      dsimp only
      omega
  dataLength := List.forall_mem_cons.mpr ⟨⟨rfl, hdata⟩, h.dataLength⟩
  fileFields := List.forall_mem_cons.mpr ⟨⟨rfl, rfl, rfl, rfl⟩, h.fileFields⟩

theorem Holds.eq_nil_iff {block : Nat} {memloc : BitVec 16} {rptr : List Byte}
    {blocks : List TapeBlock} (h : file.Holds block memloc rptr blocks)
    (hsome : ∀ b ∈ blocks, b.data ≠ []) : blocks = [] ↔ rptr = [] := by
  constructor
  · rintro rfl
    exact h.data.symm
  · rintro rfl
    refine List.eq_nil_iff_forall_not_mem.mpr fun b hmem => hsome b hmem ?_
    exact List.flatMap_eq_nil_iff.mp h.data b hmem

/-- The loop writes parts that are read back as the blocks of the file. -/
theorem exists_holds_writeBlocks (hfile : file.buflen < 0x10000) (block : Nat)
    (memloc : BitVec 16) (rptr : List Byte) (hcount : block + (rptr.length + 2047) / 2048 ≤ 256)
    (hrptr : rptr.length < 0x10000) :
    ∃ parts blocks, file.writeBlocks (BitVec.ofNat 8 block) memloc rptr = parts.flatten ∧
      List.Forall₂ (Reads readBlock) parts blocks ∧ (∀ part ∈ parts, part ≠ []) ∧
      (∀ b ∈ blocks, b.data ≠ []) ∧ file.Holds block memloc rptr blocks := by
  -- by induction on what is left of the file: every turn takes a part of it
  induction hn : rptr.length using Nat.strong_induction_on generalizing block memloc rptr with
  | h n ih =>
    subst hn
    rw [writeBlocks]
    by_cases hempty : rptr = []
    · subst hempty
      exact ⟨[], [], by rw [if_pos rfl]; rfl, .nil, nofun, nofun, .nil block memloc⟩
    · have hpos := List.length_pos_iff.mpr hempty
      rw [if_neg hempty]
      set dlen := if 2048 < rptr.length then 2048 else rptr.length with hdlen
      set last : Byte := if 2048 < rptr.length then 0x00 else 0xFF with hlast
      have htake : (rptr.take dlen).length = dlen := by
        rw [List.length_take, hdlen]
        split_ifs <;> omega
      have hdrop : (rptr.drop dlen).length = rptr.length - dlen := List.length_drop ..
      have hbounds : 0 < dlen ∧ dlen ≤ 2048 ∧
          (dlen = 2048 ∧ dlen ≤ rptr.length ∨ dlen = rptr.length) := by
        rw [hdlen]
        split_ifs <;> omega
      obtain ⟨parts, blocks, hwrite, hreads, hparts, hsome, hholds⟩ :=
        ih _ (by omega) (block + 1) (memloc + BitVec.ofNat 16 dlen) (rptr.drop dlen)
          (by omega) (by omega) rfl
      have hread := file.reads_readBlock (BitVec.ofNat 8 block) memloc last (rptr.take dlen)
        hfile (by omega)
      -- the flag of the last block is set when no byte is left
      have hlastBlock : last ≠ 0 ↔ blocks = [] := by
        rw [hholds.eq_nil_iff hsome, ← List.length_eq_zero_iff, hdrop, hlast, hdlen]
        split_ifs with hmore
        · exact iff_of_false (by decide) (by omega)
        · exact iff_of_true (by decide) (by omega)
      have hrest : file.Holds (block + 1) (memloc + BitVec.ofNat 16 (rptr.take dlen).length)
          (rptr.drop dlen) blocks := by
        rw [htake]
        exact hholds
      have hcons := Holds.cons (by omega) (by omega) hlastBlock hrest
      rw [htake, List.take_append_drop] at hcons
      rw [htake] at hread
      refine ⟨_ :: parts, _ :: blocks, ?_, .cons hread hreads, ?_, ?_, hcons⟩
      · rw [List.flatten_cons, ← hwrite, BitVec.ofNat_add]
        rfl
      · exact List.forall_mem_cons.mpr ⟨List.cons_ne_nil _ _, hparts⟩
      · have hpart : 0 < (rptr.take dlen).length := by omega
        exact List.forall_mem_cons.mpr ⟨List.length_pos_iff.mp hpart, hsome⟩

end TapeFile

/-- The lengths in the headers add up to the file. -/
theorem TapeFile.Holds.sum_dataLength {file : TapeFile} {block : Nat} {memloc : BitVec 16}
    {rptr : List Byte} {blocks : List TapeBlock} (h : file.Holds block memloc rptr blocks) :
    (blocks.map fun b => b.header.dataLength).sum = rptr.length := by
  have hlengths : blocks.map (fun b => b.header.dataLength) = blocks.map fun b => b.data.length :=
    List.map_congr_left fun b hmem => (h.dataLength b hmem).1
  rw [hlengths, ← h.data, List.length_flatMap]

/-- What is written for a file of any length that fits into 16 bits is read back: the data of the
blocks is the file, and their headers say which part of it each block is. -/
theorem writeTapeFile_decodable (tfname : List Byte) (fileType : Byte) (buf : List Byte)
    (memaddr startaddr pause : BitVec 16) (hlength : buf.length ≤ 0xFFFF) :
    ∃ blocks, readTape (writeTapeFile tfname fileType buf memaddr startaddr pause) = some blocks ∧
      TapeFile.Holds ⟨tfname, fileType, buf.length, startaddr, pause⟩ 1 memaddr buf blocks ∧
      (blocks.map fun b => b.header.dataLength).sum = buf.length := by
  obtain ⟨parts, blocks, hwrite, hreads, hparts, -, hholds⟩ :=
    TapeFile.exists_holds_writeBlocks
      (show TapeFile.buflen ⟨tfname, fileType, buf.length, startaddr, pause⟩ < 0x10000 by
        exact Nat.lt_succ_of_le hlength)
      1 memaddr buf (by omega) (Nat.lt_succ_of_le hlength)
  refine ⟨blocks, ?_, hholds, hholds.sum_dataLength⟩
  rw [writeTapeFile, readTape, show (1 : Byte) = BitVec.ofNat 8 1 from rfl, hwrite]
  exact readAll_eq_some hreads hparts

/-- One byte more than two blocks hold. -/
theorem writeTapeFile_decodable_4097 :
    ∃ blocks, readTape (writeTapeFile [] 2 (List.replicate 4097 0xC9) 0xF000 0xF000 1000)
        = some blocks ∧
      TapeFile.Holds ⟨[], 2, (List.replicate 4097 (0xC9 : Byte)).length, 0xF000, 1000⟩ 1 0xF000
        (List.replicate 4097 0xC9) blocks ∧
      (blocks.map fun b => b.header.dataLength).sum = (List.replicate 4097 (0xC9 : Byte)).length :=
  writeTapeFile_decodable _ _ _ _ _ _ (by rw [List.length_replicate]; decide)

end Sjasmplus
