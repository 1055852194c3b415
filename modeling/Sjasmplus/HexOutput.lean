import Mathlib.Data.Int.ModEq
import Sjasmplus.Displacement
import Sjasmplus.MappedMemory
import Sjasmplus.Movement
import Sjasmplus.Lib.HexLines

/-!
# Output to a HEX file (`EmitToHex`, `FlushHexBuffer`, `WriteHexRecord` and `CloseHex` of `sjio.cpp`)

While a HEX file is open, the emitted bytes of the last pass are collected in a buffer.  It is written
as a record when it is full, when the address of the next byte does not follow, and when the file is
closed.

* `hexout_log` — the records hold every byte once and in order, at the addresses where `EmitToHex`
  was called;
* `hexout_faithful_iff` — these are the addresses where the bytes are assembled, unless the check of
  the address, which comes behind `EmitToHex`, maps the next page into a slot.
-/

namespace Sjasmplus

variable {n m : Nat}

/-! ### Records -/

/-- `PrintHex` without the pointer: `%0*X`. -/
def printHex (value nibbles : Nat) : Text := HexLines.printDigits nibbles (value % 16 ^ nibbles)

/-- `WriteHexRecord`: the text that it writes. -/
def writeHexRecord (r : HexRecord) : Text :=
  let length : Byte := BitVec.ofNat 8 r.data.length
  let crc : Byte := r.data.foldl (· - ·)
    (-length - (r.address >>> 8).setWidth 8 - r.address.setWidth 8 - r.blockType)
  ':' :: (printHex length.toNat 2 ++ printHex r.address.toNat 4 ++ printHex r.blockType.toNat 2 ++
    r.data.flatMap (fun byte => printHex byte.toNat 2) ++ printHex crc.toNat 2 ++ ['\n'])

/-- The bytes of the line of a record. -/
def HexRecord.line (r : HexRecord) : List Byte :=
  let fields := BitVec.ofNat 8 r.data.length :: (r.address >>> 8).setWidth 8 ::
    r.address.setWidth 8 :: r.blockType :: r.data
  fields ++ [-fields.sum]

/-- What a reader makes of a line: the length has to be that of the data, and the sum has to be 0. -/
def readRecord : List Byte → Option HexRecord
  | length :: high :: low :: blockType :: rest =>
    if rest.length = length.toNat + 1 ∧ (length :: high :: low :: blockType :: rest).sum = 0 then
      some ⟨blockType, high ++ low, rest.take length.toNat⟩
    else none
  | _ => none

/-- The records of a HEX file, if it is one. -/
def readHex (text : Text) : Option (List HexRecord) :=
  (HexLines.readLines text).bind (List.mapM readRecord)

/-- The bytes of a data record with their addresses, which wrap around at 64 KiB. -/
def HexRecord.dataBytes (r : HexRecord) : List (BitVec 16 × Byte) :=
  if r.blockType = 0 then r.data.mapIdx fun k byte => (r.address + BitVec.ofNat 16 k, byte) else []

/-! ### The writer -/

/-- The globals of the HEX writer. -/
structure HexOutput where
  /-- What was written to `FP_HEX`, when it is open. -/
  fpHex : Option Text
  /-- The first `hexCnt` bytes of the buffer. -/
  hexBytes : List Byte
  hexAddress : Int
deriving DecidableEq, Repr

namespace HexOutput

def write (records : List HexRecord) (s : HexOutput) : HexOutput :=
  { s with fpHex := s.fpHex.map (· ++ records.flatMap writeHexRecord) }

/-- The record of the buffer. -/
def buffered (s : HexOutput) : HexRecord := ⟨0, BitVec.ofInt 16 s.hexAddress, s.hexBytes⟩

/-- `FlushHexBuffer`. -/
def flushHexBuffer (s : HexOutput) : HexOutput :=
  if s.hexBytes = [] then s else { s.write [s.buffered] with hexBytes := [] }

/-- `OpenHex` with a file that can be opened. -/
def openHex (fname : Text) (s : HexOutput) : HexOutput × List Event :=
  if s.fpHex.isSome then
    (s, [.error "HEX output is already active, can't open for file" (some fname) .suppress])
  else ({ s with fpHex := some [], hexBytes := [] }, [])

/-- The first half of `EmitToHex`: a jump of the address flushes the buffer. -/
def seekHexBuffer (curAddress : Int) (s : HexOutput) : HexOutput :=
  let s := if s.hexAddress + s.hexBytes.length ≠ curAddress then s.flushHexBuffer else s
  if s.hexBytes = [] then { s with hexAddress := curAddress } else s

/-- `EmitToHex`. -/
def emitToHex (mc : Byte) (curAddress : Int) (s : HexOutput) : HexOutput :=
  let s := s.seekHexBuffer curAddress
  let s := { s with hexBytes := s.hexBytes ++ [mc] }
  if s.hexBytes.length = hexRecordMax then s.flushHexBuffer else s

/-- `CloseHex`: the file, if one was open. -/
def closeHex (start : Aint) (s : HexOutput) : Option Text × HexOutput :=
  if s.fpHex.isNone then (none, s)
  else
    let s := s.flushHexBuffer.write (Sjasmplus.closeHex start)
    (s.fpHex, { s with fpHex := none })

end HexOutput

/-- The state of the emitting functions together with the HEX writer. -/
structure HexState (n m : Nat) where
  emit : EmitState n m
  hex : HexOutput

/-- `EmitByteNoListing`: `EmitToHex` comes in front of the check of the address. -/
def HexState.emitByteNoListing (byte : Byte) (preserveDeviceMemory : Bool) (s : HexState n m) :
    HexState n m where
  emit := s.emit.emitByteNoListing byte preserveDeviceMemory
  hex := if s.emit.pass = lastPass ∧ s.hex.fpHex.isSome then s.hex.emitToHex byte s.emit.curAddress
    else s.hex

/-! ### Reading a file back -/

theorem foldl_sub (bytes : List Byte) (a : Byte) : bytes.foldl (· - ·) a = a - bytes.sum := by
  induction bytes generalizing a with
  | nil => simp
  | cons byte bytes ih =>
    rw [List.foldl_cons, ih, List.sum_cons, sub_sub]

/-- A number of four digits is printed as two bytes. -/
theorem printHex_address (address : BitVec 16) :
    printHex address.toNat 4
      = HexLines.printByte ((address >>> 8).setWidth 8) ++ HexLines.printByte (address.setWidth 8) := by
  have hlt := address.isLt
  have hhigh : ((address >>> 8).setWidth 8).toNat = address.toNat / 16 ^ 2 := by
    rw [BitVec.toNat_setWidth, BitVec.toNat_ushiftRight, Nat.shiftRight_eq_div_pow]
    omega
  have hlow : (address.setWidth 8).toNat = address.toNat % 16 ^ 2 := BitVec.toNat_setWidth _ _
  rw [printHex, HexLines.printDigits_mod, HexLines.printDigits_add 2 2, HexLines.printByte, hhigh,
    HexLines.printByte, hlow, HexLines.printDigits_mod]

theorem printHex_byte (byte : Byte) : printHex byte.toNat 2 = HexLines.printByte byte := by
  rw [printHex, HexLines.printDigits_mod, HexLines.printByte]

/-- A record is written as the line of its bytes. -/
theorem writeHexRecord_eq (r : HexRecord) : writeHexRecord r = HexLines.printLine r.line := by
  have hdata : r.data.flatMap (fun byte => printHex byte.toNat 2) = HexLines.printBytes r.data := by
    simp only [printHex_byte, HexLines.printBytes]
  have hcrc : ∀ length high low blockType sum : Byte,
      -length - high - low - blockType - sum
        = -(length + (high + (low + (blockType + sum)))) := by
    intro length high low blockType sum
    ring
  unfold writeHexRecord HexRecord.line HexLines.printLine
  dsimp only
  rw [foldl_sub, hcrc, printHex_address, hdata]
  simp only [printHex_byte, HexLines.printBytes_append, HexLines.printBytes_cons,
    HexLines.printBytes_nil, List.append_assoc, List.append_nil, List.sum_cons]

theorem append_setWidth (address : BitVec 16) :
    ((address >>> 8).setWidth 8 ++ address.setWidth 8 : BitVec 16) = address := by
  ext i hi
  rw [BitVec.getElem_append]
  split_ifs with h
  · rw [BitVec.getElem_setWidth, BitVec.getLsbD_eq_getElem (by omega)]
  · rw [BitVec.getElem_setWidth]
    rw [BitVec.getLsbD_ushiftRight, Nat.add_sub_cancel' (by omega), BitVec.getLsbD_eq_getElem (by omega)]

/-- The line of a record is read back. -/
theorem readRecord_line {r : HexRecord} (h : r.data.length ≤ hexRecordMax) :
    readRecord r.line = some r := by
  have hlength : (BitVec.ofNat 8 r.data.length).toNat = r.data.length := by
    rw [BitVec.toNat_ofNat]
    exact Nat.mod_eq_of_lt (h.trans_lt (by decide))
  -- the check byte makes the sum of all of them zero
  have hsum : r.line.sum = 0 := by
    unfold HexRecord.line
    dsimp only
    rw [List.sum_append, List.sum_singleton, add_neg_cancel]
  unfold HexRecord.line at hsum ⊢
  simp only [List.cons_append] at hsum ⊢
  rw [readRecord, if_pos ⟨by rw [hlength, List.length_append, List.length_singleton], hsum⟩, hlength,
    append_setWidth, List.take_left]

theorem mapM_readRecord {records : List HexRecord}
    (h : ∀ r ∈ records, r.data.length ≤ hexRecordMax) :
    (records.map HexRecord.line).mapM readRecord = some records := by
  induction records with
  | nil => rfl
  | cons r records ih =>
    have hrest := ih fun r hr => h r (List.mem_cons_of_mem _ hr)
    rw [List.map_cons, List.mapM_cons, readRecord_line (h r List.mem_cons_self), hrest]
    rfl

/-- The records of a file are read back. -/
theorem readHex_writeHexRecord {records : List HexRecord}
    (h : ∀ r ∈ records, r.data.length ≤ hexRecordMax) :
    readHex (records.flatMap writeHexRecord) = some records := by
  have hlines : records.flatMap writeHexRecord
      = (records.map HexRecord.line).flatMap HexLines.printLine := by
    rw [List.flatMap_map]
    exact congrArg (records.flatMap ·) (funext writeHexRecord_eq)
  rw [readHex, hlines, HexLines.readLines_printLines, Option.bind_some, mapM_readRecord h]

/-- A HEX file of short records that hold the bytes of a log, with their addresses. -/
def IsHexLog (file : Option Text) (log : List (BitVec 16 × Byte)) : Prop :=
  ∃ text records, file = some text ∧ readHex text = some records ∧
    (∀ r ∈ records, r.data.length ≤ hexRecordMax) ∧ records.flatMap HexRecord.dataBytes = log

/-- A file has one log only. -/
theorem IsHexLog.unique {file : Option Text} {log log' : List (BitVec 16 × Byte)}
    (h : IsHexLog file log) (h' : IsHexLog file log') : log = log' := by
  obtain ⟨text, records, rfl, hread, -, hlog⟩ := h
  obtain ⟨text', records', htext, hread', -, hlog'⟩ := h'
  obtain rfl := Option.some.inj htext
  obtain rfl := Option.some.inj (hread.symm.trans hread')
  rw [← hlog, ← hlog']

theorem length_of_mem_closeHex {start : Aint} {r : HexRecord} (h : r ∈ closeHex start) :
    r.data.length ≤ hexRecordMax := by
  unfold closeHex at h
  split_ifs at h
  · rcases List.mem_append.mp h with h | h
    · rw [List.mem_singleton.mp h]
      exact (by decide : 4 ≤ hexRecordMax)
    · rw [List.mem_singleton.mp h]
      decide
  · rw [List.nil_append, List.mem_singleton] at h
    rw [h]
    decide

/-- What closes the file are no data. -/
theorem dataBytes_closeHex (start : Aint) :
    (closeHex start).flatMap HexRecord.dataBytes = [] := by
  unfold closeHex
  split_ifs <;> rfl

/-! ### The buffer -/

theorem dataBytes_concat (address : BitVec 16) (data : List Byte) (byte : Byte) :
    (⟨0, address, data ++ [byte]⟩ : HexRecord).dataBytes
      = (⟨0, address, data⟩ : HexRecord).dataBytes ++ [(address + BitVec.ofNat 16 data.length, byte)] := by
  simp [HexRecord.dataBytes, List.mapIdx_concat]

namespace HexOutput

/-- The written records and the buffer hold the bytes of a log, with their addresses. -/
structure Logs (s : HexOutput) (records : List HexRecord) (log : List (BitVec 16 × Byte)) : Prop where
  file : s.fpHex = some (records.flatMap writeHexRecord)
  short : ∀ r ∈ records, r.data.length ≤ hexRecordMax
  fits : s.hexBytes.length ≤ hexRecordMax
  log : records.flatMap HexRecord.dataBytes ++ s.buffered.dataBytes = log

namespace Logs

variable {s : HexOutput} {records : List HexRecord} {log : List (BitVec 16 × Byte)}

/-- Flushing turns the buffer into a record. -/
theorem flushHexBuffer (h : s.Logs records log) :
    ∃ records', s.flushHexBuffer.Logs records' log ∧ s.flushHexBuffer.hexBytes = [] := by
  unfold HexOutput.flushHexBuffer
  -- an empty buffer writes no record
  by_cases hempty : s.hexBytes = []
  · rw [if_pos hempty]
    exact ⟨records, h, hempty⟩
  · rw [if_neg hempty]
    refine ⟨records ++ [s.buffered], ⟨?_, fun r hr => ?_, Nat.zero_le _, ?_⟩, rfl⟩
    · simp only [write, h.file, Option.map_some, List.flatMap_append]
    · rcases List.mem_append.mp hr with hr | hr
      · exact h.short r hr
      · rw [List.mem_singleton.mp hr]
        exact h.fits
    · rw [← h.log, List.flatMap_append, List.flatMap_singleton]
      simp [buffered, write, HexRecord.dataBytes]

/-- The address of an empty buffer does not matter. -/
theorem setAddress (h : s.Logs records log) (hempty : s.hexBytes = []) (address : Int) :
    ({ s with hexAddress := address } : HexOutput).Logs records log where
  file := h.file
  short := h.short
  fits := h.fits
  log := by
    rw [← h.log]
    simp [buffered, HexRecord.dataBytes, hempty]

/-- A byte at the address behind the buffer. -/
theorem push (h : s.Logs records log) (hroom : s.hexBytes.length < hexRecordMax) (mc : Byte) :
    ({ s with hexBytes := s.hexBytes ++ [mc] } : HexOutput).Logs records
      (log ++ [(BitVec.ofInt 16 (s.hexAddress + s.hexBytes.length), mc)]) where
  file := h.file
  short := h.short
  fits := by
    rw [List.length_append, List.length_singleton]
    exact hroom
  log := by
    rw [← h.log, buffered, dataBytes_concat, List.append_assoc, BitVec.ofInt_add, BitVec.ofInt_natCast]
    rfl

/-- The address behind the buffer becomes the current one. -/
theorem seekHexBuffer (h : s.Logs records log) (hroom : s.hexBytes.length < hexRecordMax)
    (curAddress : Int) :
    ∃ records', (s.seekHexBuffer curAddress).Logs records' log ∧
      (s.seekHexBuffer curAddress).hexBytes.length < hexRecordMax ∧
      (s.seekHexBuffer curAddress).hexAddress + (s.seekHexBuffer curAddress).hexBytes.length
        = curAddress := by
  unfold HexOutput.seekHexBuffer
  dsimp only
  -- a jump of the address flushes the buffer, which then starts at the new address
  by_cases hjump : s.hexAddress + s.hexBytes.length ≠ curAddress
  · obtain ⟨records', hflush, hempty⟩ := h.flushHexBuffer
    rw [if_pos hjump, if_pos hempty]
    refine ⟨records', hflush.setAddress hempty curAddress, ?_, ?_⟩
    · rw [hempty]
      decide
    · simp [hempty]
  · rw [if_neg hjump]
    by_cases hempty : s.hexBytes = []
    · rw [if_pos hempty]
      exact ⟨records, h.setAddress hempty curAddress, hroom, by simp [hempty]⟩
    · rw [if_neg hempty]
      exact ⟨records, h, hroom, not_not.mp hjump⟩

/-- `EmitToHex` logs a byte at the current address. -/
theorem emitToHex (h : s.Logs records log) (hroom : s.hexBytes.length < hexRecordMax) (mc : Byte)
    (curAddress : Int) :
    ∃ records', (s.emitToHex mc curAddress).Logs records' (log ++ [(BitVec.ofInt 16 curAddress, mc)]) ∧
      (s.emitToHex mc curAddress).hexBytes.length < hexRecordMax := by
  obtain ⟨records', hseek, hroom', haddress⟩ := h.seekHexBuffer hroom curAddress
  have hpush := hseek.push hroom' mc
  rw [haddress] at hpush
  unfold HexOutput.emitToHex
  dsimp only
  -- a full buffer is flushed
  split_ifs with hfull
  · obtain ⟨records'', hflush, hempty⟩ := hpush.flushHexBuffer
    refine ⟨records'', hflush, ?_⟩
    rw [hempty]
    decide
  · exact ⟨records', hpush, lt_of_le_of_ne hpush.fits hfull⟩

/-- Closing the file leaves the log. -/
theorem closeHex (h : s.Logs records log) (start : Aint) : IsHexLog (s.closeHex start).1 log := by
  obtain ⟨records', hflush, hempty⟩ := h.flushHexBuffer
  have hshort : ∀ r ∈ records' ++ Sjasmplus.closeHex start, r.data.length ≤ hexRecordMax := by
    intro r hr
    rcases List.mem_append.mp hr with hr | hr
    · exact hflush.short r hr
    · exact length_of_mem_closeHex hr
  have hfile : (s.closeHex start).1
      = some ((records' ++ Sjasmplus.closeHex start).flatMap writeHexRecord) := by
    unfold HexOutput.closeHex
    rw [if_neg (by rw [h.file]; simp)]
    simp only [write, hflush.file, Option.map_some, List.flatMap_append]
  -- nothing is left in the buffer
  have hbuffered : s.flushHexBuffer.buffered.dataBytes = [] := by
    simp [buffered, HexRecord.dataBytes, hempty]
  refine ⟨_, _, hfile, readHex_writeHexRecord hshort, hshort, ?_⟩
  rw [List.flatMap_append, dataBytes_closeHex, List.append_nil, ← hflush.log, hbuffered,
    List.append_nil]

end Logs

end HexOutput

/-! ### Runs -/

/-- A step of the last pass: an emitted byte, or anything else that statements do to the addresses, the
displacement and the device. -/
inductive HexStep (n m : Nat)
  | byte (byte : Byte) (preserveDeviceMemory : Bool)
  | other (state : { s : EmitState n m // s.pass = lastPass })

/-- One call of `EmitByteNoListing`. -/
structure ByteEmission (n m : Nat) where
  before : EmitState n m
  byte : Byte
  preserveDeviceMemory : Bool

namespace ByteEmission

variable (e : ByteEmission n m)

def after : EmitState n m := e.before.emitByteNoListing e.byte e.preserveDeviceMemory

/-- The address that `EmitToHex` sees. -/
def logged : BitVec 16 × Byte := (BitVec.ofInt 16 e.before.curAddress, e.byte)

/-- The address where the byte is assembled in the end. -/
def assembled : BitVec 16 × Byte := (BitVec.ofInt 16 (e.after.curAddress - 1), e.byte)

end ByteEmission

/-- The bytes that a run emits. -/
def EmitState.emissions (s : EmitState n m) : List (HexStep n m) → List (ByteEmission n m)
  | [] => []
  | .byte byte preserveDeviceMemory :: steps =>
    ⟨s, byte, preserveDeviceMemory⟩ ::
      (s.emitByteNoListing byte preserveDeviceMemory).emissions steps
  | .other state :: steps => state.val.emissions steps

namespace HexState

def step (s : HexState n m) : HexStep n m → HexState n m
  | .byte byte preserveDeviceMemory => s.emitByteNoListing byte preserveDeviceMemory
  | .other state => { s with emit := state.val }

def run (s : HexState n m) (steps : List (HexStep n m)) : HexState n m := steps.foldl step s

/-- The HEX file that `HEXOUT` opens in front of a run and that is closed behind it. -/
def hexFile (s : HexState n m) (fname : Text) (steps : List (HexStep n m)) (start : Aint) :
    Option Text :=
  ((run { s with hex := (s.hex.openHex fname).1 } steps).hex.closeHex start).1

end HexState

namespace HexState

theorem pass_step {s : HexState n m} (hpass : s.emit.pass = lastPass) (step : HexStep n m) :
    (s.step step).emit.pass = lastPass := by
  cases step with
  | byte byte preserveDeviceMemory =>
    exact (EmitState.sameMode_emitByteNoListing byte preserveDeviceMemory s.emit).pass.trans hpass
  | other state => exact state.property

/-- A run logs its bytes. -/
theorem logs_run {s : HexState n m} (steps : List (HexStep n m)) {records : List HexRecord}
    {log : List (BitVec 16 × Byte)} (hpass : s.emit.pass = lastPass) (h : s.hex.Logs records log)
    (hroom : s.hex.hexBytes.length < hexRecordMax) :
    ∃ records', (s.run steps).hex.Logs records'
      (log ++ (s.emit.emissions steps).map ByteEmission.logged) := by
  -- by induction on the steps: the log grows by the bytes of each of them
  induction steps generalizing s records log with
  | nil => exact ⟨records, by rwa [EmitState.emissions, List.map_nil, List.append_nil]⟩
  | cons step steps ih =>
    have hpass' := pass_step hpass step
    cases step with
    | byte byte preserveDeviceMemory =>
      have hopen : s.emit.pass = lastPass ∧ s.hex.fpHex.isSome := ⟨hpass, by rw [h.file]; rfl⟩
      have hstep : (s.step (.byte byte preserveDeviceMemory)).hex
          = s.hex.emitToHex byte s.emit.curAddress := if_pos hopen
      obtain ⟨records', hemit, hroom'⟩ := h.emitToHex hroom byte s.emit.curAddress
      rw [← hstep] at hemit hroom'
      obtain ⟨records'', hrun⟩ := ih hpass' hemit hroom'
      rw [List.append_assoc] at hrun
      exact ⟨records'', hrun⟩
    | other state => exact ih hpass' h hroom

end HexState

/-- The file of a run holds its bytes at the addresses that `EmitToHex` sees. -/
theorem hexout_log {s : HexState n m} (hpass : s.emit.pass = lastPass) (hclosed : s.hex.fpHex = none)
    (fname : Text) (steps : List (HexStep n m)) (start : Aint) :
    IsHexLog (s.hexFile fname steps start) ((s.emit.emissions steps).map ByteEmission.logged) := by
  have hopen : (s.hex.openHex fname).1 = { s.hex with fpHex := some [], hexBytes := [] } := by
    rw [HexOutput.openHex, hclosed]
    rfl
  have hlogs : (s.hex.openHex fname).1.Logs [] [] := by
    rw [hopen]
    exact ⟨rfl, by simp, Nat.zero_le _, by simp [HexOutput.buffered, HexRecord.dataBytes]⟩
  have hroom : (s.hex.openHex fname).1.hexBytes.length < hexRecordMax := by
    rw [hopen]
    exact (by decide : 0 < hexRecordMax)
  obtain ⟨records, hrun⟩ := HexState.logs_run
    (s := { s with hex := (s.hex.openHex fname).1 }) steps hpass hlogs hroom
  rw [List.nil_append] at hrun
  exact hrun.closeHex start

/-! ### The addresses of the bytes -/

namespace EmitState

variable (s : EmitState n m)

/-- How far the address moves back when the next byte is emitted. -/
def movesBack : Nat :=
  match s.device with
  | some device =>
    if s.displaced then 0 else (device.check (s.pass = lastPass) .emit s.curAddress).back
  | none => 0

theorem curAddress_checkRamLimitExceeded :
    s.checkRamLimitExceeded.curAddress ≡ s.curAddress [ZMOD 0x10000] := by
  unfold checkRamLimitExceeded checkAdrdisp checkCurAddress
  split_ifs <;> simp [Int.ModEq]

theorem curAddress_wrapDisplaced (level : CheckPageLevel) :
    (s.wrapDisplaced level).curAddress ≡ s.curAddress [ZMOD 0x10000] := by
  unfold wrapDisplaced
  split_ifs
  · exact Int.mod_modEq _ _
  · exact Int.ModEq.refl _

theorem curAddress_placeByte (byte : Byte) (preserveDeviceMemory : Bool) :
    (s.placeByte byte preserveDeviceMemory).curAddress
      ≡ s.curAddress - s.movesBack [ZMOD 0x10000] := by
  unfold placeByte movesBack
  cases hdevice : s.device with
  | none =>
    dsimp only
    rw [Int.natCast_zero, Int.sub_zero]
    exact s.curAddress_checkRamLimitExceeded
  | some device =>
    dsimp only
    unfold checkPage
    have hdisplaced : (s.wrapDisplaced .emit).displaced = s.displaced := by
      unfold wrapDisplaced
      split_ifs <;> rfl
    dsimp only
    rw [hdisplaced]
    by_cases h : s.displaced = true
    · rw [if_pos h, if_pos h, Int.natCast_zero, Int.sub_zero]
      exact s.curAddress_wrapDisplaced .emit
    · -- without a displacement nothing wraps around, and the address is that of the bytes
      have hwrap : s.wrapDisplaced .emit = s := by
        unfold wrapDisplaced
        exact if_neg fun hwrap => h hwrap.1
      rw [if_neg h, if_neg h, hwrap, emitAddress, if_neg h]

/-- Up to the end of the address space, emitting moves the address by one, from where the check has
moved it back. -/
theorem curAddress_emitByteNoListing (byte : Byte) (preserveDeviceMemory : Bool) :
    (s.emitByteNoListing byte preserveDeviceMemory).curAddress - 1
      ≡ s.curAddress - s.movesBack [ZMOD 0x10000] := by
  have hplace : ∀ t : EmitState n m, t.curAddress = s.curAddress → t.movesBack = s.movesBack →
      ((t.placeByte byte preserveDeviceMemory).advance 1).curAddress - 1
        ≡ s.curAddress - s.movesBack [ZMOD 0x10000] := by
    intro t haddress hback
    have hone : ((t.placeByte byte preserveDeviceMemory).advance 1).curAddress - 1
        = (t.placeByte byte preserveDeviceMemory).curAddress := by
      simp [advance]
    rw [hone, ← haddress, ← hback]
    exact t.curAddress_placeByte byte preserveDeviceMemory
  unfold emitByteNoListing
  dsimp only
  by_cases hpass : s.pass = lastPass
  · rw [if_pos hpass]
    exact hplace _ rfl rfl
  · rw [if_neg hpass]
    exact hplace _ rfl rfl

/-- The next byte makes the check map the next page into a slot, and the slot is not the whole address
space. -/
structure LeavesSlot (device : Device n m) : Prop where
  selected : s.device = some device
  plain : s.displaced = false
  maps : device.MapsNextPage s.curAddress
  part : ¬0x10000 ∣ (device.slots device.previousSlotI).size

theorem movesBack_dvd_iff : 0x10000 ∣ s.movesBack ↔ ¬∃ device, s.LeavesSlot device := by
  constructor
  · rintro hdvd ⟨device, h⟩
    obtain ⟨i, -, hcheck⟩ := device.check_of_mapsNextPage (s.pass = lastPass)
      (show CheckPageLevel.emit ≠ .reset by decide) h.maps
    have hback : s.movesBack = (device.slots device.previousSlotI).size := by
      simp [movesBack, h.selected, h.plain, hcheck]
    rw [hback] at hdvd
    exact h.part hdvd
  · intro h
    unfold movesBack
    cases hdevice : s.device with
    | none => exact dvd_zero _
    | some device =>
      dsimp only
      split_ifs with hdisplaced
      · exact dvd_zero _
      -- only mapping the next page moves the address back
      · by_cases hmaps : device.MapsNextPage s.curAddress
        · obtain ⟨i, -, hcheck⟩ := device.check_of_mapsNextPage (s.pass = lastPass)
            (show CheckPageLevel.emit ≠ .reset by decide) hmaps
          rw [hcheck]
          by_contra hpart
          exact h ⟨device, hdevice, by simpa using hdisplaced, hmaps, hpart⟩
        · rw [device.back_check_of_not_mapsNextPage _ _ hmaps]
          exact dvd_zero _

end EmitState

theorem ofInt_eq_iff (a b : Int) :
    BitVec.ofInt 16 a = BitVec.ofInt 16 b ↔ a ≡ b [ZMOD 0x10000] := by
  rw [← BitVec.toInt_inj, BitVec.toInt_ofInt, BitVec.toInt_ofInt]
  constructor
  · intro h
    have hcast : (0x10000 : Int) = ((2 ^ 16 : Nat) : Int) := rfl
    rw [Int.ModEq, hcast, ← Int.bmod_emod, h, Int.bmod_emod]
  · intro h
    rw [← Int.emod_bmod a, ← Int.emod_bmod b]
    exact congrArg (Int.bmod · (2 ^ 16)) h

/-- `EmitToHex` sees the address of a byte unless the check behind it maps the next page. -/
theorem ByteEmission.logged_eq_assembled_iff (e : ByteEmission n m) :
    e.logged = e.assembled ↔ ¬∃ device, e.before.LeavesSlot device := by
  have hmove := e.before.curAddress_emitByteNoListing e.byte e.preserveDeviceMemory
  rw [← EmitState.movesBack_dvd_iff, logged, assembled, Prod.mk.injEq, and_iff_left rfl, ofInt_eq_iff]
  unfold Int.ModEq at hmove ⊢
  rw [after, hmove]
  omega

/-- A HEX file holds the bytes of a run at the addresses where they are assembled exactly as long as no
byte makes the check of the address map the next page into a slot. -/
theorem hexout_faithful_iff {s : HexState n m} (hpass : s.emit.pass = lastPass)
    (hclosed : s.hex.fpHex = none) (fname : Text) (steps : List (HexStep n m)) (start : Aint) :
    IsHexLog (s.hexFile fname steps start) ((s.emit.emissions steps).map ByteEmission.assembled) ↔
      ∀ e ∈ s.emit.emissions steps, ¬∃ device, e.before.LeavesSlot device := by
  have hlog := hexout_log hpass hclosed fname steps start
  constructor
  · intro h e he
    rw [← e.logged_eq_assembled_iff]
    exact List.map_inj_left.mp (hlog.unique h) e he
  · intro h
    rwa [List.map_congr_left fun e he => (e.logged_eq_assembled_iff.mpr (h e he)).symm]

/-! ### An example -/

/-- `HEXOUT` in front of the last byte of a slot with the option `next`. -/
def exampleHexState : HexState 4 8 := ⟨exampleState, ⟨none, [], 0⟩⟩

/-- `DB 0x34`, and once more behind another `ORG` to the same address. -/
theorem hexout_faithful_exampleHexState :
    IsHexLog (exampleHexState.hexFile "out.hex".toList
        [.byte 0x34 false, .other ⟨exampleState, rfl⟩, .byte 0x12 false] (-1))
      ((exampleState.emissions [.byte 0x34 false, .other ⟨exampleState, rfl⟩, .byte 0x12 false]).map
        ByteEmission.assembled) :=
  (hexout_faithful_iff (s := exampleHexState) rfl rfl "out.hex".toList _ (-1)).mpr (by
    have hstays : ¬∃ device, exampleState.LeavesSlot device := by
      rintro ⟨device, h⟩
      obtain rfl := Option.some.inj h.selected
      exact absurd h.maps.border (by decide)
    intro e he
    rcases List.mem_cons.mp he with rfl | he
    · exact hstays
    · rw [List.mem_singleton.mp he]
      exact hstays)

/-- `DW 0x1234`: the record goes on behind the slot, while the second byte is at its start. -/
theorem not_hexLog_exampleHexState :
    ¬IsHexLog (exampleHexState.hexFile "out.hex".toList [.byte 0x34 false, .byte 0x12 false] (-1))
      ((exampleState.emissions [.byte 0x34 false, .byte 0x12 false]).map ByteEmission.assembled) := by
  intro h
  have hlog := hexout_log (s := exampleHexState) rfl rfl "out.hex".toList
    [.byte 0x34 false, .byte 0x12 false] (-1)
  exact absurd (hlog.unique h) (by decide)

end Sjasmplus
