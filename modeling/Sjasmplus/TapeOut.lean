import Sjasmplus.Tape

/-!
# Output to a tape file (`WriteDest`, `OpenTapFile` and `CloseTapFile` of `sjio.cpp`)

Emitted bytes are collected in a buffer that the main output and the tape file share.  `TAPOUT` starts a
block at the end of the tape file, every flush of the buffer adds to the block and its parity, and the
length is patched in when the block ends: at `TAPEND`, at the next `TAPOUT`, at the end of the assembly,
or in the middle of a flush when the block gets too long.

* `Streaming` — what the state says about the bytes emitted since `TAPOUT`; every step keeps it
  (`Streaming.step`), except for a `CloseDest` that pads the main output through the shared buffer;
* `tapout_block` — the block holds the emitted bytes, however they were flushed.
-/

namespace Sjasmplus

open Parsing ParseFn

/-- `DESTBUFLEN`. -/
def destBufLen : Nat := 8192

/-- The tape file behind `FP_tapout`; only the low byte of `tape_parity` is ever used. -/
structure OpenTape where
  tapename : Text
  tape_seek : Nat
  tape_parity : Byte
  tape_length : Nat
deriving DecidableEq, Repr

/-- The globals of the output files in the last pass.  `size` is -1 when there is no `SIZE`. -/
structure OutputState where
  /-- The first `WBLength` bytes of `WriteBuffer`. -/
  writeBuffer : List Byte
  destlen : Int
  size : Int
  /-- What was written to `FP_Output`, when it is open. -/
  output : Option (List Byte)
  tapout : Option OpenTape
  files : Text → Option (List Byte)
  log : List Event

/-- The error of a block that is too long. -/
def tapeExceeds : Event := .error "Tape block exceeds maximal size" none .pass3

namespace OutputState

/-- `fwrite` at the end of a file. -/
def appendFile (name : Text) (bytes : List Byte) (s : OutputState) : OutputState :=
  { s with files := Function.update s.files name ((s.files name).map (· ++ bytes)) }

/-- `fwrite` of a word behind `fseek`. -/
def patchFile (name : Text) (seek word : Nat) (s : OutputState) : OutputState :=
  { s with
    files := Function.update s.files name <| (s.files name).map fun content =>
      content.take seek ++ writeword word ++ content.drop (seek + 2) }

/-- `CloseTapFile` behind its flush. -/
def finishTape (s : OutputState) : OutputState :=
  match s.tapout with
  | none => s
  | some tape =>
    let s := (s.appendFile tape.tapename [tape.tape_parity]).patchFile tape.tapename tape.tape_seek
      tape.tape_length
    { s with tapout := none, destlen := 0 }

/-- The part of `WriteDest` about the tape. -/
def writeTape (tape : OpenTape) (s : OutputState) : OutputState :=
  let write_length := if 65535 < tape.tape_length + s.writeBuffer.length then
      65535 - tape.tape_length
    else s.writeBuffer.length
  let bytes := s.writeBuffer.take write_length
  let written := { s.appendFile tape.tapename bytes with
    tapout := some { tape with
      tape_parity := tape.tape_parity ^^^ parity bytes
      tape_length := tape.tape_length + write_length }
    writeBuffer := [] }
  if write_length < s.writeBuffer.length then
    -- the flush of this `CloseTapFile` finds the buffer empty
    let closed := written.finishTape
    { closed with log := closed.log ++ [tapeExceeds] }
  else written

/-- `WriteDest`. -/
def writeDest (s : OutputState) : OutputState :=
  if s.writeBuffer = [] then s
  else
    let s := { s with
      destlen := s.destlen + s.writeBuffer.length
      output := s.output.map (· ++ s.writeBuffer) }
    match s.tapout with
    | none => { s with writeBuffer := [] }
    | some tape => s.writeTape tape

/-- `CloseTapFile`. -/
def closeTapFile (s : OutputState) : OutputState := s.writeDest.finishTape

/-- `OpenTapFile`. -/
def openTapFile (tapename : Text) (flagbyte : Aint) (s : OutputState) : OutputState :=
  let s := s.closeTapFile
  match s.files tapename with
  | none => { s with log := s.log ++ [.error "opening file for write" (some tapename) .pass3] }
  | some content =>
    let flag : Byte := flagbyte.setWidth 8
    { s.appendFile tapename [0, 0, flag] with
      tapout := some ⟨tapename, content.length, flag, 2⟩
      destlen := 0 }

/-- The first lines of `EmitByteNoListing`. -/
def emitOutput (byte : Byte) (s : OutputState) : OutputState :=
  let s := { s with writeBuffer := s.writeBuffer ++ [byte] }
  if s.writeBuffer.length = destBufLen then s.writeDest else s

/-- The loop of `CloseDest` that pads the main output.  Every turn writes a byte at least, and a tape
that is closed on the way starts the count once more. -/
def padDest : Nat → OutputState → OutputState
  | 0, s => s
  | fuel + 1, s =>
    if s.destlen < s.size then
      padDest fuel ({ s with
        writeBuffer := List.replicate (min (destBufLen : Int) (s.size - s.destlen)).toNat 0 }).writeDest
    else s

/-- The part of `CloseDest` about the size of the main output. -/
def fitSize (s : OutputState) : OutputState :=
  if s.size = -1 then s
  else
    let s := if s.size < s.destlen then
        { s with log := s.log ++ [errorInt "File exceeds 'size' by" (s.destlen - s.size) .pass3] }
      else s
    { s.padDest (2 * s.size.toNat + 2) with size := -1 }

/-- `CloseDest`. -/
def closeDest (s : OutputState) : OutputState :=
  let s := s.writeDest
  if s.output.isNone then s else { s.fitSize with output := none, destlen := 0 }

/-- `OpenDest`, with the file that it opens. -/
def openDest (output : Option (List Byte)) (s : OutputState) : OutputState :=
  { s with destlen := 0, output := output }

/-- `dirSIZE` behind its argument. -/
def setSize (val : Aint) (s : OutputState) : OutputState :=
  if s.size = -1 then { s with size := val.toInt }
  else if s.size ≠ val.toInt then
    { s with log := s.log ++ [errorInt "[SIZE] Different size than previous" s.size .pass3] }
  else s

end OutputState

/-- What may happen between `TAPOUT` and the end of its block. -/
inductive OutputStep
  | emit (byte : Byte)
  | flush
  | closeDest
  | openDest (output : Option (List Byte))
  | setSize (val : Aint)
deriving DecidableEq, Repr

namespace OutputStep

def run (s : OutputState) : OutputStep → OutputState
  | emit byte => s.emitOutput byte
  | flush => s.writeDest
  | closeDest => s.closeDest
  | openDest output => s.openDest output
  | setSize val => s.setSize val

/-- The bytes that the step emits. -/
def emitted : OutputStep → List Byte
  | emit byte => [byte]
  | flush | closeDest | openDest _ | setSize _ => []

end OutputStep

/-- The block of a flag and data. -/
def tapeBlock (flag : Byte) (data : List Byte) : List Byte :=
  writeword (data.length + 2) ++ flag :: data ++ [parity (flag :: data)]

/-! ### The block under way -/

/-- The bytes emitted since `TAPOUT` are in the tape file or in the buffer; behind the 65533rd the block
was closed, with one error. -/
inductive Streaming (flag : Byte) (tapename : Text) (old : List Byte) (errors : Nat)
    (emitted : List Byte) (s : OutputState) : Prop
  | isOpen (written : List Byte) (hemitted : emitted = written ++ s.writeBuffer)
      (hlength : written.length ≤ 65533)
      (htape : s.tapout
        = some ⟨tapename, old.length, parity (flag :: written), 2 + written.length⟩)
      (hfile : s.files tapename = some (old ++ 0 :: 0 :: flag :: written))
      (hlog : s.log.count tapeExceeds = errors)
  | overflowed (written : List Byte) (hemitted : emitted = written ++ s.writeBuffer)
      (hlength : 65533 < written.length) (htape : s.tapout = none)
      (hfile : s.files tapename = some (old ++ tapeBlock flag (emitted.take 65533)))
      (hlog : s.log.count tapeExceeds = errors + 1)

/-- The end of a block. -/
theorem finishTape_file (s : OutputState) (flag : Byte) (tapename : Text) (old written : List Byte)
    (htape : s.tapout = some ⟨tapename, old.length, parity (flag :: written), 2 + written.length⟩)
    (hfile : s.files tapename = some (old ++ 0 :: 0 :: flag :: written)) :
    s.finishTape.files tapename = some (old ++ tapeBlock flag written) ∧
      s.finishTape.tapout = none ∧ s.finishTape.log = s.log ∧
      s.finishTape.writeBuffer = s.writeBuffer := by
  have hfinish : s.finishTape = { (s.appendFile tapename [parity (flag :: written)]).patchFile tapename
      old.length (2 + written.length) with tapout := none, destlen := 0 } := by
    rw [OutputState.finishTape, htape]
  rw [hfinish]
  refine ⟨?_, rfl, rfl, rfl⟩
  simp [OutputState.patchFile, OutputState.appendFile, hfile, tapeBlock, writeword,
    Nat.add_comm 2]

namespace Streaming

variable {flag : Byte} {tapename : Text} {old emitted : List Byte} {errors : Nat} {s : OutputState}

/-- A flush of a buffer that fits into the block. -/
theorem writeTape_fits {written : List Byte} (hemitted : emitted = written ++ s.writeBuffer)
    (hlength : written.length + s.writeBuffer.length ≤ 65533)
    (hfile : s.files tapename = some (old ++ 0 :: 0 :: flag :: written))
    (hlog : s.log.count tapeExceeds = errors) :
    Streaming flag tapename old errors emitted
        (s.writeTape ⟨tapename, old.length, parity (flag :: written), 2 + written.length⟩) ∧
      (s.writeTape ⟨tapename, old.length, parity (flag :: written), 2 + written.length⟩).writeBuffer
        = [] := by
  rw [OutputState.writeTape]
  dsimp only
  rw [if_neg (show ¬65535 < 2 + written.length + s.writeBuffer.length by omega),
    if_neg (Nat.lt_irrefl _), List.take_length]
  refine ⟨.isOpen (written ++ s.writeBuffer) ?_ ?_ ?_ ?_ ?_, rfl⟩
  · rw [hemitted, List.append_nil]
  · rwa [List.length_append]
  · rw [← List.cons_append, parity_append, List.length_append, Nat.add_assoc]
  · simp [OutputState.appendFile, hfile]
  · exact hlog

/-- A flush of a buffer that makes the block too long. -/
theorem writeTape_exceeds {written : List Byte} (hemitted : emitted = written ++ s.writeBuffer)
    (hwritten : written.length ≤ 65533) (hlength : 65533 < written.length + s.writeBuffer.length)
    (hfile : s.files tapename = some (old ++ 0 :: 0 :: flag :: written))
    (hlog : s.log.count tapeExceeds = errors) :
    Streaming flag tapename old errors emitted
        (s.writeTape ⟨tapename, old.length, parity (flag :: written), 2 + written.length⟩) ∧
      (s.writeTape ⟨tapename, old.length, parity (flag :: written), 2 + written.length⟩).writeBuffer
        = [] := by
  -- only what fits is written, and that closes the tape
  have htake : emitted.take 65533 = written ++ s.writeBuffer.take (65535 - (2 + written.length)) := by
    rw [hemitted, List.take_append, List.take_of_length_le hwritten]
    congr 2
    omega
  rw [OutputState.writeTape]
  dsimp only
  rw [if_pos (show 65535 < 2 + written.length + s.writeBuffer.length by omega),
    if_pos (show 65535 - (2 + written.length) < s.writeBuffer.length by omega)]
  have hdata : (s.writeBuffer.take (65535 - (2 + written.length))).length
      = 65535 - (2 + written.length) := by
    rw [List.length_take]
    omega
  generalize s.writeBuffer.take (65535 - (2 + written.length)) = bytes at htake hdata ⊢
  obtain ⟨hclosed, htape, hsame, hbuffer⟩ := finishTape_file { s.appendFile tapename bytes with
      tapout := some ⟨tapename, old.length, parity (flag :: written) ^^^ parity bytes,
        2 + written.length + (65535 - (2 + written.length))⟩
      writeBuffer := [] } flag tapename old (written ++ bytes)
    (by rw [← List.cons_append, parity_append, List.length_append, hdata, Nat.add_assoc])
    (by simp [OutputState.appendFile, hfile])
  refine ⟨.overflowed (written ++ s.writeBuffer) ?_ ?_ htape ?_ ?_, hbuffer⟩
  · rw [hbuffer, hemitted, List.append_nil]
  · rwa [List.length_append]
  · rw [htake]
    exact hclosed
  · rw [hsame, List.count_append, List.count_singleton_self]
    exact congrArg (· + 1) hlog

/-- A flush keeps what was emitted. -/
theorem writeDest (h : Streaming flag tapename old errors emitted s) :
    Streaming flag tapename old errors emitted s.writeDest ∧ s.writeDest.writeBuffer = [] := by
  rw [OutputState.writeDest]
  by_cases hempty : s.writeBuffer = []
  · rw [if_pos hempty]
    exact ⟨h, hempty⟩
  · rw [if_neg hempty]
    cases h with
    | isOpen written hemitted hlength htape hfile hlog =>
      dsimp only
      rw [htape]
      -- the block has room for the buffer, or this flush closes the tape
      by_cases hfits : written.length + s.writeBuffer.length ≤ 65533
      · exact writeTape_fits hemitted hfits hfile hlog
      · exact writeTape_exceeds hemitted hlength (Nat.lt_of_not_le hfits) hfile hlog
    | overflowed written hemitted hlength htape hfile hlog =>
      dsimp only
      rw [htape]
      refine ⟨.overflowed (written ++ s.writeBuffer) ?_ ?_ rfl hfile hlog, rfl⟩
      · rw [hemitted, List.append_nil]
      · rw [List.length_append]
        omega

/-- What neither touches the tape nor the buffer keeps what was emitted. -/
theorem of_same {s' : OutputState} (h : Streaming flag tapename old errors emitted s)
    (hbuffer : s'.writeBuffer = s.writeBuffer) (htapout : s'.tapout = s.tapout)
    (hfiles : s'.files = s.files) (hcount : s'.log.count tapeExceeds = s.log.count tapeExceeds) :
    Streaming flag tapename old errors emitted s' := by
  cases h with
  | isOpen written hemitted hlength htape hfile hlog =>
    exact .isOpen written (by rw [hbuffer, hemitted]) hlength (htapout.trans htape)
      (by rw [hfiles, hfile]) (hcount.trans hlog)
  | overflowed written hemitted hlength htape hfile hlog =>
    exact .overflowed written (by rw [hbuffer, hemitted]) hlength (htapout.trans htape)
      (by rw [hfiles, hfile]) (hcount.trans hlog)

/-- An emitted byte. -/
theorem emitOutput (h : Streaming flag tapename old errors emitted s) (byte : Byte) :
    Streaming flag tapename old errors (emitted ++ [byte]) (s.emitOutput byte) := by
  -- the byte goes to the buffer, which is flushed when it is full
  have hbuffered : Streaming flag tapename old errors (emitted ++ [byte])
      { s with writeBuffer := s.writeBuffer ++ [byte] } := by
    cases h with
    | isOpen written hemitted hlength htape hfile hlog =>
      exact .isOpen written (by rw [hemitted, List.append_assoc]) hlength htape hfile hlog
    | overflowed written hemitted hlength htape hfile hlog =>
      -- behind the overflow no byte of the block is added
      have hlong : 65533 ≤ emitted.length := by
        rw [hemitted, List.length_append]
        omega
      refine .overflowed written (by rw [hemitted, List.append_assoc]) hlength htape ?_ hlog
      rw [List.take_append_of_le_length hlong]
      exact hfile
  rw [OutputState.emitOutput]
  dsimp only
  split_ifs
  · exact hbuffered.writeDest.1
  · exact hbuffered

end Streaming

/-! ### The main output -/

namespace OutputState

/-- `CloseDest` would pad the main output while the tape file takes what is flushed. -/
def PadsTape (s : OutputState) : Prop :=
  ∃ tape, s.tapout = some tape ∧ tape.tape_length + s.writeBuffer.length ≤ 65535 ∧
    s.output.isSome ∧ s.size ≠ -1 ∧ s.destlen + s.writeBuffer.length < s.size

/-- A tape that is open behind a flush had room for it. -/
theorem writeDest_of_tapout {s : OutputState} {tape : OpenTape}
    (h : s.writeDest.tapout = some tape) (hroom : tape.tape_length ≤ 65535) :
    s.writeDest.destlen = s.destlen + s.writeBuffer.length ∧ s.writeDest.size = s.size ∧
      s.writeDest.output.isSome = s.output.isSome ∧
      ∃ before, s.tapout = some before ∧ before.tape_length + s.writeBuffer.length ≤ 65535 := by
  unfold writeDest at h ⊢
  by_cases hempty : s.writeBuffer = []
  · rw [if_pos hempty] at h ⊢
    refine ⟨?_, rfl, rfl, tape, h, ?_⟩ <;> rw [hempty]
    · exact (Int.add_zero _).symm
    · exact hroom
  · rw [if_neg hempty] at h ⊢
    dsimp only at h ⊢
    cases hbefore : s.tapout with
    | none =>
      rw [hbefore] at h
      simp at h
    | some before =>
      rw [hbefore] at h
      dsimp only [writeTape] at h ⊢
      by_cases hexceeds : 65535 < before.tape_length + s.writeBuffer.length
      · -- such a flush closes the tape
        have hpos : 0 < s.writeBuffer.length := List.length_pos_iff.mpr hempty
        rw [if_pos hexceeds, if_pos (by omega)] at h
        simp [finishTape] at h
      · rw [if_neg hexceeds, if_neg (Nat.lt_irrefl _)]
        exact ⟨rfl, rfl, by simp [appendFile], before, rfl, by omega⟩

/-- A flush leaves the buffer empty. -/
theorem writeBuffer_writeDest (s : OutputState) : s.writeDest.writeBuffer = [] := by
  unfold writeDest
  by_cases hempty : s.writeBuffer = []
  · rw [if_pos hempty, hempty]
  · rw [if_neg hempty]
    dsimp only
    cases s.tapout with
    | none => rfl
    | some tape =>
      dsimp only [writeTape]
      split_ifs <;> rfl

/-- Without a tape the padding goes to the main output only. -/
theorem padDest_of_closed (fuel : Nat) (s : OutputState) (hbuffer : s.writeBuffer = [])
    (htape : s.tapout = none) :
    (s.padDest fuel).writeBuffer = [] ∧ (s.padDest fuel).tapout = none ∧
      (s.padDest fuel).files = s.files ∧ (s.padDest fuel).log = s.log := by
  -- by induction on the fuel of the padding
  induction fuel generalizing s with
  | zero => exact ⟨hbuffer, htape, rfl, rfl⟩
  | succ fuel ih =>
    rw [padDest]
    split_ifs
    · -- one turn of the loop
      generalize List.replicate _ (0 : Byte) = zeros
      have hturn : ({ s with writeBuffer := zeros } : OutputState).writeDest.tapout = none ∧
          ({ s with writeBuffer := zeros } : OutputState).writeDest.files = s.files ∧
          ({ s with writeBuffer := zeros } : OutputState).writeDest.log = s.log := by
        rw [writeDest]
        split_ifs
        · exact ⟨htape, rfl, rfl⟩
        · dsimp only
          rw [htape]
          exact ⟨rfl, rfl, rfl⟩
      obtain ⟨hbuffer', htape', hfiles, hlog⟩ := ih _ (writeBuffer_writeDest _) hturn.1
      exact ⟨hbuffer', htape', hfiles.trans hturn.2.1, hlog.trans hturn.2.2⟩
    · exact ⟨hbuffer, htape, rfl, rfl⟩

end OutputState

namespace Streaming

variable {flag : Byte} {tapename : Text} {old emitted : List Byte} {errors : Nat} {s : OutputState}

/-- The padding of a flushed output, once the tape is closed or the output is long enough. -/
theorem padDest (h : Streaming flag tapename old errors emitted s) (hbuffer : s.writeBuffer = [])
    (hquiet : s.tapout = none ∨ s.size ≤ s.destlen) (fuel : Nat) :
    Streaming flag tapename old errors emitted (s.padDest fuel) := by
  rcases hquiet with htape | hlong
  · obtain ⟨hbuffer', htape', hfiles, hlog⟩ := s.padDest_of_closed fuel hbuffer htape
    exact h.of_same (hbuffer'.trans hbuffer.symm) (htape'.trans htape.symm) hfiles (by rw [hlog])
  · cases fuel with
    | zero => exact h
    | succ fuel =>
      rw [OutputState.padDest, if_neg (by omega)]
      exact h

/-- The size of the main output, without padding through the tape. -/
theorem fitSize (h : Streaming flag tapename old errors emitted s) (hbuffer : s.writeBuffer = [])
    (hquiet : s.size ≠ -1 → s.tapout = none ∨ s.size ≤ s.destlen) :
    Streaming flag tapename old errors emitted s.fitSize := by
  rw [OutputState.fitSize]
  split_ifs with hsize hexceeds
  · exact h
  · have hlogged : Streaming flag tapename old errors emitted { s with
        log := s.log ++ [errorInt "File exceeds 'size' by" (s.destlen - s.size) .pass3] } :=
      h.of_same rfl rfl rfl (by simp [errorInt, tapeExceeds])
    exact (hlogged.padDest hbuffer (hquiet hsize) _).of_same rfl rfl rfl rfl
  · exact (h.padDest hbuffer (hquiet hsize) _).of_same rfl rfl rfl rfl

/-- The end of the main output, without padding through the tape. -/
theorem closeDest (h : Streaming flag tapename old errors emitted s) (hquiet : ¬s.PadsTape) :
    Streaming flag tapename old errors emitted s.closeDest := by
  obtain ⟨hflushed, hbuffer⟩ := h.writeDest
  rw [OutputState.closeDest]
  dsimp only
  split_ifs with houtput
  · exact hflushed
  · -- behind the flush the tape is closed or nothing is missing of the output
    refine (hflushed.fitSize hbuffer fun hsize => ?_).of_same rfl rfl rfl rfl
    cases htape : s.writeDest.tapout with
    | none => exact .inl rfl
    | some tape =>
      refine .inr ?_
      have hroom : tape.tape_length ≤ 65535 := by
        cases hflushed with
        | isOpen written _ hlength htape' _ _ =>
          rw [htape'] at htape
          rw [← Option.some.inj htape]
          dsimp only
          omega
        | overflowed _ _ _ htape' _ _ => simp [htape'] at htape
      obtain ⟨hdestlen, hsame, hsome, before, hbefore, hfits⟩ :=
        OutputState.writeDest_of_tapout htape hroom
      rw [Option.isNone_iff_eq_none, ← Option.not_isSome_iff_eq_none, not_not] at houtput
      by_contra hlt
      exact hquiet ⟨before, hbefore, hfits, by rwa [← hsome], by rwa [← hsame], by omega⟩

/-- What a step between `TAPOUT` and the end of the block keeps. -/
theorem step (h : Streaming flag tapename old errors emitted s) (step : OutputStep)
    (hquiet : step = .closeDest → ¬s.PadsTape) :
    Streaming flag tapename old errors (emitted ++ step.emitted) (step.run s) := by
  cases step with
  | emit byte => exact h.emitOutput byte
  | flush =>
    rw [OutputStep.emitted, List.append_nil]
    exact h.writeDest.1
  | closeDest =>
    rw [OutputStep.emitted, List.append_nil]
    exact h.closeDest (hquiet rfl)
  | openDest output =>
    rw [OutputStep.emitted, List.append_nil]
    exact h.of_same rfl rfl rfl rfl
  | setSize val =>
    rw [OutputStep.emitted, List.append_nil]
    show Streaming flag tapename old errors emitted (s.setSize val)
    rw [OutputState.setSize]
    split_ifs
    · exact h.of_same rfl rfl rfl rfl
    · exact h.of_same rfl rfl rfl (by simp [errorInt, tapeExceeds])
    · exact h

/-- The end of the block. -/
theorem closeTapFile (h : Streaming flag tapename old errors emitted s) :
    s.closeTapFile.files tapename = some (old ++ tapeBlock flag (emitted.take 65533)) ∧
      s.closeTapFile.log.count tapeExceeds = errors + if 65533 < emitted.length then 1 else 0 := by
  obtain ⟨hflushed, hbuffer⟩ := h.writeDest
  rw [OutputState.closeTapFile]
  cases hflushed with
  | isOpen written hemitted hlength htape hfile hlog =>
    obtain ⟨hclosed, -, hsame, -⟩ := finishTape_file _ _ _ _ _ htape hfile
    rw [hbuffer, List.append_nil] at hemitted
    rw [hemitted, List.take_of_length_le hlength, if_neg (by omega), hsame, hlog]
    exact ⟨hclosed, rfl⟩
  -- the tape was closed when the block was full
  | overflowed written hemitted hlength htape hfile hlog =>
    have hsame : s.writeDest.finishTape = s.writeDest := by
      rw [OutputState.finishTape, htape]
    rw [hbuffer, List.append_nil] at hemitted
    rw [hsame, if_pos (by rwa [hemitted])]
    exact ⟨hfile, hlog⟩

end Streaming

/-! ### Runs -/

def runOutput (s : OutputState) (steps : List OutputStep) : OutputState :=
  steps.foldl OutputStep.run s

/-- The bytes that the steps emit, in their order. -/
def emittedBytes (steps : List OutputStep) : List Byte := steps.flatMap OutputStep.emitted

/-- No step pads the main output while the tape file takes what is flushed. -/
def NoPadding : OutputState → List OutputStep → Prop
  | _, [] => True
  | s, step :: steps => (step = .closeDest → ¬s.PadsTape) ∧ NoPadding (step.run s) steps

theorem Streaming.run {flag : Byte} {tapename : Text} {old : List Byte} {errors : Nat}
    (steps : List OutputStep) :
    ∀ {emitted : List Byte} {s : OutputState}, Streaming flag tapename old errors emitted s →
      NoPadding s steps →
      Streaming flag tapename old errors (emitted ++ emittedBytes steps) (runOutput s steps) := by
  induction steps with
  | nil =>
    intro emitted s h _
    simpa [emittedBytes, runOutput] using h
  | cons step steps ih =>
    intro emitted s h hquiet
    have hrest := ih (h.step step hquiet.1) hquiet.2
    rwa [List.append_assoc] at hrest

/-- `TAPOUT` starts a block. -/
theorem streaming_openTapFile {s : OutputState} {tapename : Text} (flagbyte : Aint)
    {old : List Byte} (hfile : s.closeTapFile.files tapename = some old) :
    Streaming (flagbyte.setWidth 8) tapename old (s.closeTapFile.log.count tapeExceeds) []
      (s.openTapFile tapename flagbyte) := by
  -- a tape that was open before has been closed with its buffer
  have hbuffer : s.closeTapFile.writeBuffer = [] := by
    rw [OutputState.closeTapFile, OutputState.finishTape]
    split
    · exact s.writeBuffer_writeDest
    · exact s.writeBuffer_writeDest
  have hopen : s.openTapFile tapename flagbyte
      = { s.closeTapFile.appendFile tapename [0, 0, flagbyte.setWidth 8] with
          tapout := some ⟨tapename, old.length, flagbyte.setWidth 8, 2⟩, destlen := 0 } := by
    rw [OutputState.openTapFile]
    dsimp only
    rw [hfile]
  rw [hopen]
  refine .isOpen [] ?_ (Nat.zero_le _) ?_ ?_ rfl
  · exact hbuffer.symm
  · simp [parity]
  · simp [OutputState.appendFile, hfile]

/-- The block of a `TAPOUT`, in every run up to its end without padding through the tape: it holds the
emitted bytes up to the 65533rd, its length counts the bytes behind it, its parity is even, and the
error is reported once exactly if there are more bytes. -/
theorem tapout_block (s : OutputState) (tapename : Text) (flagbyte : Aint) (old : List Byte)
    (hfile : s.closeTapFile.files tapename = some old) (steps : List OutputStep)
    (hquiet : NoPadding (s.openTapFile tapename flagbyte) steps) :
    let closed := (runOutput (s.openTapFile tapename flagbyte) steps).closeTapFile
    let data := (emittedBytes steps).take 65533
    closed.files tapename = some (old ++ tapeBlock (flagbyte.setWidth 8) data) ∧
      IsBlock data (tapeBlock (flagbyte.setWidth 8) data) ∧
      closed.log.count tapeExceeds = s.closeTapFile.log.count tapeExceeds
        + if 65533 < (emittedBytes steps).length then 1 else 0 := by
  -- the run of the steps is that of the block
  have hrun := (streaming_openTapFile flagbyte hfile).run steps hquiet
  rw [List.nil_append] at hrun
  obtain ⟨hclosed, hcount⟩ := hrun.closeTapFile
  refine ⟨hclosed, ?_, hcount⟩
  rw [tapeBlock, isBlock_iff, List.length_take]
  omega

/-! ### An example -/

/-- The start of the last pass, with an empty tape file. -/
def exampleOutput : OutputState where
  writeBuffer := []
  destlen := 0
  size := -1
  output := some []
  tapout := none
  files name := if name = "x.tap".toList then some [] else none
  log := []

theorem tapout_block_exampleOutput :
    let closed := (runOutput (exampleOutput.openTapFile "x.tap".toList 255)
      [.emit 1, .flush, .emit 2, .closeDest]).closeTapFile
    let data := (emittedBytes [.emit 1, .flush, .emit 2, .closeDest]).take 65533
    closed.files "x.tap".toList = some ([] ++ tapeBlock ((255 : Aint).setWidth 8) data) ∧
      IsBlock data (tapeBlock ((255 : Aint).setWidth 8) data) ∧
      closed.log.count tapeExceeds = exampleOutput.closeTapFile.log.count tapeExceeds
        + if 65533 < (emittedBytes [.emit 1, .flush, .emit 2, .closeDest]).length then 1 else 0 := by
  refine tapout_block exampleOutput "x.tap".toList 255 [] (by decide)
    [.emit 1, .flush, .emit 2, .closeDest] ?_
  refine ⟨by simp, by simp, by simp, fun _ => ?_, trivial⟩
  rintro ⟨tape, -, -, -, hsize, -⟩
  exact hsize rfl

/-- With `SIZE 4` the zeros that pad the main output at the end of the assembly are part of the block. -/
theorem tapout_block_padded :
    ((runOutput (exampleOutput.openTapFile "x.tap".toList 255)
      [.setSize 4, .emit 1, .closeDest]).closeTapFile).files "x.tap".toList
      ≠ some ([] ++ tapeBlock 255 [1]) := by
  decide

end Sjasmplus
