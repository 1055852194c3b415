import Sjasmplus.Hobeta
import Sjasmplus.PagePointer

/-!
# Including binary files (`BinIncFile` of `sjio.cpp`, `INCBIN` and `INCHOB` of `directives.cpp`)

`BinIncFile` turns its two arguments into the range of the file to include: a negative offset counts
from the end of the file, a negative length leaves out that many bytes at the end, and the default
length goes up to the end.  All sums are those of 32 bits, and so is the one that is compared with the
length of the file.

`INCHOB` includes the payload of a Hobeta file: its default length is what the header says, less the
offset, and it gives both to `BinIncFile`.

* `binIncFile_documented_iff` — the range is the documented one, or there is an error and the range is
  in the file, exactly when no sum of the arguments wraps around into a range that looks right.
* `dirINCHOB_payload_iff` — `INCHOB` includes the payload from the offset on, or reports an offset
  behind the payload, exactly when the negative default length does not count from the end of the file.

The file is what `fread` gets, and `ftell` gives its length before it is cut down to an `int`.
-/

namespace Sjasmplus

variable {n m : Nat}

/-! ### The program -/

/-- `INT_MAX`, the default length. -/
def intMax : Aint := BitVec.intMax 32

/-- The part of a file to include. -/
@[ext] structure FileRange where
  offset : Aint
  length : Aint
deriving DecidableEq, Repr

/-- `std::clamp`. -/
def clamp (v low high : Aint) : Aint := if v.slt low then low else if high.slt v then high else v

/-- The offset that counts from the start of the file. -/
def processOffset (totlen offset : Aint) : Aint := if offset.slt 0 then offset + totlen else offset

/-- The length behind a processed offset. -/
def processLength (totlen offset length : Aint) : Aint :=
  let length := if length.slt 0 then length + (totlen - offset) else length
  if length = intMax then totlen - offset else length

/-- The arguments of `BinIncFile`, processed and validated; nothing is left when `ftell` fails. -/
def binIncArguments (file : Text) (totlen offset length : Aint) : Reported (Option FileRange) :=
  if totlen.slt 0 then (none, [.error "telling file length" (some file) .fatal])
  else
    let offset := processOffset totlen offset
    let length := processLength totlen offset length
    if offset.slt 0 || length.slt 0 || totlen.slt (offset + length) then
      let offset := clamp offset 0 totlen
      (some ⟨offset, clamp length 0 (totlen - offset)⟩, [.error "file too short" (some file) .pass3])
    else (some ⟨offset, length⟩, [])

namespace EmitState

/-- `advanceLength` in one turn of the loop in front of the last pass: up to the end of the page that the
memory pointer is in. -/
def chunkLength (length : Int) (s : EmitState n m) : Int :=
  match s.device.bind fun device => (s.checkPage .emit device).device with
  | none => length
  | some device =>
    match device.memoryPointer with
    | none => length
    | some p =>
      let page := device.pages device.page
      min length (page.ram + page.size - p)

/-- The loop in front of the last pass; a turn moves by one byte at least. -/
def skipData : Nat → Int → EmitState n m → EmitState n m
  | 0, _, s => s
  | fuel + 1, length, s =>
    if length = 0 then s
    else skipData fuel (length - s.chunkLength length) (s.includeChunk length.toNat)

/-- The bytes of the file go through `EmitByteNoListing`. -/
def emitData (data : List Byte) (s : EmitState n m) : EmitState n m :=
  data.foldl (fun s byte => s.emitByteNoListing byte false) s

end EmitState

/-- A message of `BinIncFile` or `INCHOB`. -/
def reports (l : List Event) : Program (EmitState n m) PUnit := modify (EmitState.report l)

/-- The bytes that `fread` gets. -/
def FileRange.data (range : FileRange) (content : List Byte) : List Byte :=
  (content.drop range.offset.toNat).take range.length.toNat

/-- The end of `BinIncFile`, in the last pass and in the passes before it. -/
def includeData (file : Text) (content : List Byte) (range : FileRange) :
    Program (EmitState n m) PUnit := do
  let s ← get
  if s.pass ≠ lastPass then
    modify (EmitState.skipData range.length.toNat range.length.toInt)
  else if (range.data content).length ≠ range.length.toNat then do
    reports [.error "reading data from file failed" (some file) .fatal]
    Program.exit
  else
    modify (EmitState.emitData (range.data content))

/-- `BinIncFile` behind its arguments. -/
def includeRange (file : Text) (content : List Byte) : Option FileRange → Program (EmitState n m) PUnit
  | none => Program.exit
  | some range =>
    if range.length = 0 then
      reports [.warning "include data: requested to include no data (length=0)" none .pass3]
    else includeData file content range

/-- `BinIncFile`; there is no content when the file cannot be opened. -/
def binIncFile (file : Text) (content : Option (List Byte)) (offset length : Aint) :
    Program (EmitState n m) PUnit := do
  reports (if content.isNone then [.error "opening file" (some file) .pass3] else [])
  let range := binIncArguments file (BitVec.ofNat 32 (content.getD []).length) offset length
  reports range.2
  includeRange file (content.getD []) range.1

/-- `dirINCBIN` behind its operands: an operand is missing when it is left out, and its value is missing
when it has a syntax error. -/
def dirINCBIN (bp fnaam : Text) (content : Option (List Byte)) (offset length : Option (Option Aint)) :
    Program (EmitState n m) PUnit :=
  match offset, length with
  | some none, _ => reports [.error "[INCBIN] Syntax error in <offset>" (some bp) .suppress]
  | _, some none => reports [.error "[INCBIN] Syntax error in <length>" (some bp) .suppress]
  | offset, length => binIncFile fnaam content (offset.join.getD 0) (length.join.getD intMax)

/-- An operand of `dirINCHOB`. -/
def inchobOperand (bp : Text) (val : Option (Option Aint)) (default : Aint) : Reported (Option Aint) :=
  match val with
  | none => (some default, [])
  | some none => (none, [.error "[INCHOB] Syntax error" (some bp) .ifFirst])
  | some (some val) =>
    if val.slt 0 then (none, [.error "[INCHOB] Negative values are not allowed" (some bp) .pass3])
    else (some val, [])

/-- The end of `dirINCHOB`: the length comes from the header when it was left out. -/
def includeHobeta (fnaam : Text) (content : Option (List Byte)) (offset length : Aint) :
    Program (EmitState n m) PUnit :=
  match content with
  | none => do
    reports [.error "[INCHOB] Error opening file" (some fnaam) .fatal]
    Program.exit
  | some file =>
    if file.length < 13 then do
      reports [.error "[INCHOB] Hobeta file has wrong format" (some fnaam) .fatal]
      Program.exit
    else
      let length := if length = -1 then BitVec.ofNat 32 (wordAt file 11) - offset else length
      -- adjust offset (skip HOB header)
      binIncFile fnaam content (offset + 17) length

/-- `dirINCHOB` behind its operands. -/
def dirINCHOB (bp fnaam : Text) (content : Option (List Byte)) (offset length : Option (Option Aint)) :
    Program (EmitState n m) PUnit :=
  match inchobOperand bp offset 0, inchobOperand bp length (-1) with
  | (none, log), _ => reports log
  | _, (none, log) => reports log
  | (some offset, _), (some length, _) => includeHobeta fnaam content offset length

/-! ### The documented range -/

/-- The part of a file of `n` bytes that the arguments ask for: where it starts, and its length. -/
def documentedRange (n : Nat) (offset length : Aint) : Int × Int :=
  let start := if offset.toInt < 0 then n + offset.toInt else offset.toInt
  (start,
    if length = intMax then n - start
    else if length.toInt < 0 then n - start + length.toInt
    else length.toInt)

/-- The range lies in a file of `n` bytes. -/
structure FileRange.Inside (range : FileRange) (n : Nat) : Prop where
  offset_nonneg : 0 ≤ range.offset.toInt
  length_nonneg : 0 ≤ range.length.toInt
  le_length : range.offset.toInt + range.length.toInt ≤ n

/-- What `BinIncFile` is to do with its arguments, for a file of `n` bytes: the range that it uses lies
in the file, and it is the documented one unless there is an error. -/
def RangeDocumented (file : Text) (n : Nat) (offset length : Aint) : Prop :=
  let r := binIncArguments file (BitVec.ofNat 32 n) offset length
  ∀ range, r.1 = some range → range.Inside n ∧
    ((range.offset.toInt, range.length.toInt) = documentedRange n offset length ∨
      ∃ e ∈ r.2, e.isErrorCall)

/-- What `BinIncFile` is to do with a file: the range is as `RangeDocumented` says, and in the last pass
exactly the bytes in the range are written. -/
structure IncludesSlice (file : Text) (content : List Byte) (offset length : Aint) : Prop where
  range : RangeDocumented file content.length offset length
  data : ∀ range,
    (binIncArguments file (BitVec.ofNat 32 content.length) offset length).1 = some range →
      range.Inside content.length → ∀ (n m : Nat) (s : EmitState n m), s.pass = lastPass →
        ∃ t, (binIncFile file (some content) offset length).exec s = (some ⟨⟩, t) ∧
          t.output = s.output ++ range.data content

/-- The arguments do not wrap around into a range that passes the validation; `totlen` is the length of
the file, cut down to 32 bits. -/
def ArgumentsFit (n : Nat) (offset length : Aint) : Prop :=
  let totlen := (n : Int).bmod (2 ^ 32)
  let start := if offset.toInt < 0 then offset.toInt + totlen else offset.toInt
  let rest := totlen - start + length.toInt
  totlen < 0 ∨ start < 0 ∨
    if length = intMax then totlen < start ∨ n = totlen
    else if 0 ≤ length.toInt then
      (start + length.toInt ≤ n ∧ (0 ≤ offset.toInt ∨ n = totlen)) ∨
        (totlen < start + length.toInt ∧ start + length.toInt < 2 ^ 31)
    else
      (-2 ^ 31 - 1 ≤ rest ∧ rest < 0) ∨ (0 ≤ rest ∧ n = totlen) ∨
        (rest < -2 ^ 31 - 1 ∧ 0 ≤ offset.toInt ∧ n = totlen + 2 ^ 32)

/-! ### Sums of 32 bits -/

/-- A sum wraps around at most once. -/
theorem exists_toInt_add (a b : Aint) : ∃ k : Int, (a + b).toInt = a.toInt + b.toInt + 2 ^ 32 * k :=
  ⟨-(a.toInt + b.toInt).bdiv (2 ^ 32), by rw [BitVec.toInt_add, Int.bmod_eq_self_sub_mul_bdiv]; omega⟩

theorem exists_toInt_sub (a b : Aint) : ∃ k : Int, (a - b).toInt = a.toInt - b.toInt + 2 ^ 32 * k :=
  ⟨-(a.toInt - b.toInt).bdiv (2 ^ 32), by rw [BitVec.toInt_sub, Int.bmod_eq_self_sub_mul_bdiv]; omega⟩

theorem toInt_bounds (a : Aint) : -2 ^ 31 ≤ a.toInt ∧ a.toInt < 2 ^ 31 :=
  ⟨BitVec.le_toInt a, BitVec.toInt_lt⟩

/-- A clamped value lies between the limits. -/
theorem toInt_clamp (v : Aint) {low high : Aint} (h : low.toInt ≤ high.toInt) :
    low.toInt ≤ (clamp v low high).toInt ∧ (clamp v low high).toInt ≤ high.toInt := by
  unfold clamp
  simp only [BitVec.slt_eq_decide, decide_eq_true_eq]
  split_ifs <;> omega

theorem toInt_zero_aint : (0 : Aint).toInt = 0 := rfl

theorem slt_zero_iff (a : Aint) : a.slt 0 = true ↔ a.toInt < 0 := by
  rw [BitVec.slt_iff_toInt_lt, toInt_zero_aint]

theorem eq_intMax_iff (a : Aint) : a = intMax ↔ a.toInt = 2 ^ 31 - 1 := by
  rw [← BitVec.toInt_inj]
  rfl

/-- The length of the file, cut down to 32 bits. -/
theorem toInt_totlen (n : Nat) : (BitVec.ofNat 32 n : Aint).toInt = (n : Int).bmod (2 ^ 32) :=
  BitVec.toInt_ofNat' ..

theorem exists_totlen (n : Nat) : ∃ k : Int, (n : Int) = (n : Int).bmod (2 ^ 32) + 2 ^ 32 * k :=
  ⟨(n : Int).bdiv (2 ^ 32), (Int.bmod_add_bdiv _ _).symm⟩

/-! ### The processed arguments -/

variable {totlen offset length start : Aint}

theorem toInt_processOffset (htotlen : 0 ≤ totlen.toInt) :
    (processOffset totlen offset).toInt
      = if offset.toInt < 0 then offset.toInt + totlen.toInt else offset.toInt := by
  have := toInt_bounds offset
  have := toInt_bounds totlen
  unfold processOffset
  simp only [slt_zero_iff]
  split_ifs with h
  · exact toInt_add_of_fits (by omega) (by omega)
  · rfl

/-- The rest of the file behind an offset. -/
theorem toInt_rest (htotlen : 0 ≤ totlen.toInt) (hstart : 0 ≤ start.toInt) :
    (totlen - start).toInt = totlen.toInt - start.toInt := by
  have := toInt_bounds start
  have := toInt_bounds totlen
  rw [BitVec.toInt_sub, Int.bmod_eq_of_le (by omega) (by omega)]

/-- A processed length: a negative one may wrap around, and then it may look like the default. -/
theorem toInt_processLength (start length : Aint) (htotlen : 0 ≤ totlen.toInt)
    (hstart : 0 ≤ start.toInt) :
    (processLength totlen start length).toInt =
      let rest := totlen.toInt - start.toInt
      if length = intMax then rest
      else if 0 ≤ length.toInt then length.toInt
      else if rest + length.toInt = -2 ^ 31 - 1 then rest
      else if rest + length.toInt < -2 ^ 31 then rest + length.toInt + 2 ^ 32
      else rest + length.toInt := by
  have hbounds := toInt_bounds length
  have := toInt_bounds start
  have := toInt_bounds totlen
  have hrest := toInt_rest htotlen hstart
  obtain ⟨k, hk⟩ := exists_toInt_add length (totlen - start)
  have := toInt_bounds (length + (totlen - start))
  unfold processLength
  simp only [slt_zero_iff, eq_intMax_iff]
  split_ifs <;> omega

/-- The validation rejects the range. -/
def TooShort (totlen : Aint) (range : FileRange) : Prop :=
  range.offset.toInt < 0 ∨ range.length.toInt < 0 ∨
    totlen.toInt < (range.offset + range.length).toInt

instance (totlen : Aint) (range : FileRange) : Decidable (TooShort totlen range) :=
  inferInstanceAs (Decidable (_ ∨ _))

/-- The range behind the processing of the arguments. -/
def processed (totlen offset length : Aint) : FileRange :=
  ⟨processOffset totlen offset, processLength totlen (processOffset totlen offset) length⟩

/-- The range that an invalid one is clamped to. -/
def FileRange.clamped (totlen : Aint) (range : FileRange) : FileRange :=
  ⟨clamp range.offset 0 totlen, clamp range.length 0 (totlen - clamp range.offset 0 totlen)⟩

theorem binIncArguments_eq (file : Text) (htotlen : 0 ≤ totlen.toInt) :
    binIncArguments file totlen offset length =
      if TooShort totlen (processed totlen offset length) then
        (some ((processed totlen offset length).clamped totlen),
          [.error "file too short" (some file) .pass3])
      else (some (processed totlen offset length), []) := by
  unfold binIncArguments
  rw [if_neg (by rw [slt_zero_iff]; omega)]
  simp only [Bool.or_eq_true, BitVec.slt_iff_toInt_lt, or_assoc]
  rfl

/-- A clamped offset leaves a rest of the file. -/
theorem toInt_clampedRest (htotlen : 0 ≤ totlen.toInt) (v : Aint) :
    0 ≤ (clamp v 0 totlen).toInt ∧
      (totlen - clamp v 0 totlen).toInt = totlen.toInt - (clamp v 0 totlen).toInt ∧
      0 ≤ (totlen - clamp v 0 totlen).toInt := by
  obtain ⟨hlow, hhigh⟩ := toInt_clamp v (toInt_zero_aint.trans_le htotlen)
  rw [toInt_zero_aint] at hlow
  have hrest := toInt_rest htotlen hlow
  exact ⟨hlow, hrest, by omega⟩

/-- A clamped range lies in the file. -/
theorem inside_clamped {n : Nat} (htotlen : 0 ≤ totlen.toInt) (hn : totlen.toInt ≤ n)
    (range : FileRange) :
    (range.clamped totlen).Inside n := by
  obtain ⟨hlow, hrest, hpos⟩ := toInt_clampedRest htotlen range.offset
  obtain ⟨hlow', hhigh'⟩ := toInt_clamp range.length (toInt_zero_aint.trans_le hpos)
  rw [toInt_zero_aint] at hlow'
  constructor
  · exact hlow
  · exact hlow'
  · dsimp only [FileRange.clamped]
    omega

/-- What the validation rejects is reported, so the rest is to be the documented range. -/
theorem rangeDocumented_iff (file : Text) (n : Nat) (offset length : Aint) :
    RangeDocumented file n offset length ↔
      (n : Int).bmod (2 ^ 32) < 0 ∨
      let range := processed (BitVec.ofNat 32 n) offset length
      TooShort (BitVec.ofNat 32 n) range ∨
        range.Inside n ∧
          (range.offset.toInt, range.length.toInt) = documentedRange n offset length := by
  rw [← toInt_totlen]
  obtain ⟨k, hk⟩ := exists_totlen n
  rw [← toInt_totlen] at hk
  unfold RangeDocumented
  generalize (BitVec.ofNat 32 n : Aint) = totlen at hk ⊢
  have := toInt_bounds totlen
  -- a length of the file that does not fit is fatal ahead of the arguments
  by_cases htotlen : totlen.toInt < 0
  · have hfatal : (binIncArguments file totlen offset length).1 = none := by
      unfold binIncArguments
      rw [if_pos ((slt_zero_iff totlen).mpr htotlen)]
    simp [htotlen, hfatal]
  · rw [binIncArguments_eq file (by omega)]
    dsimp only
    -- what is too short is reported and cut to the file
    by_cases hshort : TooShort totlen (processed totlen offset length)
    · simp only [hshort, htotlen, if_true, true_or, or_true, iff_true]
      rintro range hrange
      rw [← Option.some.inj hrange]
      exact ⟨inside_clamped (by omega) (by omega) _, Or.inr ⟨_, List.mem_singleton_self _, rfl⟩⟩
    · simp [hshort, htotlen]

/-- The range that `BinIncFile` uses is as documented if and only if the arguments do not wrap around. -/
theorem rangeDocumented_iff_fit (file : Text) (n : Nat) (offset length : Aint) :
    RangeDocumented file n offset length ↔ ArgumentsFit n offset length := by
  rw [rangeDocumented_iff]
  unfold ArgumentsFit
  have htotlen := toInt_totlen n
  obtain ⟨k, hk⟩ := exists_totlen n
  generalize (BitVec.ofNat 32 n : Aint) = totlen at htotlen ⊢
  generalize (n : Int).bmod (2 ^ 32) = t at htotlen hk ⊢
  apply or_congr_right'
  intro hnonneg
  have hpos : 0 ≤ totlen.toInt := by omega
  have hstart : (processOffset totlen offset).toInt = _ := toInt_processOffset hpos
  rw [htotlen] at hstart
  dsimp only
  rw [← hstart]
  -- an offset in front of the file is reported; from here on it is inside
  by_cases hfront : (processOffset totlen offset).toInt < 0
  · simp [TooShort, processed, hfront]
  · have hlen : (processLength totlen (processOffset totlen offset) length).toInt = _ :=
      toInt_processLength _ length hpos (Int.not_lt.mp hfront)
    obtain ⟨j, hj⟩ := exists_toInt_add (processOffset totlen offset)
      (processLength totlen (processOffset totlen offset) length)
    have := toInt_bounds (processOffset totlen offset
      + processLength totlen (processOffset totlen offset) length)
    have := toInt_bounds (processOffset totlen offset)
    have := toInt_bounds (processLength totlen (processOffset totlen offset) length)
    have := toInt_bounds length
    have := toInt_bounds totlen
    have hinside : (processed totlen offset length).Inside n ↔
        0 ≤ (processOffset totlen offset).toInt ∧
          0 ≤ (processLength totlen (processOffset totlen offset) length).toInt ∧
          (processOffset totlen offset).toInt
            + (processLength totlen (processOffset totlen offset) length).toInt ≤ n :=
      ⟨fun ⟨h1, h2, h3⟩ => ⟨h1, h2, h3⟩, fun ⟨h1, h2, h3⟩ => ⟨h1, h2, h3⟩⟩
    rw [hinside]
    simp only [TooShort, processed, documentedRange, Prod.mk.injEq, hfront, false_or]
    rw [htotlen] at hlen
    simp only [eq_intMax_iff] at hlen ⊢
    -- with the sums as numbers, their wraps are the only cases left
    generalize (processLength totlen (processOffset totlen offset) length).toInt = L at *
    generalize (processOffset totlen offset).toInt = O at *
    split_ifs at hlen hstart ⊢ <;> omega

/-! ### The bytes -/

namespace EmitState

@[simp] theorem output_checkPage (level : CheckPageLevel) (device : Device n m) (s : EmitState n m) :
    (s.checkPage level device).output = s.output := by
  unfold checkPage wrapDisplaced report
  split_ifs <;> rfl

@[simp] theorem pass_checkPage (level : CheckPageLevel) (device : Device n m) (s : EmitState n m) :
    (s.checkPage level device).pass = s.pass := by
  unfold checkPage wrapDisplaced report
  split_ifs <;> rfl

@[simp] theorem output_checkRamLimitExceeded (s : EmitState n m) :
    s.checkRamLimitExceeded.output = s.output := by
  unfold checkRamLimitExceeded checkAdrdisp checkCurAddress
  split_ifs <;> rfl

@[simp] theorem pass_checkRamLimitExceeded (s : EmitState n m) :
    s.checkRamLimitExceeded.pass = s.pass := by
  unfold checkRamLimitExceeded checkAdrdisp checkCurAddress
  split_ifs <;> rfl

theorem output_placeByte (byte : Byte) (preserve : Bool) (s : EmitState n m) :
    (s.placeByte byte preserve).output = s.output ∧ (s.placeByte byte preserve).pass = s.pass := by
  unfold placeByte
  cases s.device <;> simp

/-- In the last pass, an emitted byte is written. -/
theorem output_emitByteNoListing (byte : Byte) (preserve : Bool) {s : EmitState n m}
    (hs : s.pass = lastPass) :
    (s.emitByteNoListing byte preserve).output = s.output ++ [byte] ∧
      (s.emitByteNoListing byte preserve).pass = lastPass := by
  unfold emitByteNoListing advance
  rw [if_pos hs]
  obtain ⟨houtput, hpass⟩ := output_placeByte byte preserve { s with output := s.output ++ [byte] }
  exact ⟨houtput, hpass.trans hs⟩

theorem output_emitData (data : List Byte) {s : EmitState n m} (hs : s.pass = lastPass) :
    (s.emitData data).output = s.output ++ data := by
  induction data generalizing s with
  | nil => exact (List.append_nil _).symm
  | cons byte data ih =>
    obtain ⟨houtput, hpass⟩ := output_emitByteNoListing byte false hs
    change ((s.emitByteNoListing byte false).emitData data).output = _
    rw [ih hpass, houtput, List.append_assoc, List.singleton_append]

end EmitState

/-- A range in the file is read to its end. -/
theorem length_data {range : FileRange} {content : List Byte} (h : range.Inside content.length) :
    (range.data content).length = range.length.toNat := by
  have hoffset := toNat_of_nonneg h.offset_nonneg
  have hlength := toNat_of_nonneg h.length_nonneg
  have := h.le_length
  rw [FileRange.data, List.length_take, List.length_drop]
  omega

/-- In the last pass, the bytes in a range of the file are written. -/
theorem exec_includeData (file : Text) {content : List Byte} {range : FileRange}
    (h : range.Inside content.length) {s : EmitState n m} (hs : s.pass = lastPass) :
    (includeData file content range).exec s = (some ⟨⟩, s.emitData (range.data content)) := by
  rw [includeData, Program.exec_bind_of_some (Program.exec_get s), if_neg (not_not.mpr hs),
    if_neg (not_not.mpr (length_data h))]
  rfl

@[simp] theorem exec_reports (l : List Event) (s : EmitState n m) :
    (reports l : Program (EmitState n m) PUnit).exec s = (some ⟨⟩, s.report l) :=
  rfl

/-- `BinIncFile` with a file that can be opened, behind its arguments. -/
theorem exec_binIncFile (file : Text) (content : List Byte) (offset length : Aint)
    (s : EmitState n m) :
    (binIncFile file (some content) offset length).exec s =
      let r := binIncArguments file (BitVec.ofNat 32 content.length) offset length
      (includeRange file content r.1).exec (s.report r.2) := by
  have hopened : s.report [] = s := by simp [EmitState.report]
  rw [binIncFile, Program.exec_bind_of_some (exec_reports _ s), Option.isNone_some,
    if_neg Bool.false_ne_true, hopened]
  exact Program.exec_bind_of_some (exec_reports _ s)

/-- In the last pass, the bytes of a range in the file are written. -/
theorem exec_includeRange (file : Text) {content : List Byte} {range : FileRange}
    (h : range.Inside content.length) {s : EmitState n m} (hs : s.pass = lastPass) :
    ∃ t, (includeRange file content (some range)).exec s = (some ⟨⟩, t) ∧
      t.output = s.output ++ range.data content := by
  rw [includeRange]
  by_cases hzero : range.length = 0
  · refine ⟨_, by rw [if_pos hzero]; rfl, ?_⟩
    simp [EmitState.report, FileRange.data, hzero]
  · rw [if_neg hzero]
    exact ⟨_, exec_includeData file h hs, EmitState.output_emitData _ hs⟩

/-- **The range of `INCBIN`.**  For every file and all arguments, `BinIncFile` uses a range of the file,
and the documented one unless there is an error, if and only if the arguments do not wrap around. -/
theorem binIncFile_documented_iff (file : Text) (content : List Byte) (offset length : Aint) :
    IncludesSlice file content offset length ↔ ArgumentsFit content.length offset length := by
  rw [← rangeDocumented_iff_fit file]
  constructor
  · exact IncludesSlice.range
  · intro h
    refine ⟨h, ?_⟩
    rintro range hrange hinside n m s hs
    rw [exec_binIncFile]
    dsimp only
    rw [hrange]
    exact exec_includeRange file hinside hs

/-- `INCBIN` with operands that can be evaluated: one that is left out has its default. -/
theorem dirINCBIN_eq (bp fnaam : Text) (content : Option (List Byte)) (offset length : Option Aint) :
    (dirINCBIN bp fnaam content (offset.map some) (length.map some) : Program (EmitState n m) PUnit)
      = binIncFile fnaam content (offset.getD 0) (length.getD intMax) := by
  cases offset <;> cases length <;> rfl

/-- `INCBIN` writes a part of the file, and unless it reports an error, the one that its operands ask for,
when these do not wrap around. -/
theorem exec_dirINCBIN (bp fnaam : Text) {content : List Byte} {offset length : Option Aint}
    (hfit : ArgumentsFit content.length (offset.getD 0) (length.getD intMax)) {s : EmitState n m}
    (hs : s.pass = lastPass) {range : FileRange} {log : List Event}
    (hrange : binIncArguments fnaam (BitVec.ofNat 32 content.length) (offset.getD 0)
      (length.getD intMax) = (some range, log)) :
    ((range.offset.toInt, range.length.toInt)
        = documentedRange content.length (offset.getD 0) (length.getD intMax) ∨
      ∃ e ∈ log, e.isErrorCall) ∧
    ∃ t, (dirINCBIN bp fnaam (some content) (offset.map some) (length.map some)).exec s = (some ⟨⟩, t) ∧
      t.output = s.output ++ range.data content := by
  have hdocumented := (rangeDocumented_iff_fit fnaam _ _ _).mpr hfit
  rw [RangeDocumented, hrange] at hdocumented
  obtain ⟨hinside, hpart⟩ := hdocumented range rfl
  refine ⟨hpart, ?_⟩
  rw [dirINCBIN_eq, exec_binIncFile, hrange]
  exact exec_includeRange fnaam hinside hs

/-- For a file of less than 2 GiB, the arguments fit unless an explicit length leads behind `INT_MAX`, or
a negative length is that much longer than the rest of the file. -/
theorem argumentsFit_of_lt {n : Nat} (hn : n < 2 ^ 31) (offset length : Aint) :
    ArgumentsFit n offset length ↔
      let start := (documentedRange n offset length).1
      start < 0 ∨ length = intMax ∨
        (0 ≤ length.toInt ∧ start + length.toInt < 2 ^ 31) ∨
        (length.toInt < 0 ∧ -2 ^ 31 - 1 ≤ n - start + length.toInt) := by
  have htotlen : (n : Int).bmod (2 ^ 32) = n := Int.bmod_eq_of_le (by omega) (by omega)
  have := toInt_bounds offset
  have := toInt_bounds length
  unfold ArgumentsFit documentedRange
  dsimp only
  rw [htotlen]
  simp only [eq_intMax_iff]
  by_cases hmax : length.toInt = 2 ^ 31 - 1
  · simp only [hmax, if_true, true_or, or_true]
  · simp only [hmax, if_false, false_or, or_true, and_true]
    split_ifs <;> omega

/-- An offset and a length whose sum is behind `INT_MAX` pass the validation. -/
theorem not_includesSlice :
    ¬ ∀ (file : Text) (content : List Byte) (offset length : Aint),
      IncludesSlice file content offset length := by
  intro h
  have hrange : (binIncArguments [] (BitVec.ofNat 32 20) 10 0x7FFFFFFE).1 = some ⟨10, 0x7FFFFFFE⟩ := by
    decide
  obtain ⟨hinside, -⟩ := (h [] (List.replicate 20 0) 10 0x7FFFFFFE).range _
    ((congrArg (fun n => (binIncArguments [] (BitVec.ofNat 32 n) 10 0x7FFFFFFE).1)
      List.length_replicate).trans hrange)
  exact absurd hinside.le_length (by decide)

/-! ### Hobeta files -/

/-- A Hobeta file: the header of 17 bytes, and then as many sectors as the header says, with room for the
logical length. -/
structure IsHobeta (file : List Byte) : Prop where
  length_eq : file.length = 17 + 256 * byteAt file 14
  payload : wordAt file 11 ≤ 256 * byteAt file 14

/-- What `INCHOB` is to do with an offset and no length: it includes the payload from the offset up to the
logical length, and reports an offset behind it without including anything. -/
structure IncludesPayload (bp fnaam : Text) (file : List Byte) (offset : Aint) (s : EmitState n m) : Prop
    where
  included : offset.toInt ≤ wordAt file 11 →
    ∃ t, (dirINCHOB bp fnaam (some file) (some (some offset)) none).exec s = (some ⟨⟩, t) ∧
      t.output
        = s.output ++ ((file.drop 17).drop offset.toNat).take (wordAt file 11 - offset.toNat)
  rejected : wordAt file 11 < offset.toInt →
    ((dirINCHOB bp fnaam (some file) (some (some offset)) none).final s).output = s.output ∧
      ∃ e ∈ ((dirINCHOB bp fnaam (some file) (some (some offset)) none).final s).log.drop s.log.length,
        e.isErrorCall

/-- With the header in front, an offset that is accepted does not count from the end of the file. -/
def PayloadOffset (file : List Byte) (offset : Aint) : Prop :=
  offset.toInt ≤ wordAt file 11 ∨
    (offset.toInt + 17 < 2 ^ 31 ∧ file.length - 17 + wordAt file 11 < 2 * offset.toInt) ∨
    (2 ^ 31 ≤ offset.toInt + 17 ∧ wordAt file 11 + 2 ^ 32 - 17 ≤ 2 * offset.toInt)

theorem wordAt_lt (file : List Byte) (i : Nat) : wordAt file i < 65536 := by
  unfold wordAt byteAt
  omega

variable {file : List Byte}

/-- An accepted offset and the length of the header reach `BinIncFile`. -/
theorem dirINCHOB_eq (bp fnaam : Text) (hfile : IsHobeta file) (hoffset : 0 ≤ offset.toInt) :
    (dirINCHOB bp fnaam (some file) (some (some offset)) none : Program (EmitState n m) PUnit)
      = binIncFile fnaam (some file) (offset + 17) (BitVec.ofNat 32 (wordAt file 11) - offset) := by
  have haccepted : inchobOperand bp (some (some offset)) 0 = (some offset, []) :=
    if_neg (by rw [slt_zero_iff]; omega)
  have hheader : ¬ file.length < 13 := by
    have := hfile.length_eq
    omega
  rw [dirINCHOB, haccepted]
  change includeHobeta fnaam (some file) offset (-1) = _
  simp only [includeHobeta]
  rw [if_neg hheader, if_pos trivial]

/-- The default length: what is left of the payload. -/
theorem toInt_defaultLength (file : List Byte) (hoffset : 0 ≤ offset.toInt) :
    (BitVec.ofNat 32 (wordAt file 11) - offset).toInt = wordAt file 11 - offset.toInt := by
  have hword := wordAt_lt file 11
  have := toInt_bounds offset
  rw [toInt_rest _ hoffset, toInt_ofNat_of_lt (by omega)]
  rw [toInt_ofNat_of_lt (by omega)]
  omega

theorem length_hobeta_lt (hfile : IsHobeta file) : file.length < 2 ^ 17 := by
  have := hfile.length_eq
  have : byteAt file 14 < 256 := (file.getD 14 0).isLt
  omega

/-- The range of `INCHOB`, as `BinIncFile` processes its arguments. -/
def hobetaRange (file : List Byte) (offset : Aint) : FileRange :=
  processed (BitVec.ofNat 32 file.length) (offset + 17) (BitVec.ofNat 32 (wordAt file 11) - offset)

/-- The run of `INCHOB` behind the arguments of `BinIncFile`, which always leave a range. -/
theorem exec_dirINCHOB (bp fnaam : Text) (hfile : IsHobeta file) (hoffset : 0 ≤ offset.toInt)
    (s : EmitState n m) :
    (dirINCHOB bp fnaam (some file) (some (some offset)) none).exec s =
      if TooShort (BitVec.ofNat 32 file.length) (hobetaRange file offset) then
        (includeRange fnaam file
          (some ((hobetaRange file offset).clamped (BitVec.ofNat 32 file.length)))).exec
          (s.report [.error "file too short" (some fnaam) .pass3])
      else (includeRange fnaam file (some (hobetaRange file offset))).exec s := by
  have hlength := length_hobeta_lt hfile
  have hnil : s.report [] = s := by simp [EmitState.report]
  rw [hobetaRange, dirINCHOB_eq bp fnaam hfile hoffset, exec_binIncFile,
    binIncArguments_eq fnaam (by rw [toInt_ofNat_of_lt (by omega)]; omega)]
  split_ifs with hshort
  · rfl
  · exact congrArg (includeRange fnaam file (some (hobetaRange file offset))).exec hnil

theorem toInt_fileLength (hfile : IsHobeta file) :
    (BitVec.ofNat 32 file.length : Aint).toInt = file.length :=
  toInt_ofNat_of_lt (by have := length_hobeta_lt hfile; omega)

theorem toInt_hobetaOffset (hfile : IsHobeta file) (hoffset : 0 ≤ offset.toInt)
    (hheader : offset.toInt + 17 < 2 ^ 31) :
    (hobetaRange file offset).offset.toInt = offset.toInt + 17 := by
  have hshift : (offset + 17).toInt = offset.toInt + 17 :=
    toInt_add_of_fits (b := 17) (by change -2 ^ 31 ≤ offset.toInt + 17; omega) hheader
  rw [hobetaRange, processed, toInt_processOffset (by rw [toInt_fileLength hfile]; omega), hshift,
    if_neg (by omega)]

/-- The length of the range: behind the payload it counts from the end of the file, and may wrap. -/
theorem toInt_hobetaLength (hfile : IsHobeta file) (hoffset : 0 ≤ offset.toInt)
    (hheader : offset.toInt + 17 < 2 ^ 31) :
    (hobetaRange file offset).length.toInt =
      let rest : Int := file.length - 17 + wordAt file 11 - 2 * offset.toInt
      if offset.toInt ≤ wordAt file 11 then wordAt file 11 - offset.toInt
      else if rest = -2 ^ 31 - 1 then file.length - 17 - offset.toInt
      else if rest < -2 ^ 31 then rest + 2 ^ 32
      else rest := by
  have hstart := toInt_hobetaOffset hfile hoffset hheader
  have hdefault := toInt_defaultLength file hoffset
  have hword := wordAt_lt file 11
  have hpos : 0 ≤ (hobetaRange file offset).offset.toInt := by omega
  -- the word of the header less the offset, which is negative behind the payload
  have hlen : (hobetaRange file offset).length.toInt = _ :=
    toInt_processLength (hobetaRange file offset).offset (BitVec.ofNat 32 (wordAt file 11) - offset)
      (by rw [toInt_fileLength hfile]; omega) hpos
  rw [toInt_fileLength hfile] at hlen
  simp only [eq_intMax_iff, hdefault] at hlen
  rw [hlen]
  dsimp only
  split_ifs <;> omega

/-- Where the offset wraps around with the header, the range starts in front of the file. -/
theorem toInt_hobetaRange_of_wrap (hfile : IsHobeta file) (hoffset : 0 ≤ offset.toInt)
    (hheader : 2 ^ 31 ≤ offset.toInt + 17) :
    (hobetaRange file offset).offset.toInt < 0 ∧
      (hobetaRange file offset).length.toInt
        = wordAt file 11 + 2 ^ 32 - 17 - 2 * offset.toInt := by
  have hsmall := length_hobeta_lt hfile
  have hword := wordAt_lt file 11
  have hbounds := toInt_bounds offset
  have hdefault := toInt_defaultLength file hoffset
  have htotlen := toInt_fileLength hfile
  obtain ⟨j, hj⟩ := exists_toInt_add offset 17
  rw [show (17 : Aint).toInt = 17 from rfl] at hj
  have hshift := toInt_bounds (offset + 17)
  -- the offset with the header is negative, and so counts from the end of the file
  have hstart : (hobetaRange file offset).offset.toInt = _ :=
    toInt_processOffset (by rw [htotlen]; omega)
  rw [htotlen, if_pos (by omega)] at hstart
  obtain ⟨k, hk⟩ := exists_toInt_sub (BitVec.ofNat 32 file.length) (hobetaRange file offset).offset
  obtain ⟨l, hl⟩ := exists_toInt_add (BitVec.ofNat 32 (wordAt file 11) - offset)
    (BitVec.ofNat 32 file.length - (hobetaRange file offset).offset)
  have hrest := toInt_bounds (BitVec.ofNat 32 file.length - (hobetaRange file offset).offset)
  have hsum := toInt_bounds ((BitVec.ofNat 32 (wordAt file 11) - offset)
    + (BitVec.ofNat 32 file.length - (hobetaRange file offset).offset))
  -- the start, and the length, which wraps as well
  constructor
  · omega
  · change (processLength (BitVec.ofNat 32 file.length) (hobetaRange file offset).offset
      (BitVec.ofNat 32 (wordAt file 11) - offset)).toInt = _
    unfold processLength
    simp only [slt_zero_iff, eq_intMax_iff]
    split_ifs <;> omega

/-! ### What `INCHOB` includes -/

/-- A range of no bytes only gets a warning. -/
theorem exec_includeRange_zero (fnaam : Text) (content : List Byte) {range : FileRange}
    (h : range.length = 0) (s : EmitState n m) :
    (includeRange fnaam content (some range)).exec s = (some ⟨⟩, s.report
      [.warning "include data: requested to include no data (length=0)" none .pass3]) := by
  rw [includeRange, if_pos h]
  rfl

/-- A range that is longer than the file is a fatal error. -/
theorem exec_includeRange_fatal (fnaam : Text) {content : List Byte} {range : FileRange}
    (h : content.length < range.length.toNat) {s : EmitState n m} (hs : s.pass = lastPass) :
    (includeRange fnaam content (some range)).exec s
      = (none, s.report [.error "reading data from file failed" (some fnaam) .fatal]) := by
  have hzero : range.length ≠ 0 := by
    intro hzero
    rw [hzero] at h
    exact Nat.not_lt_zero _ h
  have hshort : (range.data content).length ≠ range.length.toNat := by
    rw [FileRange.data, List.length_take, List.length_drop]
    omega
  rw [includeRange, if_neg hzero, includeData, Program.exec_bind_of_some (Program.exec_get s),
    if_neg (not_not.mpr hs), if_pos hshort]
  rfl

/-- A negative length is clamped to nothing. -/
theorem clamp_of_nonpos {v high : Aint} (hv : v.toInt ≤ 0) (hhigh : 0 ≤ high.toInt) :
    clamp v 0 high = 0 := by
  unfold clamp
  simp only [BitVec.slt_iff_toInt_lt]
  split_ifs with hneg hlarge
  · rfl
  · omega
  · exact BitVec.toInt_inj.mp ((Int.le_antisymm hv (Int.not_lt.mp hneg)).trans toInt_zero_aint.symm)

/-- Behind the payload, a range that does not pass the validation and has no positive length is
rejected. -/
theorem includesPayload_of_tooShort (bp fnaam : Text) (hfile : IsHobeta file)
    (hoffset : 0 ≤ offset.toInt)
    (hbehind : wordAt file 11 < offset.toInt) {s : EmitState n m}
    (hlength : (hobetaRange file offset).length.toInt ≤ 0)
    (hshort : TooShort (BitVec.ofNat 32 file.length) (hobetaRange file offset)) :
    IncludesPayload bp fnaam file offset s := by
  have htotlen := toInt_fileLength hfile
  have hexec : (dirINCHOB bp fnaam (some file) (some (some offset)) none).exec s = _ :=
    exec_dirINCHOB bp fnaam hfile hoffset s
  have hempty : ((hobetaRange file offset).clamped (BitVec.ofNat 32 file.length)).length = 0 :=
    clamp_of_nonpos hlength (toInt_clampedRest (by omega) _).2.2
  rw [if_pos hshort, exec_includeRange_zero _ _ hempty] at hexec
  constructor
  · intro hinside
    omega
  · intro _
    rw [Program.final, hexec]
    refine ⟨rfl, .error "file too short" (some fnaam) .pass3, ?_, rfl⟩
    simp [EmitState.report]

/-- A range in the file that is not empty is included, so an offset behind the payload is not
rejected. -/
theorem not_includesPayload_of_inside (bp fnaam : Text) (hbehind : wordAt file 11 < offset.toInt)
    {s t : EmitState n m} {range : FileRange}
    (hexec : (dirINCHOB bp fnaam (some file) (some (some offset)) none).exec s
      = (includeRange fnaam file (some range)).exec t)
    (hinside : range.Inside file.length) (hlength : 0 < range.length.toInt)
    (houtput : t.output = s.output) (ht : t.pass = lastPass) :
    ¬ IncludesPayload bp fnaam file offset s := by
  intro h
  obtain ⟨u, hu, hdata⟩ := exec_includeRange fnaam hinside ht
  have hkept := (h.rejected hbehind).1
  rw [Program.final, hexec, hu] at hkept
  have hlen := congrArg List.length (hdata.symm.trans hkept)
  rw [houtput, List.length_append, length_data hinside] at hlen
  have := toNat_of_nonneg (a := range.length) (by omega)
  omega

/-- An empty range is only a warning, so an offset behind the payload is not reported. -/
theorem not_includesPayload_of_zero (bp fnaam : Text) (hbehind : wordAt file 11 < offset.toInt)
    {s : EmitState n m} {range : FileRange} (hlength : range.length = 0)
    (hexec : (dirINCHOB bp fnaam (some file) (some (some offset)) none).exec s
      = (includeRange fnaam file (some range)).exec s) :
    ¬ IncludesPayload bp fnaam file offset s := by
  intro h
  obtain ⟨-, e, he, herror⟩ := h.rejected hbehind
  rw [Program.final, hexec, exec_includeRange_zero fnaam file hlength] at he
  simp only [EmitState.report, List.drop_left, List.mem_singleton] at he
  rw [he] at herror
  exact Bool.false_ne_true herror

/-- In front of the end of the payload, the rest of the payload is included. -/
theorem includesPayload_of_le (bp fnaam : Text) (hfile : IsHobeta file) (hoffset : 0 ≤ offset.toInt)
    (hpayload : offset.toInt ≤ wordAt file 11) {s : EmitState n m} (hs : s.pass = lastPass) :
    IncludesPayload bp fnaam file offset s := by
  have hroom := hfile.payload
  have hfilelen := hfile.length_eq
  have hword := wordAt_lt file 11
  have hstart := toInt_hobetaOffset hfile hoffset (by omega)
  have hlength := toInt_hobetaLength hfile hoffset (by omega)
  rw [if_pos hpayload] at hlength
  -- the payload is inside the file, and its end does not wrap
  have hinside : (hobetaRange file offset).Inside file.length := ⟨by omega, by omega, by omega⟩
  have hend : ¬ TooShort (BitVec.ofNat 32 file.length) (hobetaRange file offset) := by
    have hsum := toInt_add_of_fits (a := (hobetaRange file offset).offset)
      (b := (hobetaRange file offset).length) (by omega) (by omega)
    rw [TooShort, hsum, toInt_fileLength hfile]
    omega
  have hexec : (dirINCHOB bp fnaam (some file) (some (some offset)) none).exec s = _ :=
    exec_dirINCHOB bp fnaam hfile hoffset s
  rw [if_neg hend] at hexec
  constructor
  · intro _
    obtain ⟨t, ht, houtput⟩ := exec_includeRange fnaam hinside hs
    refine ⟨t, hexec.trans ht, houtput.trans ?_⟩
    have h1 := toNat_of_nonneg hinside.offset_nonneg
    have h2 := toNat_of_nonneg hinside.length_nonneg
    have h3 := toNat_of_nonneg hoffset
    rw [FileRange.data, List.drop_drop]
    congr <;> omega
  -- the case behind the payload is excluded
  · intro hbehind
    omega

/-- Behind the payload, with the end of the file in front of it: the length stays negative, or it wraps
around into one that is longer than the file. -/
theorem includesPayload_of_lt (bp fnaam : Text) (hfile : IsHobeta file) (hoffset : 0 ≤ offset.toInt)
    (hbehind : wordAt file 11 < offset.toInt) (hheader : offset.toInt + 17 < 2 ^ 31)
    (hrest : file.length - 17 + wordAt file 11 < 2 * offset.toInt) {s : EmitState n m}
    (hs : s.pass = lastPass) : IncludesPayload bp fnaam file offset s := by
  have hfilelen := hfile.length_eq
  have hroom := hfile.payload
  have hstart := toInt_hobetaOffset hfile hoffset hheader
  have hlength := toInt_hobetaLength hfile hoffset hheader
  have hbounds := toInt_bounds (hobetaRange file offset).length
  dsimp only at hlength
  rw [if_neg (by omega)] at hlength
  -- a negative length is reported as too short
  by_cases hneg : (hobetaRange file offset).length.toInt < 0
  · exact includesPayload_of_tooShort bp fnaam hfile hoffset hbehind hneg.le (Or.inr (Or.inl hneg))
  -- a wrapped length is longer than the file, but the sum with the offset wraps back
  have hlong : file.length < (hobetaRange file offset).length.toInt := by
    split_ifs at hlength <;> omega
  have hend : ¬ TooShort (BitVec.ofNat 32 file.length) (hobetaRange file offset) := by
    obtain ⟨k, hk⟩ := exists_toInt_add (hobetaRange file offset).offset (hobetaRange file offset).length
    have := toInt_bounds ((hobetaRange file offset).offset + (hobetaRange file offset).length)
    rw [TooShort, toInt_fileLength hfile]
    split_ifs at hlength <;> omega
  have hexec : (dirINCHOB bp fnaam (some file) (some (some offset)) none).exec s = _ :=
    exec_dirINCHOB bp fnaam hfile hoffset s
  have := toNat_of_nonneg (a := (hobetaRange file offset).length) (by omega)
  rw [if_neg hend, exec_includeRange_fatal fnaam (by omega) hs] at hexec
  constructor
  · intro hinside
    omega
  -- the read fails, which is fatal and emits nothing
  · intro _
    rw [Program.final, hexec]
    refine ⟨rfl, .error "reading data from file failed" (some fnaam) .fatal, ?_, rfl⟩
    simp [EmitState.report]

/-- Behind the payload, with a length that counts from the end of the file, the range is in the file. -/
theorem not_includesPayload_of_rest (bp fnaam : Text) (hfile : IsHobeta file)
    (hoffset : 0 ≤ offset.toInt)
    (hbehind : wordAt file 11 < offset.toInt) (hheader : offset.toInt + 17 < 2 ^ 31)
    (hrest : 2 * offset.toInt ≤ file.length - 17 + wordAt file 11) {s : EmitState n m}
    (hs : s.pass = lastPass) : ¬ IncludesPayload bp fnaam file offset s := by
  have hfilelen := hfile.length_eq
  have hsmall := length_hobeta_lt hfile
  have hstart := toInt_hobetaOffset hfile hoffset hheader
  have hlength := toInt_hobetaLength hfile hoffset hheader
  dsimp only at hlength
  rw [if_neg (by omega), if_neg (by omega), if_neg (by omega)] at hlength
  have hinside : (hobetaRange file offset).Inside file.length := ⟨by omega, by omega, by omega⟩
  have hend : ¬ TooShort (BitVec.ofNat 32 file.length) (hobetaRange file offset) := by
    have hsum := toInt_add_of_fits (a := (hobetaRange file offset).offset)
      (b := (hobetaRange file offset).length) (by omega) (by omega)
    rw [TooShort, hsum, toInt_fileLength hfile]
    omega
  have hexec : (dirINCHOB bp fnaam (some file) (some (some offset)) none).exec s = _ :=
    exec_dirINCHOB bp fnaam hfile hoffset s
  rw [if_neg hend] at hexec
  -- nothing is included without any report, or bytes that are not of the payload
  by_cases hzero : (hobetaRange file offset).length = 0
  · exact not_includesPayload_of_zero bp fnaam hbehind hzero hexec
  · have hnonzero : (hobetaRange file offset).length.toInt ≠ 0 := fun h =>
      hzero (BitVec.toInt_inj.mp (h.trans toInt_zero_aint.symm))
    exact not_includesPayload_of_inside bp fnaam hbehind hexec hinside (by omega) rfl hs

theorem toInt_clamp_pos {v high : Aint} (hv : 0 < v.toInt) (hhigh : 0 < high.toInt) :
    0 < (clamp v 0 high).toInt := by
  unfold clamp
  simp only [slt_zero_iff]
  split_ifs <;> omega

/-- Where the offset wraps around with the header, the range starts with the header, and its length wraps
around as well. -/
theorem includesPayload_iff_of_wrap (bp fnaam : Text) (hfile : IsHobeta file)
    (hoffset : 0 ≤ offset.toInt)
    (hheader : 2 ^ 31 ≤ offset.toInt + 17) {s : EmitState n m} (hs : s.pass = lastPass) :
    IncludesPayload bp fnaam file offset s ↔ wordAt file 11 + 2 ^ 32 - 17 ≤ 2 * offset.toInt := by
  have hfilelen := hfile.length_eq
  have hword := wordAt_lt file 11
  have htotlen := toInt_fileLength hfile
  obtain ⟨hstart, hlength⟩ := toInt_hobetaRange_of_wrap hfile hoffset hheader
  have hshort : TooShort (BitVec.ofNat 32 file.length) (hobetaRange file offset) := Or.inl hstart
  constructor
  · intro h
    by_contra hbefore
    have hexec : (dirINCHOB bp fnaam (some file) (some (some offset)) none).exec s = _ :=
      exec_dirINCHOB bp fnaam hfile hoffset s
    rw [if_pos hshort] at hexec
    have hinside := inside_clamped (n := file.length) (by omega) htotlen.le (hobetaRange file offset)
    -- the start is cut to the front of the file, so that the header is included
    have hzero : clamp (hobetaRange file offset).offset 0 (BitVec.ofNat 32 file.length) = 0 :=
      clamp_of_nonpos hstart.le (by omega)
    have hpos : 0 ≤ (BitVec.ofNat 32 file.length : Aint).toInt := by omega
    obtain ⟨-, hrest, -⟩ := toInt_clampedRest hpos (hobetaRange file offset).offset
    rw [hzero, toInt_zero_aint] at hrest
    have hlong : 0 < ((hobetaRange file offset).clamped (BitVec.ofNat 32 file.length)).length.toInt := by
      rw [FileRange.clamped, hzero]
      exact toInt_clamp_pos (by omega) (by omega)
    exact not_includesPayload_of_inside bp fnaam (by omega) hexec hinside hlong rfl hs h
  · intro hneg
    exact includesPayload_of_tooShort bp fnaam hfile hoffset (by omega) (by omega) hshort

/-- **The payload of `INCHOB`.**  For every Hobeta file and every accepted offset, the bytes included in
the last pass are the payload from the offset up to the logical length, and an offset behind that is
rejected, if and only if the negative length does not count from the end of the file. -/
theorem dirINCHOB_payload_iff (bp fnaam : Text) (hfile : IsHobeta file) (hoffset : 0 ≤ offset.toInt)
    {s : EmitState n m} (hs : s.pass = lastPass) :
    IncludesPayload bp fnaam file offset s ↔ PayloadOffset file offset := by
  have hword := wordAt_lt file 11
  unfold PayloadOffset
  by_cases hpayload : offset.toInt ≤ wordAt file 11
  · exact iff_of_true (includesPayload_of_le bp fnaam hfile hoffset hpayload hs) (Or.inl hpayload)
  by_cases hheader : offset.toInt + 17 < 2 ^ 31
  · by_cases hrest : file.length - 17 + wordAt file 11 < 2 * offset.toInt
    · exact iff_of_true (includesPayload_of_lt bp fnaam hfile hoffset (by omega) hheader hrest hs)
        (Or.inr (Or.inl ⟨hheader, hrest⟩))
    · apply iff_of_false
        (not_includesPayload_of_rest bp fnaam hfile hoffset (by omega) hheader (by omega) hs)
      rintro (h | ⟨-, h⟩ | ⟨h, -⟩) <;> omega
  · rw [includesPayload_iff_of_wrap bp fnaam hfile hoffset (by omega) hs]
    constructor
    · intro h
      exact Or.inr (Or.inr ⟨by omega, h⟩)
    · rintro (h | ⟨h, -⟩ | ⟨-, h⟩) <;> omega

/-- A Hobeta file with one sector, of which ten bytes are used. -/
def hobetaSample : List Byte :=
  List.replicate 11 0x41 ++ [10, 0, 0, 1, 0, 0] ++ List.replicate 256 0

theorem length_hobetaSample : hobetaSample.length = 273 := by
  simp only [hobetaSample, List.length_append, List.length_replicate, List.length_cons, List.length_nil]

theorem isHobeta_hobetaSample : IsHobeta hobetaSample :=
  ⟨length_hobetaSample.trans (by decide), by decide⟩

/-- A start in the last pass, without a device. -/
def lastPassStart : EmitState 0 0 where
  pass := lastPass
  isLongPtr := false
  device := none
  curAddress := 0
  adrdisp := 0
  pseudoORG := .none
  dispPageNum := labelPageUndefined
  relocationType := .off
  notWarnedCurAdr := true
  notWarnedDisp := true
  output := []
  log := []

/-- An offset in the payload. -/
theorem dirINCHOB_payload_hobetaSample :
    IsHobeta hobetaSample ∧ 0 ≤ (3 : Aint).toInt ∧ lastPassStart.pass = lastPass ∧
      (IncludesPayload [] [] hobetaSample 3 lastPassStart ↔ PayloadOffset hobetaSample 3) :=
  ⟨isHobeta_hobetaSample, by decide, rfl,
    dirINCHOB_payload_iff [] [] isHobeta_hobetaSample (by decide) rfl⟩

/-- Behind the ten bytes of the payload, the unused end of the sector is included. -/
theorem not_includesPayload_hobetaSample :
    ¬ ∀ (bp fnaam : Text) (file : List Byte), IsHobeta file → ∀ offset : Aint, 0 ≤ offset.toInt →
      ∀ (n m : Nat) (s : EmitState n m), s.pass = lastPass → IncludesPayload bp fnaam file offset s := by
  intro h
  have hsample := h [] [] hobetaSample isHobeta_hobetaSample 12 (by decide) 0 0 lastPassStart rfl
  have hword : wordAt hobetaSample 11 = 10 := by decide
  exact not_includesPayload_of_rest [] [] isHobeta_hobetaSample (by decide)
    (by rw [hword]; decide) (by decide) (by rw [hword, length_hobetaSample]; decide) rfl hsample

end Sjasmplus
