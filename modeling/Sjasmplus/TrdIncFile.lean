import Sjasmplus.IncludeBinary
import Sjasmplus.TrdPreservation

/-!
# Including a file of a TRD image (`TRD_PrepareIncFile` of `io_trd.cpp`)

The name is looked up in the catalogue, and the part of the file that is asked for becomes a part of
the image.

* `incFits_iff` — the requests that are taken: those inside the file, and those whose end does not fit
  32 bits.
* `exists_holds` — what the image has after a file was added.
* `trdPrepareIncFile_iff` — such a file is read back, but for the requests of the second kind.
-/

namespace Sjasmplus

open Areas Program TrdProgram

variable {n m : Nat}

/-! ### The request -/

/-- The first record in use with the name. -/
def findIncFile (trdFormName : STrdFile) (lname : Nat) : List STrdFile → Option STrdFile
  | [] => none
  | entry :: entries =>
    -- beyond the last record
    if !entry.inUse then none
    else if entry.sameName trdFormName lname then some entry
    else findIncFile trdFormName lname entries

namespace STrdFile

variable (entry : STrdFile) (offset length : Aint)

/-- The length that is asked for: to the end of the file by default. -/
def incLength : Aint := if length = intMax then entry.length.setWidth 32 - offset else length

/-- The place of the file, as `aint`. -/
def incOffset : Aint := BitVec.ofNat 32 entry.pos

/-- The request fits into the file. -/
def incFits : Bool :=
  (entry.incOffset.toInt ≤ (offset + entry.incOffset).toInt) ∧
    (offset + entry.incOffset + entry.incLength offset length).toInt
        ≤ (entry.incOffset + entry.length.setWidth 32).toInt ∧
      0 < (entry.incLength offset length).toInt

end STrdFile

/-- `TRD_PrepareIncFile`: the place in the image and the length, or it exits behind an error. -/
def trdPrepareIncFile (trd bp : Text) (filename : CString) (offset length : Aint) :
    TrdProgram (Aint × Aint) := do
  let name := trdFileNameToBytes filename
  match STrdHead.readFromFile (← get).image with
  | none => refuse "TRD image read error" (some trd) .ifFirst
  | some head =>
    match findIncFile (STrdFile.ofName name.binName) name.nameL head.catalog with
    | none => refuse "[INCTRD] File not found in TRD image" (some filename.text) .ifFirst
    | some entry =>
      if entry.incFits offset length then
        pure (offset + entry.incOffset, entry.incLength offset length)
      else
        refuse "[INCTRD] File too short to cover requested offset and length" (some bp) .ifFirst

/-! ### Requests inside the file -/

section

variable {entry : STrdFile} {offset length : Aint}

/-- The request is inside the file. -/
structure STrdFile.Covers (entry : STrdFile) (offset length : Aint) : Prop where
  low : 0 ≤ offset.toInt
  inside : if length = intMax then offset.toInt < entry.length.toNat
    else 0 < length.toInt ∧ offset.toInt + length.toInt ≤ entry.length.toNat

/-- The start of the request fits 32 bits, and its end does not. -/
structure Wraps (pos : Nat) (offset length : Aint) : Prop where
  given : length ≠ intMax
  low : 0 ≤ offset.toInt
  start : pos + offset.toInt < 2 ^ 31
  some : 0 < length.toInt
  wraps : 2 ^ 31 ≤ pos + offset.toInt + length.toInt

theorem toInt_length : (entry.length.setWidth 32 : Aint).toInt = entry.length.toNat := by
  have hlength := entry.length.isLt
  rw [BitVec.toInt_eq_toNat_of_lt, BitVec.toNat_setWidth, Nat.mod_eq_of_lt (by omega)]
  rw [BitVec.toNat_setWidth]
  omega

theorem toInt_incOffset (hpos : entry.pos < 0x1000000) : entry.incOffset.toInt = entry.pos := by
  rw [STrdFile.incOffset, BitVec.toInt_eq_toNat_of_lt, BitVec.toNat_ofNat,
    Nat.mod_eq_of_lt (by omega)]
  rw [BitVec.toNat_ofNat]
  omega

/-- Sums of `aint` wrap. -/
theorem bmod_int32 (x : Int) : x.bmod (2 ^ 32) = x - 2 ^ 32 * ((x + 2 ^ 31) / 2 ^ 32) := by
  rw [Int.bmod]
  split_ifs <;> omega

/-- A request is taken when it is inside the file, or when its end does not fit. -/
theorem incFits_iff (hpos : entry.pos < 0x1000000) : entry.incFits offset length = true ↔
    entry.Covers offset length ∨ Wraps entry.pos offset length := by
  have hoffset := toInt_bounds offset
  have hlength := entry.length.isLt
  have hfile : (entry.length.setWidth 32 : Aint).toInt = entry.length.toNat := toInt_length
  -- the end of the file does not wrap, the sums with the request may
  have hend : (entry.incOffset + entry.length.setWidth 32).toInt
      = entry.pos + entry.length.toNat := by
    rw [BitVec.toInt_add, toInt_incOffset hpos, hfile, Int.bmod_eq_of_le (by omega) (by omega)]
  have hstart : (offset + entry.incOffset).toInt = (offset.toInt + entry.pos).bmod (2 ^ 32) := by
    rw [BitVec.toInt_add, toInt_incOffset hpos]
  have hsum : ∀ l : Aint, (offset + entry.incOffset + l).toInt
      = ((offset.toInt + entry.pos).bmod (2 ^ 32) + l.toInt).bmod (2 ^ 32) := fun l => by
    rw [BitVec.toInt_add, hstart]
  rw [STrdFile.incFits, decide_eq_true_iff, hend, hsum, hstart, toInt_incOffset hpos,
    STrdFile.incLength]
  -- without a length the rest of the file is asked for, and nothing can wrap
  by_cases hdefault : length = intMax
  · rw [if_pos hdefault, BitVec.toInt_sub, hfile, bmod_int32, bmod_int32, bmod_int32]
    constructor
    · intro hfits
      refine .inl ⟨by omega, ?_⟩
      rw [if_pos hdefault]
      omega
    · rintro (⟨hlow, hinside⟩ | hwraps)
      · rw [if_pos hdefault] at hinside
        omega
      · exact absurd hdefault hwraps.given
  · have hgiven := toInt_bounds length
    rw [if_neg hdefault, bmod_int32, bmod_int32]
    constructor
    · intro hfits
      -- a sum below `2 ^ 31` is exact; the others come out negative and pass the check
      by_cases hend : entry.pos + offset.toInt + length.toInt < 2 ^ 31
      · refine .inl ⟨by omega, ?_⟩
        rw [if_neg hdefault]
        omega
      · exact .inr ⟨hdefault, by omega, by omega, by omega, by omega⟩
    · rintro (⟨hlow, hinside⟩ | ⟨-, hlow, hstart, hsome, hwraps⟩)
      · rw [if_neg hdefault] at hinside
        omega
      · omega

end

/-! ### A file that was just added -/

/-- The bytes of the memory that are asked for are at this place of the image. -/
structure IsPart (ram image : List Byte) (offset length place count : Aint) : Prop where
  low : 0 ≤ offset.toInt
  number : count.toInt = if length = intMax then ram.length - offset.toInt else length.toInt
  some : 0 < count.toInt
  inside : offset.toInt + count.toInt ≤ ram.length
  bytes : ∀ k < count.toInt.toNat, image[place.toInt.toNat + k]? = ram[offset.toInt.toNat + k]?

/-- A request is rejected with an error, or the answer is the place of the bytes of the memory. -/
def SelectsRAM (ram image : List Byte) (offset length : Aint)
    (r : Option (Aint × Aint) × TrdState) : Prop :=
  (r.1 = none ∧ ReportsError r.2) ∨
    ∃ place count, r.1 = some (place, count) ∧ IsPart ram image offset length place count

namespace TrdArguments

/-- The place of a new file in the image: behind all others, where the last one is erased if it is
replaced. -/
def place (a : TrdArguments) (head : STrdHead) : Nat :=
  (head.info.freeStart - ((a.erased head.used).map STrdFile.size).sum) * sectorSz

end TrdArguments

variable {a : TrdArguments} {t : TrdTarget} {head : STrdHead} {files rest : List STrdFile}
  {file : STrdFile} {first total : Nat} {image : List Byte} {offset length : Aint}

/-- The first record of the name is found. -/
theorem findIncFile_eq_some {trdFormName : STrdFile} {lname : Nat}
    (hfiles : ∀ f ∈ files, f.inUse = true ∧ f.sameName trdFormName lname = false)
    (huse : file.inUse = true) (hname : file.sameName trdFormName lname = true) :
    findIncFile trdFormName lname (files ++ file :: rest) = some file := by
  induction files with
  | nil =>
    rw [List.nil_append, findIncFile, huse, Bool.not_true, if_neg Bool.false_ne_true, if_pos hname]
  | cons f files ih =>
    rw [List.forall_mem_cons] at hfiles
    obtain ⟨⟨hf, hother⟩, htail⟩ := hfiles
    rw [List.cons_append, findIncFile, hf, hother, Bool.not_true, if_neg Bool.false_ne_true,
      if_neg Bool.false_ne_true]
    exact ih htail

theorem STrdFile.take_fullName (file : STrdFile) :
    file.fullName.take 9 = file.filename.toList ++ [file.ext] := by
  have hsplit : file.fullName
      = file.filename.toList ++ [file.ext] ++ [file.addressLo, file.addressHi] := by
    rw [fullName, List.append_assoc]
    rfl
  rw [hsplit, List.take_left' (by rw [List.length_append, Vector.length_toList]; rfl)]

/-- For a name with one letter behind the dot the writer and the reader compare the same bytes. -/
theorem sameName_ofName (hname : a.name.nameL = 9) (file : STrdFile) :
    file.sameName (STrdFile.ofName a.name.binName) a.name.nameL = a.same file := by
  have hlength : a.lname = 9 := by
    rw [TrdArguments.lname, hname]
    split_ifs <;> rfl
  have hbytes : a.trdf.fullName.take 9 = (STrdFile.ofName a.name.binName).fullName.take 9 := by
    rw [STrdFile.take_fullName, STrdFile.take_fullName, TrdArguments.trdf]
    dsimp only
    split_ifs <;> dsimp only
  rw [TrdArguments.same, hlength, hname, STrdFile.sameName, STrdFile.sameName, hbytes]

theorem length_trdf (hvars : a.lengthMinusVars = -1) : a.trdf.length = a.length.setWidth 16 := by
  have hno : ¬a.lengthMinusVars ≠ -1 := not_not.mpr hvars
  rw [TrdArguments.trdf]
  dsimp only
  split_ifs <;> dsimp only

/-- The answer, when the record is known. -/
theorem exec_trdPrepareIncFile {filename : CString} {entry : STrdFile} (trd bp : Text)
    (hread : STrdHead.readFromFile image = some head)
    (hfind : findIncFile (STrdFile.ofName (trdFileNameToBytes filename).binName)
      (trdFileNameToBytes filename).nameL head.catalog = some entry) :
    (trdPrepareIncFile trd bp filename offset length).exec ⟨image, []⟩
      = (if entry.incFits offset length then
          pure (offset + entry.incOffset, entry.incLength offset length)
        else refuse "[INCTRD] File too short to cover requested offset and length" (some bp)
          .ifFirst : TrdProgram (Aint × Aint)).exec ⟨image, []⟩ := by
  rw [trdPrepareIncFile, exec_bind_of_some (exec_get _), hread]
  dsimp only
  rw [hfind]

/-- The file is found in the image, with its bytes. -/
structure STrdFile.Holds (entry : STrdFile) (ram image : List Byte) : Prop where
  pos : entry.pos < 0x1000000
  length : entry.length.toNat = ram.length
  bytes : ∀ k b, ram[k]? = some b → image[entry.pos + k]? = some b

/-- The answer is right exactly when the request is inside the file. -/
theorem isPart_iff {entry : STrdFile} {ram : List Byte} (h : entry.Holds ram image) :
    IsPart ram image offset length (offset + entry.incOffset) (entry.incLength offset length) ↔
      entry.Covers offset length := by
  have hoffset := (toInt_bounds offset).2
  have hram : ram.length < 2 ^ 16 := h.length ▸ entry.length.isLt
  have hpos := h.pos
  have hfile : (entry.length.setWidth 32 : Aint).toInt = entry.length.toNat := toInt_length
  constructor
  · intro hpart
    have hlow := hpart.low
    have hnumber := hpart.number
    have hsome := hpart.some
    have hinside := hpart.inside
    refine ⟨hlow, ?_⟩
    rw [hnumber, ← h.length] at hsome hinside
    -- the default length asks for all that is left behind the offset
    by_cases hdefault : length = intMax
    · rw [if_pos hdefault] at hsome ⊢
      omega
    · rw [if_neg hdefault] at hsome hinside ⊢
      exact ⟨hsome, hinside⟩
  · rintro ⟨hlow, hinside⟩
    have hnumber : (entry.incLength offset length).toInt
        = if length = intMax then ram.length - offset.toInt else length.toInt := by
      rw [STrdFile.incLength]
      by_cases hdefault : length = intMax
      · rw [if_pos hdefault] at hinside
        rw [if_pos hdefault, if_pos hdefault, BitVec.toInt_sub, hfile, h.length,
          Int.bmod_eq_of_le (by omega) (by omega)]
      · rw [if_neg hdefault, if_neg hdefault]
    have hrange : 0 < (entry.incLength offset length).toInt ∧
        offset.toInt + (entry.incLength offset length).toInt ≤ ram.length := by
      rw [hnumber, ← h.length]
      by_cases hdefault : length = intMax
      · rw [if_pos hdefault] at hinside ⊢
        omega
      · rwa [if_neg hdefault] at hinside ⊢
    -- the position of a byte inside the file does not wrap in the sum of the source
    refine ⟨hlow, hnumber, hrange.1, hrange.2, fun k hk => ?_⟩
    have hplace : (offset + entry.incOffset).toInt.toNat = entry.pos + offset.toInt.toNat := by
      rw [BitVec.toInt_add, toInt_incOffset hpos, Int.bmod_eq_of_le (by omega) (by omega)]
      omega
    have hbyte : offset.toInt.toNat + k < ram.length := by omega
    rw [hplace, Nat.add_assoc, List.getElem?_eq_getElem hbyte]
    exact h.bytes _ _ (List.getElem?_eq_getElem hbyte)

/-- The answer for a file that the image holds: a request is answered wrongly only if its end does
not fit. -/
theorem selectsRAM_iff {filename : CString} {entry : STrdFile} {ram : List Byte} (trd bp : Text)
    (hread : STrdHead.readFromFile image = some head)
    (hfind : findIncFile (STrdFile.ofName (trdFileNameToBytes filename).binName)
      (trdFileNameToBytes filename).nameL head.catalog = some entry) (h : entry.Holds ram image) :
    SelectsRAM ram image offset length
        ((trdPrepareIncFile trd bp filename offset length).exec ⟨image, []⟩) ↔
      ¬Wraps entry.pos offset length := by
  have hlength := entry.length.isLt
  rw [exec_trdPrepareIncFile trd bp hread hfind]
  by_cases hfits : entry.incFits offset length = true
  · rw [if_pos hfits, exec_pure]
    constructor
    -- an answer that wraps is no part of the file: its end is too far away
    · rintro (⟨hno, -⟩ | ⟨place, count, heq, hpart⟩) hwraps
      · cases hno
      · obtain ⟨rfl, rfl⟩ := Prod.mk.inj (Option.some.inj heq)
        have hcovers := (isPart_iff h).mp hpart
        have hinside := hcovers.inside
        have hend := hwraps.wraps
        have hpos := h.pos
        rw [if_neg hwraps.given] at hinside
        omega
    · intro hno
      have hcovers := ((incFits_iff h.pos).mp hfits).resolve_right hno
      exact .inr ⟨_, _, rfl, (isPart_iff h).mpr hcovers⟩
  -- a request that is refused neither fits nor wraps
  · rw [if_neg hfits]
    obtain ⟨s, -, herror, hexec⟩ := exec_refuse (α := Aint × Aint)
      "[INCTRD] File too short to cover requested offset and length" (some bp) .ifFirst ⟨image, []⟩
    rw [hexec]
    constructor
    · exact fun _ hwraps => hfits ((incFits_iff h.pos).mpr (.inr hwraps))
    · exact fun _ => .inl ⟨rfl, herror⟩

/-- What the image has after a file was added: its record is the first of the name, and its data are
there. -/
theorem exists_holds {device : Device n m} (hdevice : device.SlotLayout) (fname bp : Text)
    (h : head.WellFormed first total) (hread : STrdHead.readFromFile image = some head)
    (hadd : a.addplace = false) (hvars : a.lengthMinusVars = -1) (hname : a.name.nameL = 9)
    (hfree : a.IsFree head.used)
    (hsuccess : ((trdAddFile (some device) fname bp a).exec ⟨image, []⟩).1 = some ()) :
    ∃ head' entry,
      STrdHead.readFromFile ((trdAddFile (some device) fname bp a).exec ⟨image, []⟩).2.image
        = some head' ∧
      findIncFile (STrdFile.ofName a.name.binName) a.name.nameL head'.catalog = some entry ∧
      entry.pos = a.place head ∧
      entry.Holds (device.mappedBytes a.start.toInt.toNat a.length.toNat)
        ((trdAddFile (some device) fname bp a).exec ⟨image, []⟩).2.image := by
  -- what is not accepted ends with an error, against the success
  have haccepted : a.Accepted (some device) head image := by
    by_contra hno
    obtain ⟨s, hexec, -⟩ := exec_trdAddFile_of_not_accepted fname bp h hread hno
    rw [hexec] at hsuccess
    cases hsuccess
  have hvalid := haccepted.valid
  obtain ⟨t, files, log, hchosen, hroom, hspace, hexec⟩ :=
    exec_trdAddFile_chosen hdevice fname bp h hread hadd haccepted
  rw [hexec]
  obtain ⟨⟨rest, hcatalog, -⟩, huse, -⟩ :=
    hchosen.arranged_finish h.tracks hroom hspace hvalid.sectors
  rw [List.forall_mem_append, List.forall_mem_singleton] at huse
  have hothers := hchosen.others hfree
  have hnew : a.same (t.newTarget a.entry false) = true := by
    rw [hchosen.newTarget_eq hroom, TrdArguments.same]
    exact STrdFile.sameName_moved a.trdf _ _ _
  -- the sectors of an erased record are free again, so that the new one may start earlier
  have hstart : t.head.info.freeStart
      = head.info.freeStart - ((a.erased head.used).map STrdFile.size).sum := by
    have htotal := hchosen.arranged.described.free
    have htotal' := h.described.free
    rw [hchosen.free] at htotal
    omega
  have hpos : (t.newTarget a.entry false).pos = t.head.info.freeStart * sectorSz := by
    rw [STrdFile.pos_eq, hchosen.start_newTarget hroom, sectorSz]
  have hfront := hchosen.arranged.described.areas.le
  have htotal := hchosen.arranged.described.free
  have hfront' := h.front
  have htracks := h.tracks
  have hlength := hvalid.length
  have hnat := hvalid.toNat_length
  -- the catalogue, the search in it, and where the data are
  refine ⟨_, t.newTarget a.entry false, readFromFile_finish hread ?_, ?_, ?_, ?_, ?_, ?_⟩
  · exact hchosen.disc
  · rw [hcatalog, List.append_assoc, List.singleton_append]
    refine findIncFile_eq_some (fun f hf => ⟨huse.1 f hf, ?_⟩) huse.2 ?_
    · rw [sameName_ofName hname, hothers f hf]
    · rw [sameName_ofName hname, hnew]
  · rw [hpos, hstart, TrdArguments.place]
  · rw [hpos, sectorSz]
    omega
  · rw [hchosen.newTarget_eq hroom, Device.length_mappedBytes]
    show a.trdf.length.toNat = _
    rw [length_trdf hvars, BitVec.toNat_setWidth]
    omega
  -- a byte of the data: the catalogue is written in front of it
  · intro k b hk
    have hplace : t.writePos a.entry false = (t.newTarget a.entry false).pos := by
      rw [hchosen.writePos_eq hroom, hpos]
    have hdata : (t.dataImage a.entry false _ image)[t.writePos a.entry false + k]? = some b :=
      TrdTarget.getElem?_dataImage hk
    rw [hplace] at hdata
    have hcatalog : 9 * sectorSz ≤ (t.newTarget a.entry false).pos + k := by
      rw [hpos, sectorSz]
      omega
    exact movesBytes_writeToFile hcatalog _ b le_rfl (Nat.lt_succ_self _) hdata

/-- A file that was added to an image is read back, but for the requests whose end does not fit. -/
theorem trdPrepareIncFile_iff {device : Device n m} (hdevice : device.SlotLayout)
    (fname trd bp : Text) (h : head.WellFormed first total)
    (hread : STrdHead.readFromFile image = some head) (hadd : a.addplace = false)
    (hvars : a.lengthMinusVars = -1) (hname : a.name.nameL = 9)
    (hlive : a.replace = true ∨ ∀ file ∈ head.used, file.deleted = false → a.same file = false)
    (hdeleted : a.Marked → (head.used.filter a.same).length = (a.erased head.used).length)
    (hsuccess : ((trdAddFile (some device) fname bp a).exec ⟨image, []⟩).1 = some ())
    (offset length : Aint) :
    let image' := ((trdAddFile (some device) fname bp a).exec ⟨image, []⟩).2.image
    SelectsRAM (device.mappedBytes a.start.toInt.toNat a.length.toNat) image' offset length
        ((trdPrepareIncFile trd bp a.fhobname offset length).exec ⟨image', []⟩) ↔
      ¬Wraps (a.place head) offset length := by
  obtain ⟨head', entry, hread', hfind, hpos, hholds⟩ :=
    exists_holds hdevice fname bp h hread hadd hvars hname ⟨hlive, hdeleted⟩ hsuccess
  rw [← hpos]
  exact selectsRAM_iff trd bp hread' hfind hholds

theorem exec_pageArguments (fhobname : CString) (fname bp : Text) :
    ((trdAddFile (some (zxSpectrum128 0)) fname bp (pageArguments fhobname)).exec
      ⟨STrdHead.empty.writeToFile [], []⟩).1 = some () := by
  obtain ⟨s, -, -, hexec, -⟩ := exec_trdAddFile_of_accepted
    (fun _ hd => Option.some.inj hd ▸ slotLayout_zxSpectrum128 0) fname bp wellFormed_empty
    (readFromFile_writeToFile (by decide) [])
    (accepted_pageArguments fhobname (zxSpectrum128 0) (STrdHead.empty.writeToFile []))
  rw [hexec]

/-- All of the file, as `aint` has it at most: the end is behind the largest number. -/
theorem not_selectsRAM :
    let image' := ((trdAddFile (some (zxSpectrum128 0)) [] []
      (pageArguments nameAC)).exec
        ⟨STrdHead.empty.writeToFile [], []⟩).2.image
    ¬SelectsRAM ((zxSpectrum128 0).mappedBytes 0x8000 0x100) image' 0 0x7FFFFFFE
      ((trdPrepareIncFile [] [] nameAC 0 0x7FFFFFFE).exec
        ⟨image', []⟩) := by
  intro image' hselects
  obtain ⟨head', entry, hread', hfind, hpos, hholds⟩ := exists_holds (slotLayout_zxSpectrum128 0)
    [] [] wellFormed_empty (readFromFile_writeToFile (by decide) []) rfl rfl (by decide)
    ⟨.inr fun _ hfile => absurd hfile List.not_mem_nil, fun _ => rfl⟩
    (exec_pageArguments nameAC [] [])
  have hplace : entry.pos = 0x1000 := hpos
  refine (selectsRAM_iff [] [] hread' hfind hholds).mp hselects ?_
  rw [hplace]
  exact ⟨by decide, by decide, by decide, by decide, by decide⟩

/-- The last bytes of the file. -/
theorem selectsRAM_pageArguments :
    let image' := ((trdAddFile (some (zxSpectrum128 0)) [] []
      (pageArguments nameAC)).exec
        ⟨STrdHead.empty.writeToFile [], []⟩).2.image
    SelectsRAM ((zxSpectrum128 0).mappedBytes 0x8000 0x100) image' 0xF0 intMax
      ((trdPrepareIncFile [] [] nameAC 0xF0 intMax).exec
        ⟨image', []⟩) :=
  (trdPrepareIncFile_iff (slotLayout_zxSpectrum128 0) [] [] [] wellFormed_empty
    (readFromFile_writeToFile (by decide) []) rfl rfl (by decide)
    (.inr fun _ hfile => absurd hfile List.not_mem_nil) (fun _ => rfl)
    (exec_pageArguments _ [] []) _ _).mpr fun hwraps => hwraps.given rfl

end Sjasmplus
