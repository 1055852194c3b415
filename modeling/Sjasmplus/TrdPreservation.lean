import Sjasmplus.TrdWrite

/-!
# What adding a file leaves of a TRD image

* `exec_trdAddFile_of_not_accepted` — an image that is not written to.
* `exec_trdAddFile_of_accepted` — an image that is written to: its catalogue is in order again, and
  the other files are there.
* `addsWell_iff` — it is well formed again exactly when the deleted files are counted rightly.
-/

namespace Sjasmplus

open Areas Program TrdProgram

variable {n m : Nat} {a : TrdArguments} {t : TrdTarget} {head : STrdHead} {fname bp : Text}
  {files before behind : List STrdFile} {file : STrdFile} {first total : Nat} {image : List Byte}

/-! ### Files that stay -/

/-- The record of a file, but for the place, and its data are in the new image. -/
structure STrdFile.KeptAs (file file' : STrdFile) (image image' : List Byte) : Prop where
  record : { file' with startSector := file.startSector, startTrack := file.startTrack } = file
  data : ∀ k < file.size * sectorSz, ∀ b, image[file.pos + k]? = some b →
    image'[file'.pos + k]? = some b

namespace TrdArguments

/-- All files stay but for those that are replaced. -/
def KeepsFiles (a : TrdArguments) (files files' : List STrdFile) (image image' : List Byte) :
    Prop :=
  ∀ (i : Nat) (file : STrdFile), files[i]? = some file → a.lost file = false →
    ∃ file', files'[i]? = some file' ∧ file.KeptAs file' image image'

/-- The arguments fit the image: a device is there, the numbers are in their ranges, there is a free
record, there are enough free sectors, and in add mode a file that may grow, with the data behind it.
-/
structure Accepted (a : TrdArguments) (device : Option (Device n m)) (head : STrdHead)
    (image : List Byte) : Prop where
  device : device.isSome = true
  valid : a.Valid
  room : a.addplace = false →
    head.used.length < numOfFilesMax + (a.erased head.used).length
  free : a.sectorLength.toNat
    ≤ head.info.numOfFreeSectors.toNat + ((a.erased head.used).map STrdFile.size).sum
  grows : a.addplace = true → ∃ file ∈ (head.used.filter a.same).getLast?,
    file.size + a.sectorLength.toNat ≤ 0xFF ∧
      (a.endsSame head.used = false → head.info.freePos ≤ image.length)

end TrdArguments

/-- Adding a file either reports an error and does not write to the image, or the image is well
formed again, with the same sectors, and the other files are there. -/
def AddsWell (device : Option (Device n m)) (fname bp : Text) (a : TrdArguments) (head : STrdHead)
    (image : List Byte) (first total : Nat) : Prop :=
  let r := (trdAddFile device fname bp a).exec ⟨image, []⟩
  (r.1 = none ∧ r.2.image = image ∧ ReportsError r.2) ∨
    (r.1 = some () ∧ ∃ head', STrdHead.readFromFile r.2.image = some head' ∧
      head'.WellFormed first total ∧ a.KeepsFiles head.used head'.used image r.2.image)

/-! ### Lengths -/

theorem length_wordLE (w : BitVec 16) : (wordLE w).length = 2 := rfl

theorem STrdFile.length_bytes : file.bytes.length = 16 := by
  rw [bytes, fullName, List.length_append, List.length_append, List.length_append,
    Vector.length_toList, length_wordLE]
  rfl

theorem STrdDisc.length_bytes (info : STrdDisc) : info.bytes.length = 256 := by
  simp only [bytes, List.length_append, Vector.length_toList, length_wordLE, List.length_cons,
    List.length_nil]

/-- The catalogue and the information about the disc take nine sectors. -/
theorem STrdHead.length_bytes : head.bytes.length = 9 * sectorSz := by
  have hfiles : (head.catalog.map STrdFile.bytes).flatten.length = head.catalog.length * 16 := by
    rw [List.length_flatten, List.map_map, List.map_congr_left fun f _ => f.length_bytes,
      List.map_const', List.sum_replicate_nat]
  rw [bytes, List.length_append, hfiles, head.size, STrdDisc.length_bytes]
  rfl

namespace TrdArguments.Valid

variable (h : a.Valid)
include h

theorem toNat_length : (a.length.toNat : Int) = a.length.toInt := by
  have hlength := h.length
  rw [BitVec.toInt_eq_toNat_cond] at hlength ⊢
  split_ifs at hlength ⊢ with hlow
  · rfl
  · omega

/-- The sectors have room for the data. -/
theorem length_le : a.length.toNat ≤ a.sectorLength.toNat * sectorSz := by
  have hlength := h.length
  have hnat := h.toNat_length
  have hsome : a.sectorLength.toNat ≠ 0 := fun hzero => h.sectors (BitVec.eq_of_toNat_eq hzero)
  rw [TrdArguments.sectorLength, BitVec.toNat_setWidth, BitVec.toNat_ushiftRight,
    Nat.shiftRight_eq_div_pow] at hsome ⊢
  rw [sectorSz]
  -- the sum of the source does not wrap: a length fits the memory of a device
  have hsum : (a.length + 255 + (if 0 ≤ a.autostartLine.toInt then 4 else 0)).toNat
      = a.length.toNat + 255 + (if 0 ≤ a.autostartLine.toInt then 4 else 0) := by
    split_ifs
    · rw [BitVec.toNat_add, BitVec.toNat_add, show (255 : Aint).toNat = 255 from rfl,
        show (4 : Aint).toNat = 4 from rfl]
      omega
    · rw [BitVec.toNat_add, BitVec.toNat_add, show (255 : Aint).toNat = 255 from rfl,
        show (0 : Aint).toNat = 0 from rfl]
      omega
  rw [hsum] at hsome ⊢
  -- with the four bytes of the autostart line, and without them
  split_ifs at hsome ⊢ <;> omega

/-- The data are the bytes of the memory. -/
theorem saveRAM_eq {device : Device n m} (hdevice : device.SlotLayout) :
    device.saveRAM a.start a.length
      = (device.mappedBytes a.start.toInt.toNat a.length.toNat, true) := by
  have hstart := h.start
  have hlength := h.length
  have hfits := h.fits
  have hnat := h.toNat_length
  have hsum : (a.start + a.length).toInt = a.start.toInt + a.length.toInt := by
    rw [BitVec.toInt_add, Int.bmod_eq_of_le (by omega) (by omega)]
  rw [hsum] at hfits
  rw [device.saveRAM_eq hdevice (by omega) (by omega) (by omega), ← hnat, Int.toNat_natCast]

end TrdArguments.Valid

/-! ### The image that is written -/

/-- Behind the data the catalogue is written over the start of the image. -/
theorem exec_write (t : TrdTarget) (entry : TrdEntry) (addplace : Bool) (fname : Text)
    {device : Device n m} {ram image' : List Byte} {head' : STrdHead} {s : TrdState}
    (hhead : (if addplace then t.shiftData entry fname else pure (t.newHead entry false)).exec s
      = (some head', { s with image := image' }))
    (hram : device.saveRAM a.start a.length = (ram, true)) :
    (t.write entry addplace device a fname).exec s = (some (), { s with
      image := (t.finish entry head').writeToFile (t.dataImage entry addplace ram image') }) := by
  rw [TrdTarget.write]
  cases addplace with
  | false =>
    rw [if_neg Bool.false_ne_true] at hhead ⊢
    rw [exec_bind_of_some hhead, exec_bind_of_some (TrdTarget.exec_writeData hram _), exec_modify]
  | true =>
    rw [if_pos rfl] at hhead ⊢
    rw [exec_bind_of_some hhead, exec_bind_of_some (TrdTarget.exec_writeData hram _), exec_modify]

/-- The bytes behind the catalogue stay. -/
theorem movesBytes_writeToFile {low high : Nat} (h : 9 * sectorSz ≤ low) :
    MovesBytes low high 0 image (head.writeToFile image) :=
  movesBytes_fwrite (.inr (by rw [STrdHead.length_bytes]; omega))

/-- A file with its data at a place from where they have moved on. -/
theorem STrdFile.KeptAs.of_movesBytes {file' : STrdFile} {image' : List Byte} {low high d : Nat}
    (hrecord : { file' with startSector := file.startSector, startTrack := file.startTrack } = file)
    (hpos : file'.pos = file.pos + d) (hmoves : MovesBytes low high d image image')
    (hlow : low ≤ file.pos) (hhigh : file.pos + file.size * sectorSz ≤ high) :
    file.KeptAs file' image image' where
  record := hrecord
  data k hk b hb := by
    have hmoved := hmoves (file.pos + k) b (by omega) (by omega) hb
    rwa [hpos, Nat.add_right_comm]

/-- The place of the data in the image. -/
theorem pos_between {last : Nat}
    (h : Consecutive STrdFile.start STrdFile.size first files last) (hfile : file ∈ files) :
    first * sectorSz ≤ file.pos ∧ file.pos + file.size * sectorSz ≤ last * sectorSz := by
  obtain ⟨hstart, -, hend⟩ := h.between hfile
  rw [STrdFile.pos_eq, sectorSz]
  omega

theorem STrdFile.pos_of_start {file' : STrdFile} {k : Nat} (h : file'.start = file.start + k) :
    file'.pos = file.pos + k * sectorSz := by
  rw [STrdFile.pos_eq, STrdFile.pos_eq, h, sectorSz, Nat.add_mul]

/-! ### A record behind the last one -/

namespace TrdTarget.Chosen

variable (h : t.Chosen a head files first total)
include h

/-- The data come behind all others. -/
theorem writePos_eq (hroom : files.length < numOfFilesMax) :
    t.writePos a.entry false = t.head.info.freeStart * sectorSz := by
  rw [writePos, STrdFile.pos_eq, h.start_newTarget hroom, keepSectors, if_neg Bool.false_ne_true,
    Nat.zero_mul, Nat.add_zero, sectorSz]

/-- All records stay, with their data. -/
theorem keepsFiles (hfront : 9 ≤ first) (hroom : files.length < numOfFilesMax) {ram : List Byte}
    {head' : STrdHead} {last : STrdFile} :
    a.KeepsFiles head.used (files ++ [last]) image
      (head'.writeToFile (t.dataImage a.entry false ram image)) := by
  intro i file hfile hlost
  have hstays := h.kept i file hfile hlost
  have hmem := List.mem_of_getElem? hstays
  obtain ⟨hlow, hhigh⟩ := pos_between h.arranged.described.areas hmem
  have hmoves : MovesBytes (first * sectorSz) (t.head.info.freeStart * sectorSz) 0 image
      (head'.writeToFile (t.dataImage a.entry false ram image)) :=
    (TrdTarget.movesBytes_dataImage (h.writePos_eq hroom).ge).stay_trans
      (movesBytes_writeToFile (by rw [sectorSz]; omega))
  have hkept : file.KeptAs file image (head'.writeToFile (t.dataImage a.entry false ram image)) :=
    .of_movesBytes (d := 0) rfl rfl hmoves hlow hhigh
  refine ⟨file, ?_, hkept⟩
  rw [List.getElem?_append_left (List.getElem?_eq_some_iff.mp hstays).1, hstays]

/-- The deleted files, with the new record. -/
theorem wellFormed_finish_iff (hfront : 9 ≤ first) (htracks : total ≤ 0xFFF)
    (hroom : files.length < numOfFilesMax)
    (hfree : a.sectorLength.toNat ≤ t.head.info.numOfFreeSectors.toNat)
    (hsome : a.sectorLength ≠ 0) :
    (t.finish a.entry (t.newHead a.entry false)).WellFormed first total ↔
      a.CountsDeleted head.used := by
  rw [(h.arranged_finish htracks hroom hfree hsome).wellFormed_iff hfront htracks, ← h.deleted,
    List.countP_append, List.countP_singleton, h.deleted_newTarget hroom,
    finish_new (h.isNewTarget_eq hroom)]
  by_cases hmarked : a.Marked
  · simp only [hmarked, decide_true, if_true]
    rfl
  · simp only [hmarked, decide_false, if_false, Bool.false_eq_true]
    rfl

end TrdTarget.Chosen

/-! ### A record that grows -/

namespace TrdTarget.Grown

variable (h : t.Grown a head before file behind first total)
include h

/-- The data come behind those that are there. -/
theorem writePos_eq : t.writePos a.entry true = file.pos + file.size * sectorSz := by
  rw [writePos, h.newTarget_eq, keepSectors, if_pos rfl, h.target_eq]
  rfl

/-- All records of other names stay, with their data. -/
theorem keepsFiles (hadd : a.addplace = true) (hfront : 9 ≤ first) (htracks : total ≤ 0xFFF)
    (hfree : a.sectorLength.toNat ≤ t.head.info.numOfFreeSectors.toNat)
    {ram image' : List Byte} {head' : STrdHead}
    (hram : ram.length ≤ a.sectorLength.toNat * sectorSz)
    (hlow : MovesBytes 0 (file.pos + file.size * sectorSz) 0 image image')
    (hhigh : MovesBytes (file.pos + file.size * sectorSz) t.head.info.freePos
      (a.sectorLength.toNat * sectorSz) image image') :
    a.KeepsFiles head.used (t.shifted a before behind) image
      (head'.writeToFile (t.dataImage a.entry true ram image')) := by
  intro i f hf hlost
  -- in add mode the records of the name are the only ones that may be lost
  have hother : a.same f = false := by
    rw [TrdArguments.lost, hadd, Bool.true_or, Bool.true_and, Bool.or_eq_false_iff] at hlost
    exact hlost.2
  obtain ⟨hfront', -, hbehind⟩ := h.areas
  have hfirst := hfront'.le
  have hend : file.pos + file.size * sectorSz = (file.start + file.size) * sectorSz := by
    rw [STrdFile.pos_eq, sectorSz]
    omega
  rw [h.used] at hf
  -- the records in front of the file that grows, the file itself, and those behind it
  rcases Nat.lt_trichotomy i before.length with hbefore | hfile | hafter
  · -- in front of the file nothing moves
    rw [List.getElem?_append_left hbefore] at hf
    have hstays : a.entry.deleteSame f = f := deleteSame_of_not_same hother
    have hrecord : (before.map a.entry.deleteSame)[i]? = some f := by
      rw [List.getElem?_map, hf, Option.map_some, hstays]
    obtain ⟨hfrom, hto⟩ := pos_between hfront' (List.mem_of_getElem? hrecord)
    have hmoves : MovesBytes (first * sectorSz) (file.start * sectorSz) 0 image
        (head'.writeToFile (t.dataImage a.entry true ram image')) := by
      refine (hlow.mono (Nat.zero_le _) (by rw [hend, sectorSz]; omega)).stay_trans ?_
      have hdata : MovesBytes (first * sectorSz) (file.start * sectorSz) 0 image'
          (t.dataImage a.entry true ram image') :=
        TrdTarget.movesBytes_dataImage (by rw [h.writePos_eq, hend, sectorSz]; omega)
      exact hdata.stay_trans (movesBytes_writeToFile (by rw [sectorSz]; omega))
    refine ⟨f, ?_, .of_movesBytes (d := 0) rfl rfl hmoves hfrom hto⟩
    rw [TrdTarget.shifted, List.getElem?_append_left (by rwa [List.length_map]), hrecord]
  · rw [List.getElem?_append_right hfile.ge, hfile, Nat.sub_self, List.getElem?_cons_zero,
      Option.some_inj] at hf
    rw [← hf, h.same] at hother
    exact absurd hother.symm Bool.false_ne_true
  · -- behind the file all data move on
    obtain ⟨j, rfl⟩ := Nat.exists_eq_add_of_lt hafter
    rw [List.getElem?_append_right (by omega), Nat.add_assoc, Nat.add_sub_cancel_left,
      List.getElem?_cons_succ] at hf
    have hmem := List.mem_of_getElem? hf
    obtain ⟨hfrom, hto⟩ := pos_between hbehind hmem
    have hmoves : MovesBytes (file.pos + file.size * sectorSz) t.head.info.freePos
        (a.sectorLength.toNat * sectorSz) image
        (head'.writeToFile (t.dataImage a.entry true ram image')) := by
      refine hhigh.trans ?_
      have hdata : MovesBytes (file.pos + file.size * sectorSz + a.sectorLength.toNat * sectorSz)
          (t.head.info.freePos + a.sectorLength.toNat * sectorSz) 0 image'
          (t.dataImage a.entry true ram image') := by
        rw [TrdTarget.dataImage_grown, h.writePos_eq]
        exact movesBytes_fwrite (.inr (by omega))
      exact hdata.stay_trans (movesBytes_writeToFile (by rw [hend, sectorSz]; omega))
    refine ⟨f.shift a.sectorLength, ?_, .of_movesBytes rfl
      (STrdFile.pos_of_start (h.start_shift htracks hfree hmem)) hmoves (by rwa [hend]) ?_⟩
    · rw [TrdTarget.shifted, List.getElem?_append_right (by rw [List.length_map]; omega),
        List.length_map, Nat.add_assoc, Nat.add_sub_cancel_left, List.getElem?_cons_succ,
        List.getElem?_map, hf, Option.map_some]
    · rwa [STrdDisc.freePos_eq]

/-- The deleted files, with the record that has grown. -/
theorem wellFormed_finish_iff (hfront : 9 ≤ first) (htracks : total ≤ 0xFFF)
    (hfree : a.sectorLength.toNat ≤ t.head.info.numOfFreeSectors.toNat)
    (hsize : file.size + a.sectorLength.toNat ≤ 0xFF) {head' : STrdHead}
    (hinfo : head'.info = t.head.info)
    (hcatalog : ∃ rest, head'.catalog = t.shifted a before behind ++ rest ∧
      ∀ f ∈ rest, f.inUse = false) :
    (t.finish a.entry head').Arranged (t.shifted a before behind) first total ∧
      ((t.finish a.entry head').WellFormed first total ↔ a.CountsDeleted head.used) := by
  have harranged := h.arranged_shifted htracks hfree hsize hinfo hcatalog
  -- the records behind move on, which leaves their names and so the deleted ones
  have hsame : (t.shifted a before behind).countP STrdFile.deleted
      = (before.map a.entry.deleteSame ++ file :: behind).countP STrdFile.deleted := by
    have hbehind : (behind.map (·.shift a.sectorLength)).countP STrdFile.deleted
        = behind.countP STrdFile.deleted := List.countP_map
    rw [TrdTarget.shifted, h.newTarget_eq, List.countP_append, List.countP_append, List.countP_cons,
      List.countP_cons, hbehind]
    rfl
  -- a record that grows is no new one: the number of files stays
  rw [finish_old (isNewTarget_of_same h.target_eq h.same)]
  refine ⟨harranged, ?_⟩
  rw [harranged.wellFormed_iff hfront htracks, ← h.deleted, hsame, ← hinfo]
  rfl

end TrdTarget.Grown

/-! ### The whole of `TRD_AddFile` -/

theorem isTrdInfo_of_readFromFile (h : STrdHead.readFromFile image = some head) :
    head.info.isTrdInfo = true := by
  rw [STrdHead.readFromFile] at h
  cases hread : STrdHead.read.run image with
  | none =>
    rw [hread] at h
    cases h
  | some r =>
    rw [hread] at h
    dsimp only at h
    by_cases hinfo : r.1.info.isTrdInfo = true
    · rw [if_pos hinfo, Option.some_inj] at h
      rwa [← h]
    · rw [if_neg hinfo] at h
      cases h

/-- With arguments in their ranges the work goes on with the catalogue. -/
theorem exec_trdAddFile (device : Device n m) (fname bp : Text) (hvalid : a.Valid)
    (hread : STrdHead.readFromFile image = some head) :
    ∃ log, (trdAddFile (some device) fname bp a).exec ⟨image, []⟩
      = (do let t ← a.chooseFile fname (head.findFile (a.addplace || a.replace) a.entry)
            t.check a.entry a.addplace fname
            t.write a.entry a.addplace device a fname : TrdProgram Unit).exec ⟨image, log⟩ := by
  obtain ⟨s, himage, hprepare⟩ := (a.checks_prepareEntry true bp).returns ⟨rfl, hvalid⟩ ⟨image, []⟩
  have hs : s = ⟨image, s.log⟩ := by
    rw [← show s.image = image from himage]
  refine ⟨s.log, ?_⟩
  rw [trdAddFile, Option.isSome_some, exec_bind_of_some hprepare, exec_bind_of_some (exec_get s),
    show s.image = image from himage, hread, ← hs]

/-- A program that is refused leaves the image. -/
theorem exits_of_checks {p : TrdProgram Unit} (hp : Checks p False ()) (log : List Event) :
    ∃ s, p.exec ⟨image, log⟩ = (none, s) ∧ s.image = image ∧ ReportsError s := by
  obtain ⟨s, himage, herror, hexec⟩ := hp.exits not_false ⟨image, log⟩
  exact ⟨s, hexec, himage, herror⟩

/-- Arguments that do not fit the image are refused with an error, and nothing is written. -/
theorem exec_trdAddFile_of_not_accepted {device : Option (Device n m)} (fname bp : Text)
    (h : head.WellFormed first total) (hread : STrdHead.readFromFile image = some head)
    (hno : ¬a.Accepted device head image) :
    ∃ s, (trdAddFile device fname bp a).exec ⟨image, []⟩ = (none, s) ∧ s.image = image ∧
      ReportsError s := by
  -- without a device the source stops at its first check
  cases device with
  | none =>
    obtain ⟨s, himage, herror, hprepare⟩ := (a.checks_prepareEntry false bp).exits
      (fun hyes => Bool.false_ne_true hyes.1) ⟨image, []⟩
    refine ⟨s, ?_, himage, herror⟩
    rw [trdAddFile, Option.isSome_none, exec_bind, hprepare]
  | some device =>
    -- the checks of the arguments come before anything is read from the image
    by_cases hvalid : a.Valid
    swap
    · obtain ⟨s, himage, herror, hprepare⟩ := (a.checks_prepareEntry true bp).exits
        (fun hyes => hvalid hyes.2) ⟨image, []⟩
      refine ⟨s, ?_, himage, herror⟩
      rw [trdAddFile, Option.isSome_some, exec_bind, hprepare]
    obtain ⟨log, hexec⟩ := exec_trdAddFile device fname bp hvalid hread
    rw [hexec]
    -- from here on the modes differ: add mode first
    rcases Bool.eq_false_or_eq_true a.addplace with hadd | hadd
    -- add mode needs a record of the name
    · by_cases hnone : head.used.filter a.same = []
      · have hmissing := checks_chooseFile_missing h hadd hnone fname ⟨head, 0⟩
        exact exits_of_checks ((hmissing.bind (D := False) False.elim).congr
          ⟨And.right, False.elim⟩) log
      obtain ⟨before, file, behind, hused, hfile, hbehind⟩ := exists_last_same hnone
      obtain ⟨t, hgrown, hchoose⟩ := checks_chooseFile_grown h hadd hused hfile hbehind fname
      have hcheck := checks_check_grown hgrown fname
      rw [← hadd] at hcheck
      by_cases hpass : a.sectorLength.toNat ≤ head.info.numOfFreeSectors.toNat ∧
        file.size + a.sectorLength.toNat ≤ 0xFF
      swap
      · exact exits_of_checks (hchoose.always_bind ((hcheck.bind (D := False)
          fun hyes => absurd hyes hpass).congr ⟨And.right, False.elim⟩)) log
      have hinfo : t.head.info.freePos = head.info.freePos := by
        rw [hgrown.info]
        rfl
      -- all that is left is an image that ends within the data to be moved
      have hshort : behind ≠ [] ∧ image.length < head.info.freePos := by
        by_contra hlong
        refine hno ⟨rfl, hvalid, fun hyes => absurd (hyes.symm.trans hadd) Bool.false_ne_true, ?_,
          fun _ => ⟨file, ?_, hpass.2, fun hends => ?_⟩⟩
        · rw [erased_of_addplace hadd]
          exact hpass.1
        · rw [hused]
          exact getLast?_filter_same hfile hbehind
        · refine Nat.le_of_not_lt fun hlt => hlong ⟨fun hnil => ?_, hlt⟩
          rw [hused, hnil, endsSame_concat, hfile] at hends
          exact Bool.false_ne_true hends.symm
      obtain ⟨s, himage, hfirst⟩ := hchoose.returns trivial ⟨image, log⟩
      obtain ⟨s', himage', hsecond⟩ := hcheck.returns hpass s
      have hsame : s'.image = image := Eq.trans himage' himage
      obtain ⟨s'', himage'', herror, hexit⟩ := hgrown.exec_shiftData_of_short fname hshort.1 s'
        (by rw [hsame, hinfo]; exact hshort.2)
      refine ⟨s'', ?_, Eq.trans himage'' hsame, herror⟩
      rw [exec_bind_of_some hfirst, exec_bind_of_some hsecond, hadd, TrdTarget.write, if_pos rfl,
        exec_bind, hexit]
    -- normal and replace mode: the catalogue or the disc is full
    · obtain ⟨t, files, hchosen, hchoose⟩ := checks_chooseFile_chosen h hadd fname
      have hcheck := checks_check_chosen hchosen fname
      rw [← hadd] at hcheck
      have hpass : ¬(files.length < numOfFilesMax ∧
          a.sectorLength.toNat ≤ t.head.info.numOfFreeSectors.toNat) := by
        rintro ⟨hroom, hfree⟩
        have hcount := hchosen.count
        rw [hchosen.free] at hfree
        exact hno ⟨rfl, hvalid, fun _ => by omega, hfree,
          fun hyes => absurd (hadd.symm.trans hyes) Bool.false_ne_true⟩
      exact exits_of_checks (hchoose.always_bind ((hcheck.bind (D := False)
        fun hyes => absurd hyes hpass).congr ⟨And.right, False.elim⟩)) log

/-- The catalogue that is written is read back. -/
theorem readFromFile_finish {head' : STrdHead} (hread : STrdHead.readFromFile image = some head)
    (hdisc : head'.info.trDosId = head.info.trDosId) {image' : List Byte} :
    STrdHead.readFromFile ((t.finish a.entry head').writeToFile image')
      = some (t.finish a.entry head') := by
  refine readFromFile_writeToFile ?_ image'
  have hinfo := isTrdInfo_of_readFromFile hread
  rw [STrdDisc.isTrdInfo, ← hdisc] at hinfo
  rw [TrdTarget.finish]
  split_ifs <;> exact hinfo

/-- In normal mode and in replace mode a record behind the last one is written. -/
theorem exec_trdAddFile_chosen {device : Device n m} (hdevice : device.SlotLayout)
    (fname bp : Text) (h : head.WellFormed first total)
    (hread : STrdHead.readFromFile image = some head) (hadd : a.addplace = false)
    (haccepted : a.Accepted (some device) head image) :
    ∃ t files log, TrdTarget.Chosen t a head files first total ∧ files.length < numOfFilesMax ∧
      a.sectorLength.toNat ≤ t.head.info.numOfFreeSectors.toNat ∧
      (trdAddFile (some device) fname bp a).exec ⟨image, []⟩ = (some (),
        ⟨(t.finish a.entry (t.newHead a.entry false)).writeToFile (t.dataImage a.entry false
          (device.mappedBytes a.start.toInt.toNat a.length.toNat) image), log⟩) := by
  obtain ⟨log, hexec⟩ := exec_trdAddFile device fname bp haccepted.valid hread
  obtain ⟨t, files, hchosen, hchoose⟩ := checks_chooseFile_chosen h hadd fname
  -- the two checks behind the choice of the record hold for accepted arguments
  have hroom : files.length < numOfFilesMax := by
    have hcount := hchosen.count
    have hfew := haccepted.room hadd
    omega
  have hfree : a.sectorLength.toNat ≤ t.head.info.numOfFreeSectors.toNat := by
    rw [hchosen.free]
    exact haccepted.free
  obtain ⟨s, himage, hfirst⟩ := hchoose.returns trivial ⟨image, log⟩
  obtain ⟨s', himage', hsecond⟩ := (checks_check_chosen hchosen fname).returns ⟨hroom, hfree⟩ s
  -- neither the choice nor the checks write to the image
  have hsame : s'.image = image := Eq.trans himage' himage
  have hwrite := exec_write t a.entry false fname (s := s') rfl
    (haccepted.valid.saveRAM_eq hdevice)
  refine ⟨t, files, s'.log, hchosen, hroom, hfree, ?_⟩
  rw [hexec, exec_bind_of_some hfirst, hadd, exec_bind_of_some hsecond, hwrite, hsame]

/-- In add mode the last record of the name grows. -/
theorem exec_trdAddFile_grown {device : Device n m} (hdevice : device.SlotLayout)
    (fname bp : Text) (h : head.WellFormed first total)
    (hread : STrdHead.readFromFile image = some head) (hadd : a.addplace = true)
    (haccepted : a.Accepted (some device) head image) :
    ∃ t before file behind head' image' log,
      TrdTarget.Grown t a head before file behind first total ∧
      a.sectorLength.toNat ≤ t.head.info.numOfFreeSectors.toNat ∧
      file.size + a.sectorLength.toNat ≤ 0xFF ∧ head'.info = t.head.info ∧
      (∃ rest, head'.catalog = t.shifted a before behind ++ rest ∧ ∀ f ∈ rest, f.inUse = false) ∧
      MovesBytes 0 (file.pos + file.size * sectorSz) 0 image image' ∧
      MovesBytes (file.pos + file.size * sectorSz) t.head.info.freePos
        (a.sectorLength.toNat * sectorSz) image image' ∧
      (trdAddFile (some device) fname bp a).exec ⟨image, []⟩ = (some (),
        ⟨(t.finish a.entry head').writeToFile (t.dataImage a.entry true
          (device.mappedBytes a.start.toInt.toNat a.length.toNat) image'), log⟩) := by
  obtain ⟨log, hexec⟩ := exec_trdAddFile device fname bp haccepted.valid hread
  obtain ⟨last, hlast, hsize, hlong⟩ := haccepted.grows hadd
  have hsome : head.used.filter a.same ≠ [] := by
    intro hnil
    rw [hnil] at hlast
    cases hlast
  obtain ⟨before, file, behind, hused, hfile, hbehind⟩ := exists_last_same hsome
  obtain ⟨t, hgrown, hchoose⟩ := checks_chooseFile_grown h hadd hused hfile hbehind fname
  -- the record that grows is the last one of the name
  have hfile' : last = file := by
    rw [hused, getLast?_filter_same hfile hbehind, Option.mem_some_iff] at hlast
    exact hlast.symm
  rw [hfile'] at hsize
  have hfree : a.sectorLength.toNat ≤ head.info.numOfFreeSectors.toNat := by
    have hall := haccepted.free
    rwa [erased_of_addplace hadd] at hall
  have hinfo : t.head.info.freePos = head.info.freePos := by
    rw [hgrown.info]
    rfl
  obtain ⟨s, himage, hfirst⟩ := hchoose.returns trivial ⟨image, log⟩
  obtain ⟨s', himage', hsecond⟩ := (checks_check_grown hgrown fname).returns ⟨hfree, hsize⟩ s
  have hsame : s'.image = image := Eq.trans himage' himage
  -- the image is long enough for the move, or there is nothing to move
  have himages : behind = [] ∨ t.head.info.freePos ≤ s'.image.length := by
    rw [hinfo, hsame]
    refine or_iff_not_imp_left.mpr fun hmore => hlong ?_
    rw [hused]
    exact endsSame_of_behind hmore hbehind
  obtain ⟨head', image', hshift, hinfo', hcatalog, hlow, hhigh⟩ :=
    hgrown.exec_shiftData fname hsize s' himages
  have hwrite := exec_write t a.entry true fname hshift (haccepted.valid.saveRAM_eq hdevice)
  rw [hsame] at hlow hhigh
  refine ⟨t, before, file, behind, head', image', s'.log, hgrown, ?_, hsize, hinfo', hcatalog, hlow,
    hhigh, ?_⟩
  · rw [hgrown.info]
    exact hfree
  · rw [hexec, exec_bind_of_some hfirst, hadd, exec_bind_of_some hsecond, hwrite]

/-- Arguments that fit the image are taken: the catalogue is in order again, and the other files are
there. -/
theorem exec_trdAddFile_of_accepted {device : Option (Device n m)}
    (hdevice : ∀ d ∈ device, d.SlotLayout) (fname bp : Text) (h : head.WellFormed first total)
    (hread : STrdHead.readFromFile image = some head) (haccepted : a.Accepted device head image) :
    ∃ s head' files', (trdAddFile device fname bp a).exec ⟨image, []⟩ = (some (), s) ∧
      STrdHead.readFromFile s.image = some head' ∧ head'.Arranged files' first total ∧
      a.KeepsFiles head.used files' image s.image ∧
      (head'.WellFormed first total ↔ a.CountsDeleted head.used) := by
  obtain ⟨device, rfl⟩ := Option.isSome_iff_exists.mp haccepted.device
  have hlayout := hdevice device rfl
  have hvalid := haccepted.valid
  -- add mode moves data and lets a record grow; the other modes write behind the last one
  rcases Bool.eq_false_or_eq_true a.addplace with hadd | hadd
  · obtain ⟨t, before, file, behind, head', image', log, hgrown, hfree, hsize, hinfo, hcatalog,
      hlow, hhigh, hexec⟩ := exec_trdAddFile_grown hlayout fname bp h hread hadd haccepted
    obtain ⟨harranged, hwell⟩ :=
      hgrown.wellFormed_finish_iff h.front h.tracks hfree hsize hinfo hcatalog
    have hram : (device.mappedBytes a.start.toInt.toNat a.length.toNat).length
        ≤ a.sectorLength.toNat * sectorSz := by
      rw [Device.length_mappedBytes]
      exact hvalid.length_le
    refine ⟨_, _, _, hexec, readFromFile_finish hread ?_, harranged,
      hgrown.keepsFiles hadd h.front h.tracks hfree hram hlow hhigh, hwell⟩
    rw [hinfo, hgrown.info]
  · obtain ⟨t, files, log, hchosen, hroom, hfree, hexec⟩ :=
      exec_trdAddFile_chosen hlayout fname bp h hread hadd haccepted
    refine ⟨_, _, _, hexec, readFromFile_finish hread ?_,
      hchosen.arranged_finish h.tracks hroom hfree hvalid.sectors,
      hchosen.keepsFiles h.front hroom,
      hchosen.wellFormed_finish_iff h.front h.tracks hroom hfree hvalid.sectors⟩
    exact hchosen.disc

/-- Where arguments are taken, the deleted files have to be counted rightly. -/
theorem countsDeleted_of_addsWell {device : Option (Device n m)}
    (hdevice : ∀ d ∈ device, d.SlotLayout) (h : head.WellFormed first total)
    (hread : STrdHead.readFromFile image = some head)
    (hwell : AddsWell device fname bp a head image first total)
    (haccepted : a.Accepted device head image) : a.CountsDeleted head.used := by
  obtain ⟨s, head', files', hexec, hread', -, -, hiff⟩ :=
    exec_trdAddFile_of_accepted hdevice fname bp h hread haccepted
  rw [AddsWell, hexec] at hwell
  rcases hwell with ⟨hno, -⟩ | ⟨-, head'', hread'', hwell, -⟩
  · cases hno
  · rw [hread', Option.some_inj] at hread''
    rw [hread''] at hiff
    exact hiff.mp hwell

/-- Adding a file keeps a well-formed image exactly when the deleted files are counted rightly. -/
theorem addsWell_iff {device : Option (Device n m)} (hdevice : ∀ d ∈ device, d.SlotLayout)
    (fname bp : Text) (h : head.WellFormed first total)
    (hread : STrdHead.readFromFile image = some head) :
    AddsWell device fname bp a head image first total ↔
      (a.Accepted device head image → a.CountsDeleted head.used) := by
  refine ⟨countsDeleted_of_addsWell hdevice h hread, fun hcounts => ?_⟩
  by_cases haccepted : a.Accepted device head image
  · obtain ⟨s, head', files', hexec, hread', harranged, hkeeps, hiff⟩ :=
      exec_trdAddFile_of_accepted hdevice fname bp h hread haccepted
    rw [AddsWell, hexec]
    refine .inr ⟨rfl, head', hread', hiff.mpr (hcounts haccepted), ?_⟩
    rwa [harranged.used_eq]
  · obtain ⟨s, hexec, himage, herror⟩ := exec_trdAddFile_of_not_accepted fname bp h hread haccepted
    rw [AddsWell, hexec]
    exact .inl ⟨rfl, himage, herror⟩

/-! ### An empty disc -/

/-- The information about an empty disc, as the members of `STrdDisc` are set at first. -/
def STrdDisc.empty : STrdDisc where
  endOfRootDirectory := 0
  unused := .replicate 224 0
  freeSector := 0
  freeTrack := 1
  diskType := 0x16
  numOfFiles := 0
  numOfFreeSectors := 0x09F0
  trDosId := 0x10
  unused2 := .replicate 2 0
  password := .replicate 9 0x20
  unused3 := 0
  numOfDeleted := 0
  label := #v[0x20, 0x20, 0x20, 0x20, 0x20, 0x20, 0x20, 0x20, 0, 0, 0]

/-- An empty disc. -/
def STrdHead.empty : STrdHead where
  catalog := List.replicate numOfFilesMax (STrdFile.ofName [])
  info := STrdDisc.empty
  size := List.length_replicate

theorem used_empty : STrdHead.empty.used = [] := rfl

theorem wellFormed_empty : STrdHead.empty.WellFormed 0x10 0xA00 where
  described := ⟨rfl, fun _ hfile => absurd hfile List.not_mem_nil, by decide, rfl, rfl⟩
  deleted := rfl
  unused _ hfile := by
    rw [List.eq_of_mem_replicate hfile]
    rfl
  front := by decide
  tracks := by decide

/-- The name `A.C`. -/
def nameAC : CString := ⟨[0x41, 0x2E, 0x43], by decide⟩

/-- The same with the byte 1 in front of the dot. -/
def deletedName : CString := ⟨[0x01, 0x2E, 0x43], by decide⟩

/-- 256 bytes of the memory. -/
def pageArguments (fhobname : CString) : TrdArguments where
  fhobname := fhobname
  start := 0x8000
  length := 0x100
  autostart := -1
  replace := false
  addplace := false
  lengthMinusVars := -1

theorem valid_pageArguments (fhobname : CString) : (pageArguments fhobname).Valid := by
  have hline : (pageArguments fhobname).autostartLine = -1 := by
    rw [TrdArguments.autostartLine]
    split_ifs <;> rfl
  have hsectors : (pageArguments fhobname).sectorLength = 1 := by
    rw [TrdArguments.sectorLength, hline]
    show (((0x100 : Aint) + 255 + if 0 ≤ (-1 : Aint).toInt then 4 else 0) >>> 8).setWidth 8 = _
    decide
  refine ⟨fun hno => absurd rfl hno, ?_, ?_, ?_, by rw [hsectors]; decide⟩
  · show ¬((0x8000 : Aint).toInt < 0 ∨ 0xFFFF < (0x8000 : Aint).toInt)
    decide
  · show ¬((0x100 : Aint).toInt ≤ 0 ∨ 0xFF00 < (0x100 : Aint).toInt)
    decide
  · show ¬0x10000 < ((0x8000 : Aint) + 0x100).toInt
    decide

/-- They fit an empty disc. -/
theorem accepted_pageArguments (fhobname : CString) (device : Device n m) (image : List Byte) :
    (pageArguments fhobname).Accepted (some device) STrdHead.empty image where
  device := rfl
  valid := valid_pageArguments fhobname
  room _ := by
    rw [used_empty]
    exact Nat.succ_pos _
  free := by
    have hsectors := (pageArguments fhobname).sectorLength.isLt
    have hfree : STrdHead.empty.info.numOfFreeSectors.toNat = 0x9F0 := by decide
    omega
  grows hadd := absurd hadd Bool.false_ne_true

/-- The name of a deleted file: the new record is one of a deleted file, and it is not counted. -/
theorem not_addsWell : ¬AddsWell (some (zxSpectrum128 0)) [] []
    (pageArguments deletedName) STrdHead.empty (STrdHead.empty.writeToFile [])
    0x10 0xA00 := by
  intro hwell
  have hdevice : ∀ d ∈ some (zxSpectrum128 0), d.SlotLayout := fun d hd =>
    Option.some.inj hd ▸ slotLayout_zxSpectrum128 0
  have hcounts := countsDeleted_of_addsWell hdevice wellFormed_empty
    (readFromFile_writeToFile (by decide) []) hwell (accepted_pageArguments _ _ _)
  exact Bool.false_ne_true (hcounts (by decide)).1

/-- A file with a name of one letter and the extension `C`, on the first track of the data. -/
def trackRecord (letter sectors sector : Byte) : STrdFile :=
  { STrdFile.ofName (letter :: List.replicate 7 0x20 ++ [0x43]) with
    length := sectors.setWidth 16 * 256
    sectorLength := sectors
    startSector := sector
    startTrack := 1 }

/-- The files `A.C` and `D.C`, with a deleted one in between. -/
def STrdHead.threeFiles : STrdHead where
  catalog := [trackRecord 0x41 1 0, trackRecord 0x01 1 1, trackRecord 0x44 2 2]
    ++ List.replicate 125 (STrdFile.ofName [])
  info := { STrdDisc.empty with
    freeSector := 4
    numOfFiles := 3
    numOfFreeSectors := 0x09EC
    numOfDeleted := 1 }
  size := by simp [numOfFilesMax]

theorem wellFormed_threeFiles : STrdHead.threeFiles.WellFormed 0x10 0xA00 where
  described := ⟨by decide, by decide, by decide,
    ⟨rfl, by decide, rfl, by decide, rfl, by decide, rfl⟩, by decide⟩
  deleted := by decide
  unused := by decide
  front := by decide
  tracks := by decide

/-- The image of the disc, with the data of the files. -/
def threeFilesImage : List Byte :=
  STrdHead.threeFiles.writeToFile ((List.range 0x1400).map (BitVec.ofNat 8))

/-- The file `A.C` is on the disc and is not the last one. -/
example : STrdHead.threeFiles.used.map (pageArguments nameAC).same = [true, false, false] := by decide

/-- 256 bytes are added to `A.C`, with `D.C` behind it, or replace it. -/
theorem addsWell_threeFiles :
    AddsWell (some (zxSpectrum128 0)) [] [] { pageArguments nameAC with addplace := true }
        STrdHead.threeFiles threeFilesImage 0x10 0xA00 ∧
      AddsWell (some (zxSpectrum128 0)) [] [] { pageArguments nameAC with replace := true }
        STrdHead.threeFiles threeFilesImage 0x10 0xA00 := by
  have hdevice : ∀ d ∈ some (zxSpectrum128 0), d.SlotLayout := fun _ hd =>
    Option.some.inj hd ▸ slotLayout_zxSpectrum128 0
  have hread : STrdHead.readFromFile threeFilesImage = some STrdHead.threeFiles :=
    readFromFile_writeToFile (by decide) _
  constructor
  · exact (addsWell_iff hdevice [] [] wellFormed_threeFiles hread).mpr fun _ hmarked =>
      absurd hmarked (by decide)
  · exact (addsWell_iff hdevice [] [] wellFormed_threeFiles hread).mpr fun _ hmarked =>
      absurd hmarked (by decide)

end Sjasmplus
