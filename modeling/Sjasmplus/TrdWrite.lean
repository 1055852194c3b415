import Sjasmplus.TrdTarget

/-!
# What is written to a TRD image (`TRD_AddFile`, behind the checks)

* `checks_check_chosen`, `checks_check_grown` — which records pass the checks in front of the first
  change of the image.
* `Chosen.arranged_finish`, `Grown.arranged_shifted` — the catalogue that is written.
* `getElem?_dataImage`, `dataImage_grown` — the data that are written, and those that stay.
-/

namespace Sjasmplus

open Areas Program TrdProgram

variable {n m : Nat} {a : TrdArguments} {t : TrdTarget} {head : STrdHead} {fname : Text}
  {files before behind : List STrdFile} {file : STrdFile} {first total : Nat}

/-! ### The checks -/

/-- The checks of a record of the catalogue. -/
theorem checks_check {entry : TrdEntry} {addplace : Bool} (hindex : t.fileIndex ≤ numOfFilesMax) :
    Checks (t.check entry addplace fname)
      (t.fileIndex ≠ numOfFilesMax ∧ ¬(t.target.inUse ∧ t.isNewTarget entry) ∧
        entry.trdf.sectorLength.toNat ≤ t.head.info.numOfFreeSectors.toNat ∧
        t.keepSectors addplace + entry.trdf.sectorLength.toNat ≤ 0xFF) () := by
  have hinside : Checks (when (numOfFilesMax < t.fileIndex) do
      report (.undefined "record outside of the catalogue")
      exit) True () := by
    rw [Program.when, if_neg (Nat.not_lt.mpr hindex)]
    exact .pure ()
  refine Decides.congr (checks_refuseIf.bind fun _ => hinside.bind fun _ =>
    checks_refuseIf.bind fun _ => checks_refuseIf.bind fun _ => checks_refuseIf) ?_
  rw [Nat.not_lt, Nat.not_lt, true_and]

theorem STrdHead.Arranged.length_le (h : head.Arranged files first total) :
    files.length ≤ numOfFilesMax := by
  obtain ⟨rest, hcatalog, -⟩ := h.rest
  have hsize := head.size
  rw [hcatalog, List.length_append] at hsize
  omega

/-- There is a free record behind those in use. -/
theorem STrdHead.Arranged.exists_free (h : head.Arranged files first total)
    (hroom : files.length < numOfFilesMax) : ∃ free rest, head.catalog = files ++ free :: rest ∧
      free.inUse = false ∧ ∀ f ∈ rest, f.inUse = false := by
  obtain ⟨rest, hcatalog, hrest⟩ := h.rest
  have hsize := head.size
  cases rest with
  | nil =>
    rw [hcatalog, List.append_nil] at hsize
    omega
  | cons free rest =>
    rw [List.forall_mem_cons] at hrest
    exact ⟨free, rest, hcatalog, hrest⟩

theorem STrdHead.file_of_catalog {rest : List STrdFile} (h : head.catalog = files ++ file :: rest) :
    head.file files.length = file := by
  rw [STrdHead.file, h, List.getD_eq_getElem?_getD, List.getElem?_append_right le_rfl, Nat.sub_self]
  rfl

/-- A free record has another name. -/
theorem isNewTarget_of_not_inUse (h : t.target.inUse = false) : t.isNewTarget a.entry = true := by
  rw [TrdTarget.isNewTarget, TrdArguments.trdf_entry, TrdArguments.lname_entry, Bool.not_eq_true']
  refine Bool.eq_false_iff.mpr fun hname => ?_
  have hzero : t.target.first = 0 := by
    rwa [STrdFile.inUse, decide_eq_false_iff_not, not_not] at h
  have hfirst := STrdFile.first_eq_of_sameName hname TrdArguments.lname_pos
  rw [hzero] at hfirst
  exact first_trdf_ne_zero a hfirst.symm

theorem isNewTarget_of_same (htarget : t.target = file) (h : a.same file = true) :
    t.isNewTarget a.entry = false := by
  have hname : file.sameName a.trdf a.lname = true := h
  rw [TrdTarget.isNewTarget, TrdArguments.trdf_entry, TrdArguments.lname_entry, htarget, hname]
  rfl

/-- A record behind the last one passes when there is a free record, and there are free sectors. -/
theorem checks_check_chosen (h : t.Chosen a head files first total) (fname : Text) :
    Checks (t.check a.entry false fname)
      (files.length < numOfFilesMax ∧
        a.sectorLength.toNat ≤ t.head.info.numOfFreeSectors.toNat) () := by
  have hlength := h.arranged.length_le
  have hsectors := a.sectorLength.isLt
  refine (checks_check (h.index ▸ hlength)).congr ?_
  rw [TrdArguments.trdf_entry, TrdArguments.sectorLength_trdf, h.index, TrdTarget.keepSectors,
    if_neg Bool.false_ne_true]
  constructor
  · rintro ⟨hroom, -, hfree, -⟩
    exact ⟨by omega, hfree⟩
  · rintro ⟨hroom, hfree⟩
    -- the record behind the last one is not in use, so that it does not have to grow
    obtain ⟨free, rest, hcatalog, hunused, -⟩ := h.arranged.exists_free hroom
    have htarget : t.target = free := by
      rw [TrdTarget.target, h.index, STrdHead.file_of_catalog hcatalog]
    refine ⟨by omega, ?_, hfree, ?_⟩
    · rw [htarget, hunused]
      exact fun hyes => Bool.false_ne_true hyes.1
    · omega

/-- The record that grows passes when there are free sectors, and not too many altogether. -/
theorem checks_check_grown (h : t.Grown a head before file behind first total) (fname : Text) :
    Checks (t.check a.entry true fname)
      (a.sectorLength.toNat ≤ head.info.numOfFreeSectors.toNat ∧
        file.size + a.sectorLength.toNat ≤ 0xFF) () := by
  have hlength := h.arranged.length_le
  rw [List.length_append, List.length_map, List.length_cons] at hlength
  have htarget : t.target = file := by
    have hindex := h.arranged.file_eq
    rwa [List.length_map, ← h.index] at hindex
  refine (checks_check (by rw [h.index]; omega)).congr ?_
  rw [TrdArguments.trdf_entry, TrdArguments.sectorLength_trdf, TrdTarget.keepSectors, if_pos rfl,
    htarget, h.index, h.info]
  refine ⟨fun hall => hall.2.2, fun hall => ⟨by omega, ?_, hall⟩⟩
  rintro ⟨-, hnew⟩
  rw [isNewTarget_of_same htarget h.same] at hnew
  exact Bool.false_ne_true hnew

/-! ### The catalogue that is written -/

theorem finish_new (h : t.isNewTarget a.entry = true) :
    t.finish a.entry head = head.countFile.takeSectors a.sectorLength := by
  rw [TrdTarget.finish, TrdArguments.trdf_entry, TrdArguments.sectorLength_trdf, h]
  rfl

theorem finish_old (h : t.isNewTarget a.entry = false) :
    t.finish a.entry head = head.takeSectors a.sectorLength := by
  rw [TrdTarget.finish, TrdArguments.trdf_entry, TrdArguments.sectorLength_trdf, h]
  rfl

namespace TrdTarget.Chosen

variable (h : t.Chosen a head files first total)
include h

theorem isNewTarget_eq (hroom : files.length < numOfFilesMax) : t.isNewTarget a.entry = true := by
  obtain ⟨free, rest, hcatalog, hunused, -⟩ := h.arranged.exists_free hroom
  refine isNewTarget_of_not_inUse ?_
  rw [TrdTarget.target, h.index, STrdHead.file_of_catalog hcatalog, hunused]

/-- The new record: its data are behind all others. -/
theorem newTarget_eq (hroom : files.length < numOfFilesMax) :
    t.newTarget a.entry false = { a.trdf with
      startSector := t.head.info.freeSector, startTrack := t.head.info.freeTrack } := by
  rw [TrdTarget.newTarget, if_neg Bool.false_ne_true, if_pos (h.isNewTarget_eq hroom),
    TrdArguments.trdf_entry]

theorem start_newTarget (hroom : files.length < numOfFilesMax) :
    (t.newTarget a.entry false).start = t.head.info.freeStart := by
  rw [h.newTarget_eq hroom]
  rfl

theorem size_newTarget (hroom : files.length < numOfFilesMax) :
    (t.newTarget a.entry false).size = a.sectorLength.toNat := by
  rw [h.newTarget_eq hroom, STrdFile.size, TrdArguments.sectorLength_trdf]

theorem first_newTarget (hroom : files.length < numOfFilesMax) :
    (t.newTarget a.entry false).first = a.trdf.first := by
  rw [h.newTarget_eq hroom, STrdFile.first_moved]

theorem deleted_newTarget (hroom : files.length < numOfFilesMax) :
    (t.newTarget a.entry false).deleted = decide a.Marked := by
  rw [STrdFile.deleted, h.first_newTarget hroom]
  rfl

/-- The catalogue with a record behind the last one. -/
theorem arranged_finish (htracks : total ≤ 0xFFF) (hroom : files.length < numOfFilesMax)
    (hfree : a.sectorLength.toNat ≤ t.head.info.numOfFreeSectors.toNat)
    (hsome : a.sectorLength ≠ 0) :
    (t.finish a.entry (t.newHead a.entry false)).Arranged (files ++ [t.newTarget a.entry false])
      first total := by
  obtain ⟨free, rest, hcatalog, -, hrest⟩ := h.arranged.exists_free hroom
  have hdescribed := h.arranged.described
  have hpos : 0 < (t.newTarget a.entry false).size := by
    rw [h.size_newTarget hroom, Nat.pos_iff_ne_zero]
    exact fun hzero => hsome (BitVec.eq_of_toNat_eq hzero)
  -- the new area starts where the last one ends
  have hareas := hdescribed.areas.concat (h.start_newTarget hroom) hpos
  rw [h.size_newTarget hroom] at hareas
  -- the catalogue, the names of its records, and the counters of the disc
  rw [finish_new (h.isNewTarget_eq hroom)]
  refine ⟨⟨rest, ?_, hrest⟩, ?_, ?_⟩
  · show t.head.catalog.modify t.fileIndex _ = _
    rw [h.index, hcatalog, modify_middle, List.append_assoc, List.singleton_append]
  · rw [List.forall_mem_append, List.forall_mem_singleton, STrdFile.inUse, h.first_newTarget hroom]
    exact ⟨h.arranged.inUse, decide_eq_true (first_trdf_ne_zero a)⟩
  · refine STrdDisc.Describes.takeSectors hdescribed.free htracks hfree ?_ ?_ hareas
    · have hcount := hdescribed.count
      rw [numOfFilesMax] at hroom
      show (t.head.info.numOfFiles + 1).toNat = _
      rw [BitVec.toNat_add, hcount, List.length_append, List.length_singleton,
        show (1 : Byte).toNat = 1 from rfl]
      omega
    · rw [List.forall_mem_append, List.forall_mem_singleton, h.newTarget_eq hroom]
      exact ⟨hdescribed.sector, hdescribed.freeSector⟩

end TrdTarget.Chosen

/-! ### Records whose data move on -/

section

variable {fileIndex targetPos i : Nat} {sectors : Byte} {entries rest : List STrdFile}

/-- Records with data in front of the file are passed. -/
theorem shiftLoop_front (hbefore : ∀ f ∈ before, f.inUse = true ∧ f.pos < targetPos)
    (hindex : i + before.length ≤ fileIndex) :
    shiftLoop fileIndex targetPos sectors (before ++ entries) i
      = (shiftLoop fileIndex targetPos sectors entries (i + before.length)).map (before ++ ·) := by
  induction before generalizing i with
  | nil => exact Option.map_id'.symm
  | cons f before ih =>
    rw [List.forall_mem_cons] at hbefore
    obtain ⟨⟨huse, hpos⟩, htail⟩ := hbefore
    rw [List.length_cons] at hindex
    rw [List.cons_append, shiftLoop, ih htail (by omega), huse, Bool.not_true,
      if_neg Bool.false_ne_true,
      if_neg (by omega), if_neg, if_pos hpos, Option.map_map, List.length_cons,
      Nat.add_right_comm i 1, Nat.add_assoc i before.length 1]
    · rfl
    · rw [decide_eq_true hpos, decide_eq_true (show i < fileIndex by omega)]
      exact fun hno => hno rfl

/-- Those behind it get another place. -/
theorem shiftLoop_behind (hbehind : ∀ f ∈ behind, f.inUse = true ∧ targetPos ≤ f.pos)
    (hrest : ∀ f ∈ rest, f.inUse = false) (hindex : fileIndex < i) :
    shiftLoop fileIndex targetPos sectors (behind ++ rest) i
      = some (behind.map (·.shift sectors) ++ rest) := by
  -- by induction on the records behind; the first unused one ends the loop
  induction behind generalizing i with
  | nil =>
    cases rest with
    | nil => rfl
    | cons f rest =>
      rw [List.nil_append, shiftLoop, if_pos]
      · rfl
      · rw [hrest f List.mem_cons_self]
        rfl
  | cons f behind ih =>
    rw [List.forall_mem_cons] at hbehind
    obtain ⟨⟨huse, hpos⟩, htail⟩ := hbehind
    rw [List.cons_append, shiftLoop, ih htail (by omega), huse, Bool.not_true,
      if_neg Bool.false_ne_true,
      if_neg (by omega), if_neg, if_neg (by omega)]
    · rfl
    -- the source asserts that index and position are on the same side of the file
    · rw [decide_eq_false (show ¬f.pos < targetPos by omega),
        decide_eq_false (show ¬i < fileIndex by omega)]
      exact fun hno => hno rfl

end

/-- The records when the data behind the file have moved on. -/
def TrdTarget.shifted (t : TrdTarget) (a : TrdArguments) (before behind : List STrdFile) :
    List STrdFile :=
  before.map a.entry.deleteSame ++
    t.newTarget a.entry true :: behind.map (·.shift a.sectorLength)

namespace TrdTarget.Grown

variable (h : t.Grown a head before file behind first total)
include h

theorem target_eq : t.target = file := by
  have hindex := h.arranged.file_eq
  rwa [List.length_map, ← h.index] at hindex

/-- The record with more sectors. -/
theorem newTarget_eq : t.newTarget a.entry true
    = { file with sectorLength := file.sectorLength + a.sectorLength } := by
  rw [TrdTarget.newTarget, if_pos rfl, h.target_eq, TrdArguments.trdf_entry,
    TrdArguments.sectorLength_trdf]

theorem size_newTarget (hsize : file.size + a.sectorLength.toNat ≤ 0xFF) :
    (t.newTarget a.entry true).size = file.size + a.sectorLength.toNat := by
  rw [h.newTarget_eq, STrdFile.size, BitVec.toNat_add]
  rw [STrdFile.size] at hsize ⊢
  omega

/-- Where the records are: some in front of the file, and some behind it. -/
theorem areas : Consecutive STrdFile.start STrdFile.size first (before.map a.entry.deleteSame)
    file.start ∧ 0 < file.size ∧
      Consecutive STrdFile.start STrdFile.size (file.start + file.size) behind
        t.head.info.freeStart := by
  obtain ⟨middle, hfront, rfl, hsize, hrest⟩ := consecutive_append.mp h.arranged.described.areas
  exact ⟨hfront, hsize, hrest⟩

/-- The data end at the free space exactly when the record is the last one. -/
theorem end_lt_freePos_iff :
    file.pos + file.size * sectorSz < t.head.info.freePos ↔ behind ≠ [] := by
  obtain ⟨-, -, hrest⟩ := h.areas
  rw [STrdFile.pos_eq, STrdDisc.freePos_eq, sectorSz]
  cases behind with
  | nil =>
    rw [consecutive_nil] at hrest
    exact ⟨fun hlt => by omega, fun hno => absurd rfl hno⟩
  | cons f behind =>
    obtain ⟨-, hsize, hbehind⟩ := hrest
    have hle := hbehind.le
    exact ⟨fun _ => List.cons_ne_nil _ _, fun _ => by omega⟩

/-- The records behind the file move on with their data. -/
theorem start_shift (htracks : total ≤ 0xFFF)
    (hfree : a.sectorLength.toNat ≤ t.head.info.numOfFreeSectors.toNat) {f : STrdFile}
    (hf : f ∈ behind) : (f.shift a.sectorLength).start = f.start + a.sectorLength.toNat := by
  obtain ⟨-, -, hrest⟩ := h.areas
  have hend := (hrest.between hf).2.2
  have htotal := h.arranged.described.free
  exact STrdFile.start_shift (by omega)

/-- The catalogue with the record that has grown. -/
theorem arranged_shifted (htracks : total ≤ 0xFFF)
    (hfree : a.sectorLength.toNat ≤ t.head.info.numOfFreeSectors.toNat)
    (hsize : file.size + a.sectorLength.toNat ≤ 0xFF) {head' : STrdHead}
    (hinfo : head'.info = t.head.info)
    (hcatalog : ∃ rest, head'.catalog = t.shifted a before behind ++ rest ∧
      ∀ f ∈ rest, f.inUse = false) :
    (head'.takeSectors a.sectorLength).Arranged (t.shifted a before behind) first total := by
  have hdescribed := h.arranged.described
  have huse := h.arranged.inUse
  have hsector := hdescribed.sector
  have htotal := hdescribed.free
  rw [List.forall_mem_append, List.forall_mem_cons] at huse hsector
  have hmoves : ∀ f ∈ behind, (f.shift a.sectorLength).start = f.start + a.sectorLength.toNat ∧
      (f.shift a.sectorLength).size = f.size := fun f hf => ⟨h.start_shift htracks hfree hf, rfl⟩
  -- one area grows, and all behind it start as many sectors later
  have hareas := hdescribed.areas.grow (show (t.newTarget a.entry true).start = file.start by
    rw [h.newTarget_eq]; rfl) (h.size_newTarget hsize) hmoves
  refine ⟨hcatalog, ?_, STrdDisc.Describes.takeSectors (hinfo ▸ htotal) htracks (hinfo ▸ hfree) ?_
    ?_ (hinfo ▸ hareas)⟩
  · rw [TrdTarget.shifted, List.forall_mem_append, List.forall_mem_cons, h.newTarget_eq]
    exact ⟨huse.1, huse.2.1, List.forall_mem_map.mpr huse.2.2⟩
  · rw [hinfo, hdescribed.count, TrdTarget.shifted, List.length_append, List.length_append,
      List.length_cons, List.length_cons, List.length_map, List.length_map]
  · rw [TrdTarget.shifted, List.forall_mem_append, List.forall_mem_cons, h.newTarget_eq]
    exact ⟨hsector.1, hsector.2.1, List.forall_mem_map.mpr fun f _ => STrdFile.sector_shift⟩

/-- The loop over the catalogue finds all records in order. -/
theorem shiftLoop_eq {rest : List STrdFile} (hrest : ∀ f ∈ rest, f.inUse = false) :
    shiftLoop t.fileIndex file.pos a.sectorLength (before.map a.entry.deleteSame ++
        t.newTarget a.entry true :: (behind ++ rest)) 0
      = some (t.shifted a before behind ++ rest) := by
  have huse := h.arranged.inUse
  obtain ⟨hfront, hpos, hbehind⟩ := h.areas
  rw [List.forall_mem_append, List.forall_mem_cons] at huse
  -- the areas are consecutive: the position of a record decides on which side it is
  have hbefore : ∀ f ∈ before.map a.entry.deleteSame, f.inUse = true ∧ f.pos < file.pos := by
    intro f hf
    obtain ⟨-, hsize, hend⟩ := hfront.between hf
    rw [STrdFile.pos_eq, STrdFile.pos_eq]
    exact ⟨huse.1 f hf, by omega⟩
  have hafter : ∀ f ∈ behind, f.inUse = true ∧ file.pos ≤ f.pos := by
    intro f hf
    have hstart := (hbehind.between hf).1
    rw [STrdFile.pos_eq, STrdFile.pos_eq]
    exact ⟨huse.2.2 f hf, by omega⟩
  have hindex : 0 + (before.map a.entry.deleteSame).length = t.fileIndex := by
    rw [List.length_map, h.index, Nat.zero_add]
  have hnew : (t.newTarget a.entry true).inUse = true := by
    rw [h.newTarget_eq]
    exact huse.2.1
  -- in front, at, and behind the file
  rw [shiftLoop_front hbefore hindex.le, hindex, shiftLoop, hnew, Bool.not_true,
    if_neg Bool.false_ne_true, if_pos rfl, shiftLoop_behind hafter hrest (Nat.lt_succ_self _),
    Option.map_some, Option.map_some, TrdTarget.shifted, List.append_assoc, List.cons_append]

/-- The record in the catalogue, before the data move on. -/
theorem catalog_newHead : ∃ rest, (t.newHead a.entry true).catalog
      = before.map a.entry.deleteSame ++ t.newTarget a.entry true :: (behind ++ rest) ∧
    ∀ f ∈ rest, f.inUse = false := by
  obtain ⟨rest, hcatalog, hrest⟩ := h.arranged.rest
  refine ⟨rest, ?_, hrest⟩
  have hindex : t.fileIndex = (before.map a.entry.deleteSame).length := by
    rw [List.length_map, h.index]
  show t.head.catalog.modify t.fileIndex _ = _
  rw [hcatalog, hindex, List.append_assoc, List.cons_append, modify_middle]

/-- The data behind the file move on, if the image has them all. -/
theorem exec_shiftData (fname : Text) (hsize : file.size + a.sectorLength.toNat ≤ 0xFF)
    (s : TrdState) (hread : behind = [] ∨ t.head.info.freePos ≤ s.image.length) :
    ∃ head' image', (t.shiftData a.entry fname).exec s = (some head', { s with image := image' }) ∧
      head'.info = t.head.info ∧
      (∃ rest, head'.catalog = t.shifted a before behind ++ rest ∧ ∀ f ∈ rest, f.inUse = false) ∧
      MovesBytes 0 (file.pos + file.size * sectorSz) 0 s.image image' ∧
      MovesBytes (file.pos + file.size * sectorSz) t.head.info.freePos
        (a.sectorLength.toNat * sectorSz) s.image image' := by
  obtain ⟨rest, hcatalog, hrest⟩ := h.catalog_newHead
  have hpos : (t.newTarget a.entry true).pos = file.pos := by
    rw [h.newTarget_eq]
    rfl
  have hkeep : t.keepSectors true = file.size := by
    rw [TrdTarget.keepSectors, if_pos rfl, h.target_eq]
    rfl
  have hnew : (t.newTarget a.entry true).sectorLength.toNat = file.size + a.sectorLength.toNat :=
    h.size_newTarget hsize
  rw [TrdTarget.shiftData]
  dsimp only
  rw [hpos, hkeep, hnew]
  -- the data between the end of the file and the free sectors: none without records behind
  by_cases hsome : file.pos + file.size * sectorSz < t.head.info.freePos
  · have himage := hread.resolve_left (h.end_lt_freePos_iff.mp hsome)
    obtain ⟨head', hshift, hhead, hinfo⟩ := shiftFiles_eq_some (hcatalog ▸ h.shiftLoop_eq hrest)
    have hall : (fread s.image (file.pos + file.size * sectorSz)
        (t.head.info.freePos - (file.pos + file.size * sectorSz))).length
          = t.head.info.freePos - (file.pos + file.size * sectorSz) := by
      rw [fread, List.length_take, List.length_drop]
      omega
    -- all of it can be read, so that the check of the source passes
    have hpass : (refuseIf ((fread s.image (file.pos + file.size * sectorSz)
        (t.head.info.freePos - (file.pos + file.size * sectorSz))).length
          ≠ t.head.info.freePos - (file.pos + file.size * sectorSz)) "TRD read error" (some fname)
        .ifFirst : TrdProgram Unit).exec s = (some (), s) := by
      rw [refuseIf, if_neg (not_not.mpr hall)]
      rfl
    have hmoved := movesBytes_fwrite_fread (d := a.sectorLength.toNat * sectorSz) hall
    rw [if_pos hsome, exec_bind_of_some (exec_get s), exec_bind_of_some hpass,
      exec_bind_of_some (exec_modify _ s), TrdArguments.trdf_entry, TrdArguments.sectorLength_trdf,
      hshift, Nat.add_mul, ← Nat.add_assoc]
    refine ⟨head', _, rfl, hinfo, ⟨rest, hhead, hrest⟩, movesBytes_fwrite (.inl (by omega)), ?_⟩
    rwa [Nat.add_sub_of_le hsome.le] at hmoved
  · rw [if_neg hsome]
    have hnil : behind = [] := not_not.mp fun hno => hsome (h.end_lt_freePos_iff.mpr hno)
    refine ⟨t.newHead a.entry true, s.image, rfl, rfl, ⟨rest, ?_, hrest⟩, .refl, ?_⟩
    · rw [hcatalog, TrdTarget.shifted, hnil, List.append_assoc]
      rfl
    · exact fun k b hlow hhigh => absurd (hlow.trans_lt hhigh) hsome

/-- The data behind the file are not all there: nothing is written. -/
theorem exec_shiftData_of_short (fname : Text) (hsome : behind ≠ []) (s : TrdState)
    (hshort : s.image.length < t.head.info.freePos) :
    ∃ s', SameImage s s' ∧ ReportsError s' ∧ (t.shiftData a.entry fname).exec s = (none, s') := by
  have hpos : (t.newTarget a.entry true).pos = file.pos := by
    rw [h.newTarget_eq]
    rfl
  have hkeep : t.keepSectors true = file.size := by
    rw [TrdTarget.keepSectors, if_pos rfl, h.target_eq]
    rfl
  have hend := h.end_lt_freePos_iff.mpr hsome
  -- the read comes back short, and the check of the source refuses
  have hfew : (fread s.image (file.pos + file.size * sectorSz)
      (t.head.info.freePos - (file.pos + file.size * sectorSz))).length
        ≠ t.head.info.freePos - (file.pos + file.size * sectorSz) := by
    rw [fread, List.length_take, List.length_drop]
    omega
  obtain ⟨s', himage, herror, hexec⟩ :=
    exec_refuse (α := Unit) "TRD read error" (some fname) .ifFirst s
  refine ⟨s', himage, herror, ?_⟩
  rw [TrdTarget.shiftData]
  dsimp only
  rw [hpos, hkeep, if_pos hend, exec_bind_of_some (exec_get s), refuseIf, if_pos hfew, exec_bind,
    hexec]

end TrdTarget.Grown

/-! ### The data that are written -/

namespace TrdTarget

/-- The place of the data. -/
def writePos (t : TrdTarget) (entry : TrdEntry) (addplace : Bool) : Nat :=
  (t.newTarget entry addplace).pos + t.keepSectors addplace * sectorSz

/-- The image with the data. -/
def dataImage (t : TrdTarget) (entry : TrdEntry) (addplace : Bool) (ram image : List Byte) :
    List Byte :=
  let image := fwrite image (t.writePos entry addplace) ram
  if !addplace ∧ 0 ≤ entry.autostart.toInt then
    fwrite image (t.writePos entry addplace + ram.length)
      [0x80, 0xAA, entry.autostart.setWidth 8, (entry.autostart >>> 8).setWidth 8]
  else image

variable {entry : TrdEntry} {addplace : Bool} {device : Device n m} {ram image : List Byte}

theorem exec_writeData (hram : device.saveRAM a.start a.length = (ram, true)) (s : TrdState) :
    (t.writeData entry addplace device a fname).exec s
      = (some (), { s with image := t.dataImage entry addplace ram s.image }) := by
  rw [writeData]
  dsimp only
  rw [hram, exec_bind_of_some (exec_modify _ s), dataImage]
  by_cases hline : (!addplace) = true ∧ 0 ≤ entry.autostart.toInt
  · rw [if_pos hline, Program.when, if_pos hline]
    rfl
  · rw [if_neg hline, Program.when, if_neg hline]
    rfl

/-- The bytes in front of the data stay. -/
theorem movesBytes_dataImage {low high : Nat} (h : high ≤ t.writePos entry addplace) :
    MovesBytes low high 0 image (t.dataImage entry addplace ram image) := by
  have hdata : MovesBytes low high 0 image (fwrite image (t.writePos entry addplace) ram) :=
    movesBytes_fwrite (.inl h)
  rw [dataImage]
  split_ifs
  · exact hdata.stay_trans (movesBytes_fwrite (.inl (by omega)))
  · exact hdata

/-- The data themselves. -/
theorem getElem?_dataImage {k : Nat} {b : Byte} (hk : ram[k]? = some b) :
    (t.dataImage entry addplace ram image)[t.writePos entry addplace + k]? = some b := by
  have hlength := (List.getElem?_eq_some_iff.mp hk).1
  have hdata : (fwrite image (t.writePos entry addplace) ram)[t.writePos entry addplace + k]?
      = some b := by
    rw [getElem?_fwrite_of_mem (by omega) (by omega), Nat.add_sub_cancel_left, hk]
  rw [dataImage]
  split_ifs
  · have hinside := (List.getElem?_eq_some_iff.mp hdata).1
    rw [getElem?_fwrite_of_not_mem hinside (.inl (by omega)), hdata]
  · exact hdata

/-- Data that are added have no line number behind them. -/
theorem dataImage_grown :
    t.dataImage entry true ram image = fwrite image (t.writePos entry true) ram := by
  rw [dataImage, if_neg]
  exact fun hno => Bool.false_ne_true hno.1

end TrdTarget

end Sjasmplus
