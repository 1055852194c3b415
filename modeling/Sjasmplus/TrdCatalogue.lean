import Sjasmplus.TrdAddFile

/-!
# The catalogue of a TRD image

In a well-formed image the records in front of the first free one have their data one behind the
other, up to the first free sector, and the counters agree with them.

* `Describes.takeSectors` — sectors are taken from the free ones.
* `findFile_of_not_sameName`, `findFile_of_last` — what the search finds and deletes.
* `Arranged.deleteFile`, `Arranged.eraseLast` — the ways in which a file is replaced.
-/

namespace Sjasmplus

open Areas

/-! ### Well-formed images -/

/-- The information about the disc agrees with the records, but for the number of deleted files. -/
structure STrdDisc.Describes (info : STrdDisc) (files : List STrdFile) (first total : Nat) :
    Prop where
  count : info.numOfFiles.toNat = files.length
  sector : ∀ file ∈ files, file.startSector.toNat < 16
  freeSector : info.freeSector.toNat < 16
  areas : Consecutive STrdFile.start STrdFile.size first files info.freeStart
  free : info.freeStart + info.numOfFreeSectors.toNat = total

/-- The start of an image: `total` sectors, of which the data may take those from `first` on. -/
structure STrdHead.WellFormed (head : STrdHead) (first total : Nat) : Prop where
  described : head.info.Describes head.used first total
  deleted : head.info.numOfDeleted.toNat = head.used.countP STrdFile.deleted
  unused : ∀ file ∈ head.catalog.drop head.used.length, file.inUse = false
  -- the catalogue is in front of the data, and every sector has a track
  front : 9 ≤ first
  tracks : total ≤ 0xFFF

namespace STrdHead

variable {head : STrdHead} {first total : Nat} {files rest : List STrdFile}

theorem used_append : head.used ++ head.catalog.drop head.used.length = head.catalog := by
  have hprefix : head.used <+: head.catalog := List.takeWhile_prefix _
  obtain ⟨rest, hrest⟩ := hprefix
  rw [← hrest, List.drop_left]

theorem inUse_of_mem_used {file : STrdFile} (h : file ∈ head.used) : file.inUse = true :=
  List.mem_takeWhile_imp h

/-- The records in use are those in front. -/
theorem used_eq (hcatalog : head.catalog = files ++ rest)
    (hfiles : ∀ file ∈ files, file.inUse = true) (hrest : ∀ file ∈ rest, file.inUse = false) :
    head.used = files := by
  have hnil : rest.takeWhile STrdFile.inUse = [] := by
    cases rest with
    | nil => rfl
    | cons file rest =>
      rw [List.takeWhile_cons, hrest file List.mem_cons_self]
      rfl
  rw [used, hcatalog, List.takeWhile_append_of_pos hfiles, hnil, List.append_nil]

/-- The catalogue has these records in use, and the information about the disc agrees with them. -/
structure Arranged (head : STrdHead) (files : List STrdFile) (first total : Nat) : Prop where
  rest : ∃ rest, head.catalog = files ++ rest ∧ ∀ file ∈ rest, file.inUse = false
  inUse : ∀ file ∈ files, file.inUse = true
  described : head.info.Describes files first total

theorem Arranged.used_eq (h : head.Arranged files first total) : head.used = files := by
  obtain ⟨rest, hcatalog, hrest⟩ := h.rest
  exact STrdHead.used_eq hcatalog h.inUse hrest

theorem WellFormed.arranged (h : head.WellFormed first total) :
    head.Arranged head.used first total where
  rest := ⟨_, used_append.symm, h.unused⟩
  inUse _ := inUse_of_mem_used
  described := h.described

/-- Only the number of deleted files is missing. -/
theorem Arranged.wellFormed_iff (h : head.Arranged files first total) (hfront : 9 ≤ first)
    (htracks : total ≤ 0xFFF) : head.WellFormed first total ↔
      head.info.numOfDeleted.toNat = files.countP STrdFile.deleted := by
  have hused := h.used_eq
  constructor
  · intro hwell
    rw [hwell.deleted, hused]
  · intro hdeleted
    obtain ⟨rest, hcatalog, hrest⟩ := h.rest
    refine ⟨hused ▸ h.described, hused ▸ hdeleted, ?_, hfront, htracks⟩
    rwa [hused, hcatalog, List.drop_left]

end STrdHead

/-! ### Records -/

namespace STrdFile

variable {file other : STrdFile} {len : Nat}

@[simp] theorem first_setFirst (b : Byte) : (file.setFirst b).first = b := by
  simp [first, setFirst]

/-- The place of a file is not in its name. -/
theorem first_moved (file : STrdFile) (sector track : Byte) :
    STrdFile.first { file with startSector := sector, startTrack := track } = file.first := rfl

theorem sameName_moved (file : STrdFile) (sector track : Byte) (lname : Nat) :
    STrdFile.sameName { file with startSector := sector, startTrack := track } file lname = true :=
  decide_eq_true rfl

theorem inUse_setFirst {b : Byte} (hb : b ≠ 0) : (file.setFirst b).inUse = true := by
  rw [inUse, first_setFirst]
  exact decide_eq_true hb

/-- Files of one name have the same first byte. -/
theorem first_eq_of_sameName (h : file.sameName other len = true) (hlen : 0 < len) :
    file.first = other.first := by
  have hname : file.fullName.take len = other.fullName.take len := by simpa [sameName] using h
  have hhead := congrArg (fun l => l[0]?) hname
  simp only [List.getElem?_take_of_lt hlen, fullName] at hhead
  rw [List.getElem?_append_left (by simp), List.getElem?_append_left (by simp)] at hhead
  simpa [first] using hhead

theorem pos_eq : file.pos = file.start * 256 := by
  rw [pos, start, fileOffset, sectorSz]
  omega

end STrdFile

theorem STrdDisc.freePos_eq (info : STrdDisc) : info.freePos = info.freeStart * 256 := by
  rw [freePos, freeStart, fileOffset, sectorSz]
  omega

/-! ### Records that stay in their places -/

/-- Where the data are. -/
def STrdFile.place (file : STrdFile) : Byte × Byte × Byte :=
  (file.startTrack, file.startSector, file.sectorLength)

/-- The information about the disc does not depend on the names. -/
theorem STrdDisc.Describes.of_places {info : STrdDisc} {files files' : List STrdFile}
    {first total : Nat} (h : info.Describes files first total)
    (hplaces : files'.map STrdFile.place = files.map STrdFile.place) :
    info.Describes files' first total := by
  refine ⟨?_, fun file hfile => ?_, h.freeSector, h.areas.of_map_eq ?_, h.free⟩
  · have hlength := congrArg List.length hplaces
    rw [List.length_map, List.length_map] at hlength
    rw [hlength, h.count]
  · have hmem := List.mem_map_of_mem (f := STrdFile.place) hfile
    rw [hplaces] at hmem
    obtain ⟨other, hother, heq⟩ := List.mem_map.mp hmem
    have hsector := congrArg (fun p => p.2.1) heq
    have hlow := h.sector other hother
    rwa [show other.startSector = file.startSector from hsector] at hlow
  · have hmap := congrArg (List.map fun p : Byte × Byte × Byte =>
      (p.1.toNat * 16 + p.2.1.toNat, p.2.2.toNat)) hplaces
    rwa [List.map_map, List.map_map] at hmap

/-- The number of deleted files is another matter. -/
theorem STrdDisc.Describes.of_deleted {info : STrdDisc} {files : List STrdFile} {first total : Nat}
    (h : info.Describes files first total) (d : Byte) :
    STrdDisc.Describes { info with numOfDeleted := d } files first total :=
  ⟨h.count, h.sector, h.freeSector, h.areas, h.free⟩

/-! ### Moving on by a number of sectors -/

/-- The sector a number of sectors behind another one has its track and its number on the track. -/
theorem start_advance {track sector sectors : Byte}
    (hfit : track.toNat * 16 + sector.toNat + sectors.toNat ≤ 0xFFF) :
    (track + BitVec.ofNat 8 ((sectors.toNat + sector.toNat) / 16)).toNat * 16 +
        (BitVec.ofNat 8 ((sectors.toNat + sector.toNat) % 16)).toNat
      = track.toNat * 16 + sector.toNat + sectors.toNat := by
  rw [BitVec.toNat_add, BitVec.toNat_ofNat, BitVec.toNat_ofNat]
  omega

theorem sector_advance {sector sectors : Byte} :
    (BitVec.ofNat 8 ((sectors.toNat + sector.toNat) % 16)).toNat < 16 := by
  rw [BitVec.toNat_ofNat]
  omega

theorem STrdFile.start_shift {file : STrdFile} {sectors : Byte}
    (hfit : file.start + sectors.toNat ≤ 0xFFF) :
    (file.shift sectors).start = file.start + sectors.toNat :=
  start_advance hfit

theorem STrdFile.sector_shift {file : STrdFile} {sectors : Byte} :
    (file.shift sectors).startSector.toNat < 16 := sector_advance

/-- Sectors are taken from the free ones. -/
theorem STrdDisc.Describes.takeSectors {head : STrdHead} {files : List STrdFile}
    {first total : Nat} {sectors : Byte}
    (htotal : head.info.freeStart + head.info.numOfFreeSectors.toNat = total)
    (htracks : total ≤ 0xFFF) (hfree : sectors.toNat ≤ head.info.numOfFreeSectors.toNat)
    (hcount : head.info.numOfFiles.toNat = files.length)
    (hsector : ∀ file ∈ files, file.startSector.toNat < 16)
    (hareas : Consecutive STrdFile.start STrdFile.size first files
      (head.info.freeStart + sectors.toNat)) :
    (head.takeSectors sectors).info.Describes files first total := by
  -- the next free sector advances without a wrap, as the disc has at most `0xFFF` of them
  have hstart : (head.takeSectors sectors).info.freeStart = head.info.freeStart + sectors.toNat :=
    start_advance (by rw [STrdDisc.freeStart] at htotal; omega)
  have hleft : (head.takeSectors sectors).info.numOfFreeSectors.toNat
      = head.info.numOfFreeSectors.toNat - sectors.toNat := by
    have hword : (sectors.setWidth 16).toNat = sectors.toNat := by
      rw [BitVec.toNat_setWidth]
      omega
    rw [STrdHead.takeSectors, BitVec.toNat_sub, hword]
    omega
  refine ⟨hcount, hsector, sector_advance, hstart ▸ hareas, ?_⟩
  rw [hstart, hleft]
  omega

/-! ### The search -/

/-- The record is deleted if it has the name. -/
def TrdEntry.deleteSame (entry : TrdEntry) (file : STrdFile) : STrdFile :=
  if file.sameName entry.trdf entry.lname then file.setFirst 1 else file

section

variable {entry : TrdEntry} {deletes : Bool}

/-- Behind the last record of the name nothing is found. -/
theorem findFileLoop_of_not_sameName {files rest : List STrdFile} {i : Nat} {found : TrdSearch}
    (hfiles : ∀ file ∈ files, file.inUse = true)
    (hnames : ∀ file ∈ files, file.sameName entry.trdf entry.lname = false)
    (hrest : ∀ file ∈ rest, file.inUse = false) :
    findFileLoop deletes entry.trdf entry.lname (files ++ rest) i found = found := by
  -- by induction on the records in use; the first unused one ends the search
  induction files generalizing i with
  | nil =>
    cases rest with
    | nil => rfl
    | cons file rest =>
      rw [List.nil_append, findFileLoop, if_pos]
      rw [hrest file List.mem_cons_self]
      rfl
  | cons file files ih =>
    rw [List.cons_append, findFileLoop, if_neg, if_pos]
    · exact ih (fun f hf => hfiles f (List.mem_cons_of_mem _ hf))
        fun f hf => hnames f (List.mem_cons_of_mem _ hf)
    · rw [hnames file List.mem_cons_self]
      rfl
    · rw [hfiles file List.mem_cons_self]
      exact Bool.false_ne_true

theorem modify_middle {α : Type} (before : List α) (a : α) (behind : List α) (f : α → α) :
    (before ++ a :: behind).modify before.length f = before ++ f a :: behind := by
  induction before with
  | nil => rfl
  | cons b before ih =>
    rw [List.cons_append, List.length_cons, List.modify_succ_cons, ih, List.cons_append]

/-- What the search has deleted, with the record that is deleted as soon as another one is found. -/
def TrdSearch.pending (found : TrdSearch) : STrdHead :=
  match found.fileIndex with
  | some i => found.head.deleteFile i
  | none => found.head

/-- A record of the name is kept until the next one. -/
theorem findFileLoop_same {file : STrdFile} {files : List STrdFile} {i : Nat} {found : TrdSearch}
    (hfile : file.inUse = true) (hname : file.sameName entry.trdf entry.lname = true) :
    findFileLoop true entry.trdf entry.lname (file :: files) i found
      = findFileLoop true entry.trdf entry.lname files (i + 1) ⟨found.pending, some i⟩ := by
  rw [findFileLoop, if_neg (by rw [hfile]; exact Bool.false_ne_true),
    if_neg (by rw [hname]; exact Bool.false_ne_true)]
  rfl

theorem findFileLoop_other {file : STrdFile} {files : List STrdFile} {i : Nat} {found : TrdSearch}
    (hfile : file.inUse = true) (hname : file.sameName entry.trdf entry.lname = false) :
    findFileLoop deletes entry.trdf entry.lname (file :: files) i found
      = findFileLoop deletes entry.trdf entry.lname files (i + 1) found := by
  rw [findFileLoop, if_neg (by rw [hfile]; exact Bool.false_ne_true), if_pos (by rw [hname]; rfl)]

/-- The search deletes all records of the name but the last. -/
theorem findFileLoop_of_last {before : List STrdFile} {file : STrdFile}
    {behind rest : List STrdFile} (hbefore : ∀ f ∈ before, f.inUse = true)
    (hfile : file.inUse = true)
    (hname : file.sameName entry.trdf entry.lname = true) (hbehind : ∀ f ∈ behind, f.inUse = true)
    (hnames : ∀ f ∈ behind, f.sameName entry.trdf entry.lname = false)
    (hrest : ∀ f ∈ rest, f.inUse = false) {done : List STrdFile} {found : TrdSearch}
    (hcatalog : found.pending.catalog = done ++ (before ++ file :: (behind ++ rest))) :
    ∃ head : STrdHead,
      findFileLoop true entry.trdf entry.lname (before ++ file :: (behind ++ rest)) done.length found
        = ⟨head, some (done.length + before.length)⟩ ∧
      head.catalog = done ++ (before.map entry.deleteSame ++ file :: (behind ++ rest)) ∧
      head.info = { found.pending.info with
        numOfDeleted := found.pending.info.numOfDeleted +
          BitVec.ofNat 8 (before.countP (·.sameName entry.trdf entry.lname)) } := by
  -- by induction on the records in front: the one found so far is deleted at the next find
  induction before generalizing done found with
  | nil =>
    refine ⟨found.pending, ?_, hcatalog, ?_⟩
    · rw [List.nil_append, findFileLoop_same hfile hname,
        findFileLoop_of_not_sameName hbehind hnames hrest]
      rfl
    · simp
  | cons f before ih =>
    have huse : f.inUse = true := hbefore f List.mem_cons_self
    have hbefore' : ∀ g ∈ before, g.inUse = true :=
      fun g hg => hbefore g (List.mem_cons_of_mem _ hg)
    have hindex : ∀ g : STrdFile, (done ++ [g]).length = done.length + 1 := fun g => by simp
    -- a record of the name becomes the pending one, and is deleted by the rest of the search
    by_cases hsame : f.sameName entry.trdf entry.lname = true
    · have hpending : (⟨found.pending, some done.length⟩ : TrdSearch).pending.catalog
          = (done ++ [f.setFirst 1]) ++ (before ++ file :: (behind ++ rest)) := by
        show found.pending.catalog.modify done.length _ = _
        rw [hcatalog, List.cons_append, modify_middle, List.append_assoc, List.singleton_append]
      obtain ⟨head, hloop, hhead, hinfo⟩ := ih hbefore' hpending
      rw [hindex] at hloop
      refine ⟨head, ?_, ?_, ?_⟩
      · rw [List.cons_append, findFileLoop_same huse hsame, hloop, List.length_cons]
        congr 2
        omega
      · rw [hhead, List.map_cons, TrdEntry.deleteSame, if_pos hsame, List.append_assoc]
        rfl
      · have hcount : (f :: before).countP (·.sameName entry.trdf entry.lname)
            = 1 + before.countP (·.sameName entry.trdf entry.lname) := by
          simp [hsame, Nat.add_comm]
        rw [hinfo, hcount, BitVec.ofNat_add, ← BitVec.add_assoc]
        rfl
    · have hother : f.sameName entry.trdf entry.lname = false := Bool.eq_false_iff.mpr hsame
      have hcatalog' : found.pending.catalog
          = (done ++ [f]) ++ (before ++ file :: (behind ++ rest)) := by
        rw [hcatalog, List.append_assoc]
        rfl
      obtain ⟨head, hloop, hhead, hinfo⟩ := ih hbefore' hcatalog'
      rw [hindex] at hloop
      refine ⟨head, ?_, ?_, ?_⟩
      · rw [List.cons_append, findFileLoop_other huse hother, hloop, List.length_cons]
        congr 2
        omega
      · rw [hhead, List.map_cons, TrdEntry.deleteSame, if_neg hsame, List.append_assoc]
        rfl
      · have hcount : (f :: before).countP (·.sameName entry.trdf entry.lname)
            = before.countP (·.sameName entry.trdf entry.lname) := by
          simp [hother]
        rw [hinfo, hcount]

variable {head : STrdHead} {files before behind : List STrdFile} {file : STrdFile}
  {first total : Nat}

theorem TrdEntry.place_deleteSame (file : STrdFile) :
    (entry.deleteSame file).place = file.place := by
  rw [deleteSame]
  split_ifs <;> rfl

theorem TrdEntry.inUse_deleteSame {file : STrdFile} (h : file.inUse = true) :
    (entry.deleteSame file).inUse = true := by
  rw [deleteSame]
  split_ifs
  · exact STrdFile.inUse_setFirst (by decide)
  · exact h

/-- Without a record of the name the search changes nothing. -/
theorem findFile_of_not_sameName (h : head.Arranged files first total)
    (hnames : ∀ file ∈ files, file.sameName entry.trdf entry.lname = false) :
    head.findFile deletes entry = ⟨head, none⟩ := by
  obtain ⟨rest, hcatalog, hrest⟩ := h.rest
  rw [STrdHead.findFile, hcatalog]
  exact findFileLoop_of_not_sameName h.inUse hnames hrest

/-- Without a mode nothing is deleted. -/
theorem head_findFileLoop {entries : List STrdFile} {i : Nat} {found : TrdSearch} :
    (findFileLoop false entry.trdf entry.lname entries i found).head = found.head := by
  induction entries generalizing i found with
  | nil => rfl
  | cons file entries ih =>
    rw [findFileLoop]
    by_cases huse : (!file.inUse) = true
    · rw [if_pos huse]
    by_cases hname : (!file.sameName entry.trdf entry.lname) = true
    · rw [if_neg huse, if_pos hname, ih]
    · rw [if_neg huse, if_neg hname, ih]
      cases found.fileIndex <;> rfl

/-- The search finds the last record of the name, and deletes those in front of it. -/
theorem findFile_of_last (h : head.Arranged (before ++ file :: behind) first total)
    (hname : file.sameName entry.trdf entry.lname = true)
    (hnames : ∀ f ∈ behind, f.sameName entry.trdf entry.lname = false) :
    ∃ head' : STrdHead, head.findFile true entry = ⟨head', some before.length⟩ ∧
      head'.Arranged (before.map entry.deleteSame ++ file :: behind) first total ∧
      head'.info = { head.info with
        numOfDeleted := head.info.numOfDeleted +
          BitVec.ofNat 8 (before.countP (·.sameName entry.trdf entry.lname)) } := by
  obtain ⟨rest, hcatalog, hrest⟩ := h.rest
  have huse := h.inUse
  rw [List.forall_mem_append, List.forall_mem_cons] at huse
  obtain ⟨hbefore, hfile, hbehind⟩ := huse
  rw [List.append_assoc, List.cons_append] at hcatalog
  have hstart : (⟨head, none⟩ : TrdSearch).pending.catalog
      = [] ++ (before ++ file :: (behind ++ rest)) := hcatalog
  obtain ⟨head', hloop, hhead, hinfo⟩ :=
    findFileLoop_of_last hbefore hfile hname hbehind hnames hrest hstart
  rw [← hcatalog, List.length_nil, Nat.zero_add] at hloop
  -- a deleted record keeps its place, so that the areas stay as they are
  refine ⟨head', hloop, ⟨⟨rest, ?_, hrest⟩, ?_, ?_⟩, hinfo⟩
  · rw [hhead, List.nil_append, List.append_assoc, List.cons_append]
  · rw [List.forall_mem_append, List.forall_mem_cons, List.forall_mem_map]
    exact ⟨fun f hf => TrdEntry.inUse_deleteSame (hbefore f hf), hfile, hbehind⟩
  · rw [hinfo]
    refine (h.described.of_places ?_).of_deleted _
    simp only [List.map_append, List.map_cons, List.map_map]
    congr 1
    exact List.map_congr_left fun f _ => entry.place_deleteSame f

/-- A record by its index. -/
theorem STrdHead.Arranged.file_eq (h : head.Arranged (before ++ file :: behind) first total) :
    head.file before.length = file := by
  obtain ⟨rest, hcatalog, -⟩ := h.rest
  rw [STrdHead.file, hcatalog, List.append_assoc, List.getD_eq_getElem?_getD,
    List.getElem?_append_right le_rfl, Nat.sub_self]
  rfl

/-- The record is one of a deleted file then. -/
theorem STrdHead.Arranged.deleteFile (h : head.Arranged (before ++ file :: behind) first total) :
    (head.deleteFile before.length).Arranged (before ++ file.setFirst 1 :: behind) first total := by
  obtain ⟨rest, hcatalog, hrest⟩ := h.rest
  have huse := h.inUse
  refine ⟨⟨rest, ?_, hrest⟩, ?_, ?_⟩
  · rw [List.append_assoc, List.cons_append] at hcatalog ⊢
    show head.catalog.modify before.length _ = _
    rw [hcatalog, modify_middle]
  · rw [List.forall_mem_append, List.forall_mem_cons] at huse ⊢
    exact ⟨huse.1, STrdFile.inUse_setFirst (by decide), huse.2.2⟩
  · refine (h.described.of_places ?_).of_deleted _
    rw [List.map_append, List.map_append]
    rfl

/-- The last record is gone then, and its sectors are free. -/
theorem STrdHead.Arranged.eraseLast (h : head.Arranged (before ++ [file]) first total)
    (htracks : total ≤ 0xFFF) :
    (head.eraseLast before.length).Arranged before first total ∧
      (head.eraseLast before.length).info.numOfFreeSectors.toNat
        = head.info.numOfFreeSectors.toNat + file.size := by
  obtain ⟨rest, hcatalog, hrest⟩ := h.rest
  have huse := h.inUse
  rw [List.forall_mem_append] at huse
  have hdescribed := h.described
  -- the last area ends at the free sectors, which now start where it did
  obtain ⟨hareas, -, hlast⟩ := consecutive_concat.mp hdescribed.areas
  have hfree := hdescribed.free
  have hcount := hdescribed.count
  rw [List.length_append, List.length_singleton] at hcount
  have hcatalog' : head.catalog = before ++ file :: rest := by
    rw [hcatalog, List.append_assoc, List.singleton_append]
  have hfile : head.file before.length = file := h.file_eq
  have hstart : (head.eraseLast before.length).info.freeStart = file.start :=
    calc (head.eraseLast before.length).info.freeStart = (head.file before.length).start := rfl
      _ = file.start := by rw [hfile]
  have hnumber : (head.eraseLast before.length).info.numOfFreeSectors.toNat
      = head.info.numOfFreeSectors.toNat + file.size := by
    rw [STrdHead.eraseLast, hfile]
    have hword : (file.sectorLength.setWidth 16).toNat = file.size := by
      rw [BitVec.toNat_setWidth, STrdFile.size]
      omega
    rw [BitVec.toNat_add, hword]
    omega
  -- the record stays in the catalogue as an unused one
  refine ⟨⟨⟨file.setFirst 0 :: rest, ?_, ?_⟩, huse.1, ?_, ?_, ?_, ?_, ?_⟩, hnumber⟩
  · show head.catalog.modify before.length _ = _
    rw [hcatalog', modify_middle]
  · rw [List.forall_mem_cons, STrdFile.inUse, STrdFile.first_setFirst]
    exact ⟨rfl, hrest⟩
  · show (head.info.numOfFiles - 1).toNat = before.length
    rw [BitVec.toNat_sub, show (1 : Byte).toNat = 1 from rfl]
    omega
  · exact fun f hf => hdescribed.sector f (List.mem_append_left _ hf)
  · show (head.file before.length).startSector.toNat < 16
    rw [hfile]
    exact hdescribed.sector file (List.mem_append_right _ List.mem_cons_self)
  · rwa [hstart]
  · rw [hstart, hnumber]
    omega

end

end Sjasmplus
