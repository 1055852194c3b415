import Sjasmplus.TrdCatalogue

/-!
# The record of a file that is added (`TRD_AddFile`, up to the first change of the image)

* `Chosen` — what the catalogue is when a record is to be added behind the last one, and
  `checks_chooseFile_chosen`, that normal mode and replace mode come to it.
* `checks_chooseFile_grown` — the record that grows in add mode.
* `countP_deleteSame` — how many files are deleted, where the number in the image is right only if
  the name does not begin as the name of a deleted file does.
-/

namespace Sjasmplus

open Areas Program TrdProgram

namespace TrdArguments

variable (a : TrdArguments)

/-- The record has the name of the file. -/
def same (file : STrdFile) : Bool := file.sameName a.trdf a.lname

/-- The name begins as the name of a deleted file does. -/
def Marked : Prop := a.trdf.first = 1

instance : Decidable a.Marked := inferInstanceAs (Decidable (_ = _))

/-- The last record has the name of the file. -/
def endsSame (files : List STrdFile) : Bool := files.getLast?.any a.same

/-- The last record is erased in replace mode. -/
def erased (files : List STrdFile) : List STrdFile :=
  if !a.addplace ∧ a.replace ∧ a.endsSame files then files.getLast?.toList else []

/-- The records whose files need not stay: those of deleted files, and those that are replaced. -/
def lost (file : STrdFile) : Bool := file.deleted || (a.addplace || a.replace) && a.same file

/-- The deleted files are counted rightly when the name is not the one of a deleted file, or when
such a file is replaced and there is no other one of its name. -/
def CountsDeleted (files : List STrdFile) : Prop :=
  a.Marked → (a.addplace || a.replace) = true ∧ (files.filter a.same).length = 1

/-- No file of the name stays in front of the new one: the name is not the one of a live file or is
replaced, and if it is the one of a deleted file there is no other one of that name. -/
structure IsFree (a : TrdArguments) (files : List STrdFile) : Prop where
  live : a.replace = true ∨ ∀ file ∈ files, file.deleted = false → a.same file = false
  deleted : a.Marked → (files.filter a.same).length = (a.erased files).length

end TrdArguments

/-! ### Names and sectors -/

theorem nameL_trdFileNameToBytes (s : CString) :
    (trdFileNameToBytes s).nameL = 9 ∨ (trdFileNameToBytes s).nameL = 11 := by
  -- the stem has eight bytes, and the extension up to three
  have hstem : ∀ e : Nat, (s.bytes.take (min 8 e)).length ≤ 8 := fun e => by
    rw [List.length_take]
    omega
  have hround : ∀ name : List Byte, 8 ≤ name.length → name.length ≤ 11 →
      (if name.length = 9 ∨ name.length = 11 then name else name ++ [0x20]).length = 9 ∨
        (if name.length = 9 ∨ name.length = 11 then name else name ++ [0x20]).length = 11 := by
    intro name hlow hhigh
    split_ifs with h
    · exact h
    · rw [List.length_append, List.length_singleton]
      omega
  rw [trdFileNameToBytes]
  refine hround _ ?_ ?_
  · rw [List.length_append, List.length_append, List.length_replicate]
    omega
  · have hext : ∀ e : Nat, (extensionBehind s.bytes e).length ≤ 3 := fun e => by
      rw [extensionBehind, List.length_take]
      omega
    have h := hstem ((strrchr s.bytes 0x2E).getD 8)
    rw [List.length_append, List.length_append, List.length_replicate]
    cases hdot : strrchr s.bytes 0x2E with
    | none =>
      rw [hdot] at h
      simp only [List.length_nil]
      omega
    | some ext =>
      have h' := hext ext
      rw [hdot] at h
      simp only
      omega
/-- A name starts with a byte of the text, or with a blank. -/
theorem exists_head_binName (s : CString) : ∃ b : Byte, b ≠ 0 ∧
    (trdFileNameToBytes s).binName.head? = some b := by
  have happend : ∀ (b : Byte) (xs ys : List Byte), xs.head? = some b → (xs ++ ys).head? = some b :=
    fun b xs ys h => by rw [List.head?_append, h, Option.some_or]
  -- the first byte comes from the stem: a byte of the text, or padding where it is empty
  have hstem : ∀ k : Nat, ∃ b : Byte, b ≠ 0 ∧ (s.bytes.take k ++
      List.replicate (8 - (s.bytes.take k).length) 0x20).head? = some b := by
    intro k
    cases hbytes : s.bytes.take k with
    | nil => exact ⟨0x20, by decide, rfl⟩
    | cons b bytes =>
      refine ⟨b, fun hzero => s.noNul ?_, rfl⟩
      rw [← hzero]
      exact List.mem_of_mem_take (hbytes ▸ List.mem_cons_self)
  obtain ⟨b, hb, hhead⟩ := hstem (min 8 ((strrchr s.bytes 0x2E).getD 8))
  refine ⟨b, hb, ?_⟩
  rw [trdFileNameToBytes]
  refine happend b _ _ ?_
  -- the extension only appends behind the stem
  split_ifs
  · exact happend b _ _ hhead
  · exact happend b _ _ (happend b _ _ hhead)

/-- The first byte of a name is not zero. -/
theorem first_trdf_ne_zero (a : TrdArguments) : a.trdf.first ≠ 0 := by
  obtain ⟨b, hb, hhead⟩ := exists_head_binName a.fhobname
  have hfirst : a.trdf.first = a.name.binName.getD 0 0 := by
    rw [TrdArguments.trdf]
    dsimp only
    split_ifs <;> exact Vector.getElem_ofFn _
  have hbyte : a.name.binName.getD 0 0 = b := by
    rw [List.getD_eq_getElem?_getD, ← List.head?_eq_getElem?]
    show Option.getD (trdFileNameToBytes a.fhobname).binName.head? 0 = b
    rw [hhead, Option.getD_some]
  rw [hfirst, hbyte]
  exact hb

namespace TrdArguments

variable {a : TrdArguments}

theorem lname_pos : 0 < a.lname := by
  have h : a.name.nameL = 9 ∨ a.name.nameL = 11 := nameL_trdFileNameToBytes a.fhobname
  rw [lname]
  split_ifs
  · decide
  · omega

@[simp] theorem trdf_entry : a.entry.trdf = a.trdf := rfl

@[simp] theorem lname_entry : a.entry.lname = a.lname := rfl

@[simp] theorem sectorLength_trdf : a.trdf.sectorLength = a.sectorLength := by
  rw [trdf]
  dsimp only
  split_ifs <;> rfl

end TrdArguments

/-! ### Counting deleted files -/

section

variable {a : TrdArguments} {files before behind : List STrdFile} {file : STrdFile}

theorem sameName_entry (file : STrdFile) :
    file.sameName a.entry.trdf a.entry.lname = a.same file := by
  rw [TrdArguments.trdf_entry, TrdArguments.lname_entry, TrdArguments.same]

theorem same_entry : (fun f : STrdFile => f.sameName a.entry.trdf a.entry.lname) = a.same :=
  funext sameName_entry

theorem deleteSame_eq (file : STrdFile) :
    a.entry.deleteSame file = if a.same file then file.setFirst 1 else file := by
  rw [TrdEntry.deleteSame, sameName_entry]

theorem deleteSame_of_not_same (h : a.same file = false) : a.entry.deleteSame file = file := by
  rw [deleteSame_eq, h]
  rfl

theorem deleted_of_same (h : a.same file = true) : file.deleted = decide a.Marked := by
  rw [STrdFile.deleted, STrdFile.first_eq_of_sameName h TrdArguments.lname_pos]
  rfl

theorem deleted_deleteSame (file : STrdFile) :
    (a.entry.deleteSame file).deleted = (file.deleted || a.same file) := by
  rw [deleteSame_eq]
  by_cases h : a.same file = true
  · rw [if_pos h, STrdFile.deleted, STrdFile.first_setFirst, h, Bool.or_true]
    rfl
  · rw [if_neg h, Bool.eq_false_iff.mpr h, Bool.or_false]

/-- The name of a deleted file is another one, unless it was deleted before. -/
theorem same_setFirst (hmarked : ¬a.Marked) (file : STrdFile) :
    a.same (file.setFirst 1) = false := by
  refine Bool.eq_false_iff.mpr fun h => hmarked ?_
  have hfirst := STrdFile.first_eq_of_sameName h TrdArguments.lname_pos
  rw [STrdFile.first_setFirst] at hfirst
  exact hfirst.symm

theorem same_deleteSame (hmarked : ¬a.Marked) (file : STrdFile) :
    a.same (a.entry.deleteSame file) = false := by
  rw [deleteSame_eq]
  by_cases h : a.same file = true
  · rw [if_pos h]
    exact same_setFirst hmarked file
  · rw [if_neg h]
    exact Bool.eq_false_iff.mpr h

/-- Files of the name are deleted, unless they are already. -/
theorem countP_deleteSame (files : List STrdFile) :
    (files.map a.entry.deleteSame).countP STrdFile.deleted +
        (if a.Marked then files.countP a.same else 0)
      = files.countP STrdFile.deleted + files.countP a.same := by
  -- by induction on the records; where the name starts like a deleted one, nothing changes
  induction files with
  | nil => simp
  | cons file files ih =>
    rw [List.map_cons, List.countP_cons, List.countP_cons, List.countP_cons, deleted_deleteSame]
    by_cases hsame : a.same file = true
    · rw [hsame, Bool.or_true, deleted_of_same hsame]
      by_cases hmarked : a.Marked
      · rw [if_pos hmarked] at ih ⊢
        simp only [hmarked, decide_true, if_true]
        omega
      · rw [if_neg hmarked] at ih ⊢
        simp only [hmarked, decide_false, if_true, Bool.false_eq_true, if_false]
        omega
    · rw [Bool.eq_false_iff.mpr hsame, Bool.or_false]
      simp only [Bool.false_eq_true, if_false, Nat.add_zero]
      omega

theorem not_same_of_filter_eq_nil (h : files.filter a.same = []) :
    ∀ f ∈ files, a.same f = false := by
  simpa [List.filter_eq_nil_iff] using h

/-- The last record of the name. -/
theorem exists_last_same (h : files.filter a.same ≠ []) : ∃ before file behind,
    files = before ++ file :: behind ∧ a.same file = true ∧ ∀ f ∈ behind, a.same f = false := by
  induction files with
  | nil => exact absurd rfl h
  | cons file files ih =>
    by_cases htail : files.filter a.same = []
    · refine ⟨[], file, files, rfl, ?_, not_same_of_filter_eq_nil htail⟩
      by_contra hfile
      rw [List.filter_cons_of_neg hfile] at h
      exact h htail
    · obtain ⟨before, last, behind, rfl, hlast, hbehind⟩ := ih htail
      exact ⟨file :: before, last, behind, rfl, hlast, hbehind⟩

/-- How many records have the name. -/
theorem length_filter_same (hfile : a.same file = true) (hbehind : ∀ f ∈ behind, a.same f = false) :
    ((before ++ file :: behind).filter a.same).length = before.countP a.same + 1 := by
  have hnil : behind.filter a.same = [] := by
    simpa [List.filter_eq_nil_iff] using hbehind
  rw [List.filter_append, List.filter_cons_of_pos hfile, hnil, List.length_append,
    List.length_singleton, List.countP_eq_length_filter]

/-- The last of them. -/
theorem getLast?_filter_same (hfile : a.same file = true)
    (hbehind : ∀ f ∈ behind, a.same f = false) :
    ((before ++ file :: behind).filter a.same).getLast? = some file := by
  have hnil : behind.filter a.same = [] := by
    simpa [List.filter_eq_nil_iff] using hbehind
  rw [List.filter_append, List.filter_cons_of_pos hfile, hnil, List.getLast?_concat]

/-! ### A record behind the last one -/

/-- A record is to be added behind the last one. -/
structure TrdTarget.Chosen (t : TrdTarget) (a : TrdArguments) (head : STrdHead)
    (files : List STrdFile) (first total : Nat) : Prop where
  arranged : t.head.Arranged files first total
  disc : t.head.info.trDosId = head.info.trDosId
  index : t.fileIndex = files.length
  count : files.length + (a.erased head.used).length = head.used.length
  free : t.head.info.numOfFreeSectors.toNat
    = head.info.numOfFreeSectors.toNat + ((a.erased head.used).map STrdFile.size).sum
  kept : ∀ (i : Nat) (file : STrdFile), head.used[i]? = some file → a.lost file = false →
    files[i]? = some file
  deleted : t.head.info.numOfDeleted.toNat
      = files.countP STrdFile.deleted + (if a.Marked then 1 else 0) ↔ a.CountsDeleted head.used
  others : a.IsFree head.used → ∀ file ∈ files, a.same file = false

theorem endsSame_concat : a.endsSame (before ++ [file]) = a.same file := by
  rw [TrdArguments.endsSame, List.getLast?_concat]
  rfl

/-- The record of another name at the end. -/
theorem endsSame_of_behind (hsome : behind ≠ []) (hbehind : ∀ f ∈ behind, a.same f = false) :
    a.endsSame (before ++ file :: behind) = false := by
  obtain hnil | ⟨behind, last, rfl⟩ := List.eq_nil_or_concat' behind
  · exact absurd hnil hsome
  have hassoc : before ++ file :: (behind ++ [last]) = (before ++ file :: behind) ++ [last] := by
    rw [List.append_assoc, List.cons_append]
  rw [hassoc, endsSame_concat]
  exact hbehind last (List.mem_append_right _ List.mem_cons_self)

theorem erased_of_not_endsSame (h : a.endsSame files = false) : a.erased files = [] := by
  rw [TrdArguments.erased, if_neg]
  rw [h]
  rintro ⟨-, -, hno⟩
  exact Bool.false_ne_true hno

theorem erased_of_not_replace (h : a.replace = false) : a.erased files = [] := by
  rw [TrdArguments.erased, if_neg]
  rw [h]
  rintro ⟨-, hno, -⟩
  exact Bool.false_ne_true hno

theorem erased_of_addplace (h : a.addplace = true) : a.erased files = [] := by
  rw [TrdArguments.erased, if_neg]
  rw [h]
  rintro ⟨hno, -, -⟩
  exact Bool.false_ne_true hno

theorem erased_concat (hadd : a.addplace = false) (hreplace : a.replace = true)
    (hfile : a.same file = true) : a.erased (before ++ [file]) = [file] := by
  rw [TrdArguments.erased, if_pos, List.getLast?_concat]
  · rfl
  · rw [hadd, hreplace, endsSame_concat, hfile]
    exact ⟨rfl, rfl, rfl⟩

variable {head head' : STrdHead} {first total : Nat} {fname : Text}

/-- Nothing is replaced: the record comes behind the last one. -/
theorem chosen_new (h : head.WellFormed first total)
    (hnone : a.replace = false ∨ head.used.filter a.same = []) (hadd : a.addplace = false) :
    TrdTarget.Chosen ⟨head, head.info.numOfFiles.toNat⟩ a head head.used first total := by
  -- nothing is erased: not in replace mode, or no record of the name is there
  have herased : a.erased head.used = [] := by
    rcases hnone with hreplace | hnone
    · exact erased_of_not_replace hreplace
    · refine erased_of_not_endsSame (Bool.eq_false_iff.mpr fun hends => ?_)
      rw [TrdArguments.endsSame, Option.any_eq_true] at hends
      obtain ⟨file, hfile, hsame⟩ := hends
      have hmem := List.mem_filter.mpr ⟨List.mem_of_getLast? hfile, hsame⟩
      rw [hnone] at hmem
      exact List.not_mem_nil hmem
  refine ⟨h.arranged, rfl, h.described.count, ?_, ?_, fun i file hfile _ => hfile, ?_, ?_⟩
  · rw [herased]
    rfl
  · rw [herased]
    rfl
  · rw [h.deleted, TrdArguments.CountsDeleted]
    -- the exception of the count needs exactly one record of the name, in replace mode
    have hno : ¬((a.addplace || a.replace) = true ∧ (head.used.filter a.same).length = 1) := by
      rintro ⟨hmode, hone⟩
      rcases hnone with hreplace | hnone
      · rw [hadd, hreplace] at hmode
        exact Bool.false_ne_true hmode
      · rw [hnone] at hone
        exact Nat.zero_ne_one hone
    by_cases hmarked : a.Marked
    · rw [if_pos hmarked]
      exact ⟨fun hcount => by omega, fun hall => absurd (hall hmarked) hno⟩
    · rw [if_neg hmarked]
      exact ⟨fun _ hyes => absurd hyes hmarked, fun _ => rfl⟩
  · intro hfree file hfile
    rcases hnone with hreplace | hnone
    · refine Bool.eq_false_iff.mpr fun hsame => ?_
      have hlive := hfree.live.resolve_left (by rw [hreplace]; exact Bool.false_ne_true)
      have hdeleted : file.deleted = true := (Bool.not_eq_false _).mp fun hno =>
        Bool.false_ne_true ((hlive file hfile hno).symm.trans hsame)
      rw [deleted_of_same hsame, decide_eq_true_eq] at hdeleted
      have hlength := hfree.deleted hdeleted
      rw [herased, List.length_nil, List.length_eq_zero_iff] at hlength
      rw [not_same_of_filter_eq_nil hlength file hfile] at hsame
      exact Bool.false_ne_true hsame
    · exact not_same_of_filter_eq_nil hnone file hfile

/-- The records that stay in front of the last one of the name. -/
theorem getElem?_deleteSame {i : Nat} (hi : (before ++ files)[i]? = some file)
    (hkept : a.lost file = false) (hmode : (a.addplace || a.replace) = true)
    (hrest : ∀ j : Nat, files[j]? = some file → behind[j]? = some file) :
    (before.map a.entry.deleteSame ++ behind)[i]? = some file := by
  have hother : a.same file = false := by
    rw [TrdArguments.lost, hmode, Bool.true_and, Bool.or_eq_false_iff] at hkept
    exact hkept.2
  have hstays : a.entry.deleteSame file = file := deleteSame_of_not_same hother
  rcases Nat.lt_or_ge i before.length with hlow | hhigh
  · rw [List.getElem?_append_left hlow] at hi
    rw [List.getElem?_append_left (by rwa [List.length_map]), List.getElem?_map, hi,
      Option.map_some, hstays]
  · rw [List.getElem?_append_right hhigh] at hi
    rw [List.getElem?_append_right (by rwa [List.length_map]), List.length_map]
    exact hrest _ hi

/-- The free space starts where the last file ends. -/
theorem STrdDisc.Describes.connected {info : STrdDisc}
    (h : info.Describes (before ++ [file]) first total) :
    (BitVec.ofNat 8 ((file.sectorLength.toNat + file.startSector.toNat) % 16) : Byte)
        = info.freeSector ∧
      (BitVec.ofNat 8 ((file.sectorLength.toNat + file.startSector.toNat) / 16) : Byte) +
        file.startTrack = info.freeTrack := by
  obtain ⟨-, -, hlast⟩ := consecutive_concat.mp h.areas
  have hlow := h.freeSector
  have hfree := info.freeTrack.isLt
  rw [STrdFile.start, STrdFile.size, STrdDisc.freeStart] at hlast
  constructor
  · refine BitVec.eq_of_toNat_eq ?_
    rw [BitVec.toNat_ofNat]
    omega
  · refine BitVec.eq_of_toNat_eq ?_
    rw [BitVec.toNat_add, BitVec.toNat_ofNat]
    omega

theorem STrdHead.length_used_le : head.used.length ≤ 128 := by
  have hlength := congrArg List.length head.used_append
  rw [List.length_append, head.size, numOfFilesMax] at hlength
  omega

/-- The search counts up for each record that it deletes. -/
theorem toNat_numOfDeleted (h : head.WellFormed first total)
    (hused : head.used = before ++ file :: behind) :
    (head.info.numOfDeleted + BitVec.ofNat 8 (before.countP a.same)).toNat
      = head.info.numOfDeleted.toNat + before.countP a.same := by
  have hall := head.length_used_le
  have hdeleted := h.deleted
  have hle : head.used.countP STrdFile.deleted ≤ head.used.length := List.countP_le_length
  have hsame : before.countP a.same ≤ before.length := List.countP_le_length
  rw [hused, List.length_append, List.length_cons] at hall
  rw [hused, List.length_append, List.length_cons] at hle
  rw [BitVec.toNat_add, BitVec.toNat_ofNat, hdeleted, hused]
  omega

/-- The number of deleted files behind the search. -/
theorem deleted_iff_countsDeleted (h : head.WellFormed first total)
    (hused : head.used = before ++ file :: behind) (hfile : a.same file = true)
    (hbehind : ∀ f ∈ behind, a.same f = false) (hmode : (a.addplace || a.replace) = true) :
    (head.info.numOfDeleted + BitVec.ofNat 8 (before.countP a.same)).toNat
        = (before.map a.entry.deleteSame ++ file :: behind).countP STrdFile.deleted ↔
      a.CountsDeleted head.used := by
  have hcount := countP_deleteSame (a := a) before
  have hlength : (head.used.filter a.same).length = before.countP a.same + 1 := by
    rw [hused]
    exact length_filter_same hfile hbehind
  -- the counter of the source adds each record it deletes, also a deleted one
  rw [toNat_numOfDeleted h hused, h.deleted, TrdArguments.CountsDeleted, hlength, hused,
    List.countP_append, List.countP_append]
  by_cases hmarked : a.Marked
  · rw [if_pos hmarked] at hcount
    constructor
    · intro heq _
      exact ⟨hmode, by omega⟩
    · intro hall
      have hone := (hall hmarked).2
      omega
  · rw [if_neg hmarked] at hcount
    exact ⟨fun _ hyes => absurd hyes hmarked, fun _ => by omega⟩

/-- The last record of the name is the last one in use: it is erased. -/
theorem chosen_last (h : head.WellFormed first total) (hused : head.used = before ++ [file])
    (hfile : a.same file = true) (hadd : a.addplace = false) (hreplace : a.replace = true)
    (harranged : head'.Arranged (before.map a.entry.deleteSame ++ [file]) first total)
    (hinfo : head'.info = { head.info with
      numOfDeleted := head.info.numOfDeleted + BitVec.ofNat 8 (before.countP a.same) }) :
    TrdTarget.Chosen ⟨head'.eraseLast before.length,
        (head'.eraseLast before.length).info.numOfFiles.toNat⟩ a head
      (before.map a.entry.deleteSame) first total := by
  have hmode : (a.addplace || a.replace) = true := by rw [hreplace, Bool.or_true]
  have hfilter : (head.used.filter a.same).length = before.countP a.same + 1 := by
    rw [hused]
    exact length_filter_same hfile fun f hf => absurd hf List.not_mem_nil
  -- the search leaves the earlier records deleted and the last one for `eraseLast`
  have hlength : before.length = (before.map a.entry.deleteSame).length := by rw [List.length_map]
  obtain ⟨herased, hnumber⟩ := (hlength ▸ harranged.eraseLast h.tracks :)
  refine ⟨herased, ?_, herased.described.count, ?_, ?_, fun i f hf hkept => ?_, ?_, ?_⟩
  · show head'.info.trDosId = _
    rw [hinfo]
  · rw [hused, erased_concat hadd hreplace hfile, List.length_map, List.length_append]
  · rw [hnumber, hinfo, hused, erased_concat hadd hreplace hfile, List.map_singleton,
      List.sum_singleton]
  -- a record that is kept has another name, so that the search has not touched it
  · have hother : a.same f = false := by
      rw [TrdArguments.lost, hmode, Bool.true_and, Bool.or_eq_false_iff] at hkept
      exact hkept.2
    rw [hused] at hf
    have hstays : (before.map a.entry.deleteSame ++ [])[i]? = some f := by
      refine getElem?_deleteSame hf hkept hmode fun j hj => ?_
      have hmem := List.mem_singleton.mp (List.mem_of_getElem? hj)
      rw [hmem, hfile] at hother
      exact absurd hother.symm Bool.false_ne_true
    rwa [List.append_nil] at hstays
  · rw [← deleted_iff_countsDeleted h hused hfile (fun f hf => absurd hf List.not_mem_nil) hmode,
      List.countP_append, List.countP_singleton, deleted_of_same hfile]
    show head'.info.numOfDeleted.toNat = _ ↔ _
    rw [hinfo]
    -- a name that is marked as deleted is counted already
    by_cases hmarked : a.Marked
    · simp only [hmarked, decide_true, if_true]
    · simp only [hmarked, decide_false, if_false, Bool.false_eq_true]
  · intro hfree
    refine List.forall_mem_map.mpr fun f hf => ?_
    by_cases hmarked : a.Marked
    · have hlength := hfree.deleted hmarked
      rw [hfilter, hused, erased_concat hadd hreplace hfile, List.length_singleton] at hlength
      have hother : a.same f = false :=
        Bool.eq_false_iff.mpr (List.countP_eq_zero.mp (by omega : before.countP a.same = 0) f hf)
      rw [deleteSame_of_not_same hother, hother]
    · exact same_deleteSame hmarked f

/-- The last record of the name is in front of others: it is deleted. -/
theorem chosen_middle (h : head.WellFormed first total)
    (hused : head.used = before ++ file :: behind) (hsome : behind ≠ [])
    (hfile : a.same file = true) (hbehind : ∀ f ∈ behind, a.same f = false)
    (hreplace : a.replace = true)
    (harranged : head'.Arranged (before.map a.entry.deleteSame ++ file :: behind) first total)
    (hinfo : head'.info = { head.info with
      numOfDeleted := head.info.numOfDeleted + BitVec.ofNat 8 (before.countP a.same) }) :
    TrdTarget.Chosen ⟨head'.deleteFile before.length, head'.info.numOfFiles.toNat⟩ a head
      (before.map a.entry.deleteSame ++ file.setFirst 1 :: behind) first total := by
  have hmode : (a.addplace || a.replace) = true := by rw [hreplace, Bool.or_true]
  have hlength : before.length = (before.map a.entry.deleteSame).length := by rw [List.length_map]
  -- with records behind it the sectors of the file are not free again
  have herased : a.erased head.used = [] := by
    rw [hused]
    exact erased_of_not_endsSame (endsSame_of_behind hsome hbehind)
  -- `deleteFile` changes the first byte of the name alone
  have hdeleted : (head'.deleteFile before.length).Arranged
      (before.map a.entry.deleteSame ++ file.setFirst 1 :: behind) first total := by
    have harranged' := harranged.deleteFile
    rwa [← hlength] at harranged'
  refine ⟨hdeleted, ?_, hdeleted.described.count, ?_, ?_, fun i f hf hkept => ?_, ?_, ?_⟩
  · show head'.info.trDosId = _
    rw [hinfo]
  · rw [herased, hused, List.length_append, List.length_append, List.length_map]
    rfl
  · rw [herased]
    show head'.info.numOfFreeSectors.toNat = _
    rw [hinfo]
    rfl
  · have hother : a.same f = false := by
      rw [TrdArguments.lost, hmode, Bool.true_and, Bool.or_eq_false_iff] at hkept
      exact hkept.2
    rw [hused] at hf
    refine getElem?_deleteSame hf hkept hmode fun j hj => ?_
    -- the record itself is of the name; those behind it are untouched
    cases j with
    | zero =>
      rw [List.getElem?_cons_zero, Option.some_inj] at hj
      rw [← hj, hfile] at hother
      exact absurd hother.symm Bool.false_ne_true
    | succ j => exact hj
  · have hall := head.length_used_le
    have hle : head.used.countP STrdFile.deleted ≤ head.used.length := List.countP_le_length
    have hsame : before.countP a.same ≤ before.length := List.countP_le_length
    have hpos := List.length_pos_iff.mpr hsome
    have hnumber := toNat_numOfDeleted (a := a) h hused
    rw [← deleted_iff_countsDeleted h hused hfile hbehind hmode, List.countP_append,
      List.countP_append, List.countP_cons, List.countP_cons, deleted_of_same hfile]
    rw [← h.deleted] at hle
    rw [hused, List.length_append, List.length_cons] at hall hle
    have hmark : (file.setFirst 1).deleted = true := by
      rw [STrdFile.deleted, STrdFile.first_setFirst]
      rfl
    -- the counter goes up by one more for the record itself
    show (head'.info.numOfDeleted + 1).toNat = _ ↔ _
    rw [hinfo, hmark, BitVec.toNat_add, hnumber, show (1 : Byte).toNat = 1 from rfl]
    by_cases hmarked : a.Marked
    · simp only [hmarked, decide_true, if_true]
      omega
    · simp only [hmarked, decide_false, if_false, if_true, Bool.false_eq_true]
      omega
  · intro hfree
    have hmarked : ¬a.Marked := by
      intro hmarked
      have hlength := hfree.deleted hmarked
      rw [herased, hused, length_filter_same hfile hbehind] at hlength
      exact Nat.succ_ne_zero _ hlength
    rw [List.forall_mem_append, List.forall_mem_cons, List.forall_mem_map]
    exact ⟨fun f _ => same_deleteSame hmarked f, same_setFirst hmarked file, hbehind⟩

/-- Normal mode and replace mode add a record behind the last one. -/
theorem checks_chooseFile_chosen (h : head.WellFormed first total) (hadd : a.addplace = false)
    (fname : Text) : ∃ t files, TrdTarget.Chosen t a head files first total ∧
      Checks (a.chooseFile fname (head.findFile (a.addplace || a.replace) a.entry)) True t := by
  rw [TrdArguments.chooseFile, if_neg (by rw [hadd]; exact Bool.false_ne_true), hadd, Bool.false_or]
  -- normal mode warns and takes a new record
  cases hreplace : a.replace with
  | false =>
    refine ⟨_, _, chosen_new h (.inl hreplace) hadd, ?_⟩
    rw [if_neg Bool.false_ne_true, STrdHead.findFile, head_findFileLoop]
    exact (checks_warn (checks_report _)).always_bind (.pure _)
  | true =>
    rw [if_pos rfl]
    -- replace mode without a record of the name is normal mode
    by_cases hnone : head.used.filter a.same = []
    · refine ⟨_, _, chosen_new h (.inr hnone) hadd, ?_⟩
      have hnot : ∀ f ∈ head.used, f.sameName a.entry.trdf a.entry.lname = false :=
        fun f hf => (sameName_entry f).trans (not_same_of_filter_eq_nil hnone f hf)
      rw [findFile_of_not_sameName h.arranged hnot]
      exact .pure _
    · obtain ⟨before, file, behind, hused, hfile, hbehind⟩ := exists_last_same hnone
      have harranged := h.arranged
      rw [hused] at harranged
      have hname : file.sameName a.entry.trdf a.entry.lname = true :=
        (sameName_entry file).trans hfile
      obtain ⟨head', hfound, harranged', hinfo⟩ := findFile_of_last harranged hname
        fun f hf => (sameName_entry f).trans (hbehind f hf)
      rw [same_entry] at hinfo
      rw [hfound]
      have hcount := harranged'.described.count
      rw [List.length_append, List.length_map, List.length_cons] at hcount
      -- the last record of the name: at the end of the catalogue it is erased, else deleted
      cases behind with
      | nil =>
        refine ⟨_, _, chosen_last h hused hfile hadd hreplace harranged' hinfo, ?_⟩
        obtain ⟨hsector, htrack⟩ := harranged'.described.connected
        have hrecord : head'.file before.length = file := by
          have hindex := harranged'.file_eq
          rwa [List.length_map] at hindex
        dsimp only
        rw [if_pos (by rw [hcount, List.length_nil]), hrecord]
        refine Decides.congr (checks_refuseIf.bind fun _ => .pure _) ?_
        rw [hsector, htrack]
        simp
      | cons f behind =>
        refine ⟨_, _, chosen_middle h hused (List.cons_ne_nil _ _) hfile hbehind hreplace harranged'
          hinfo, ?_⟩
        have hlast : ¬before.length + 1 = head'.info.numOfFiles.toNat := by
          rw [hcount, List.length_cons]
          omega
        dsimp only
        rw [if_neg hlast]
        exact .pure _

/-! ### A record that grows -/

/-- The last record of the name, `file`, gets more data. -/
structure TrdTarget.Grown (t : TrdTarget) (a : TrdArguments) (head : STrdHead)
    (before : List STrdFile) (file : STrdFile) (behind : List STrdFile) (first total : Nat) :
    Prop where
  used : head.used = before ++ file :: behind
  same : a.same file = true
  others : ∀ f ∈ behind, a.same f = false
  arranged : t.head.Arranged (before.map a.entry.deleteSame ++ file :: behind) first total
  info : t.head.info = { head.info with
    numOfDeleted := head.info.numOfDeleted + BitVec.ofNat 8 (before.countP a.same) }
  index : t.fileIndex = before.length
  deleted : t.head.info.numOfDeleted.toNat
      = (before.map a.entry.deleteSame ++ file :: behind).countP STrdFile.deleted ↔
    a.CountsDeleted head.used

/-- Add mode takes the last record of the name. -/
theorem checks_chooseFile_grown (h : head.WellFormed first total) (hadd : a.addplace = true)
    (hused : head.used = before ++ file :: behind) (hfile : a.same file = true)
    (hbehind : ∀ f ∈ behind, a.same f = false) (fname : Text) :
    ∃ t, TrdTarget.Grown t a head before file behind first total ∧
      Checks (a.chooseFile fname (head.findFile (a.addplace || a.replace) a.entry)) True t := by
  have hmode : (a.addplace || a.replace) = true := by rw [hadd, Bool.true_or]
  have harranged := h.arranged
  rw [hused] at harranged
  have hname : file.sameName a.entry.trdf a.entry.lname = true :=
    (sameName_entry file).trans hfile
  -- the search deletes all records of the name but the last, which grows
  obtain ⟨head', hfound, harranged', hinfo⟩ := findFile_of_last harranged hname
    fun f hf => (sameName_entry f).trans (hbehind f hf)
  rw [same_entry] at hinfo
  refine ⟨⟨head', before.length⟩, ⟨hused, hfile, hbehind, harranged', hinfo, rfl, ?_⟩, ?_⟩
  · rw [hinfo]
    exact deleted_iff_countsDeleted h hused hfile hbehind hmode
  · rw [TrdArguments.chooseFile, if_pos hadd, hmode, hfound]
    exact .pure _

/-- Without a file of the name no data can be added. -/
theorem checks_chooseFile_missing (h : head.WellFormed first total) (hadd : a.addplace = true)
    (hnone : head.used.filter a.same = []) (fname : Text) (t : TrdTarget) :
    Checks (a.chooseFile fname (head.findFile (a.addplace || a.replace) a.entry)) False t := by
  have hnot : ∀ f ∈ head.used, f.sameName a.entry.trdf a.entry.lname = false :=
    fun f hf => (sameName_entry f).trans (not_same_of_filter_eq_nil hnone f hf)
  rw [TrdArguments.chooseFile, if_pos hadd, findFile_of_not_sameName h.arranged hnot]
  exact checks_refuse

end

end Sjasmplus
