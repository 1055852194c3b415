import Sjasmplus.CdtTape

/-!
# Snapshots of a CPC6128 on a CDT tape (`createCDTDump6128` of `io_cpc.cpp`)

`SAVECDT FULL` looks for the first and for the last byte of the memory that is not zero, and saves
what lies between them.  For the memory below the screen it takes the difference of the two places as
the length; for the other pages it takes the last place itself.

* `covers_calcRAM` — the two places are the first and the last such byte of a range;
* `createCDTDump6128_savesPages_iff` — the blocks of the other pages go from the one to the other exactly
  when every page that is not empty starts with such a byte.
-/

namespace Sjasmplus

/-! ### The range of bytes that are not zero -/

/-- `calcRAMStart`. -/
def calcRAMStart (ram : Nat → Byte) (ramlen : Nat) : Nat :=
  ((List.range ramlen).find? fun i => ram i ≠ 0).getD 0x10000

/-- `calcRAMLength`. -/
def calcRAMLength (ram : Nat → Byte) : Nat → Nat
  | 0 => 0x0000
  | ramlen + 1 => if ram ramlen ≠ 0 then 1 + ramlen else calcRAMLength ram ramlen

/-- The bytes of a range. -/
def ramRange (ram : Nat → Byte) (base length : Nat) : List Byte :=
  (List.range length).map fun k => ram (base + k)

/-- A range goes exactly from the first to the last byte that is not zero. -/
structure Covers (ram : Nat → Byte) (size base length : Nat) : Prop where
  inside : base + length ≤ size
  nonempty : 0 < length
  first : ram base ≠ 0
  last : ram (base + length - 1) ≠ 0
  others : ∀ k < size, ram k ≠ 0 → base ≤ k ∧ k < base + length

section

variable {ram : Nat → Byte} {size : Nat}

theorem calcRAMStart_eq {base : Nat} (hbase : base < size) (hram : ram base ≠ 0)
    (hfirst : ∀ k < base, ram k = 0) : calcRAMStart ram size = base := by
  have hfind : (List.range size).find? (fun i => ram i ≠ 0) = some base := by
    rw [List.find?_range_eq_some]
    refine ⟨decide_eq_true hram, List.mem_range.mpr hbase, fun k hk => ?_⟩
    simp [hfirst k hk]
  rw [calcRAMStart, hfind, Option.getD_some]

theorem calcRAMLength_eq {last : Nat} (hlast : last < size) (hram : ram last ≠ 0)
    (hrest : ∀ k < size, last < k → ram k = 0) : calcRAMLength ram size = last + 1 := by
  induction size with
  | zero => exact absurd hlast (Nat.not_lt_zero _)
  | succ size ih =>
    rw [calcRAMLength]
    rcases Nat.lt_succ_iff_lt_or_eq.mp hlast with hlt | rfl
    · rw [if_neg (not_not.mpr (hrest size (Nat.lt_succ_self size) hlt))]
      exact ih hlt fun k hk => hrest k (Nat.lt_succ_of_lt hk)
    · rw [if_pos hram, Nat.add_comm]

theorem calcRAM_of_zero (h : ∀ k < size, ram k = 0) :
    calcRAMStart ram size = 0x10000 ∧ calcRAMLength ram size = 0 := by
  constructor
  · have hfind : (List.range size).find? (fun i => ram i ≠ 0) = none := by
      rw [List.find?_range_eq_none]
      intro k hk
      simp [h k hk]
    rw [calcRAMStart, hfind, Option.getD_none]
  -- the length is searched from the end
  · induction size with
    | zero => rfl
    | succ size ih =>
      rw [calcRAMLength, if_neg (not_not.mpr (h size (Nat.lt_succ_self size)))]
      exact ih fun k hk => h k (Nat.lt_succ_of_lt hk)

/-- The two scans find the ends of the range. -/
theorem covers_calcRAM (h : ∃ k < size, ram k ≠ 0) :
    Covers ram size (calcRAMStart ram size) (calcRAMLength ram size - calcRAMStart ram size) := by
  classical
  -- the first such byte, and the last one as the first from behind
  set base := Nat.find h with hbase
  obtain ⟨hsize, hram⟩ := Nat.find_spec h
  have hfirst : ∀ k < base, ram k = 0 := by
    intro k hk
    by_contra hne
    exact Nat.find_min h hk ⟨by omega, hne⟩
  have hback : ∃ d, d < size ∧ ram (size - 1 - d) ≠ 0 :=
    ⟨size - 1 - base, by omega, by rwa [show size - 1 - (size - 1 - base) = base by omega]⟩
  set last := size - 1 - Nat.find hback with hlast
  obtain ⟨hsize', hram'⟩ := Nat.find_spec hback
  have hrest : ∀ k < size, last < k → ram k = 0 := by
    intro k hk hlt
    by_contra hne
    refine Nat.find_min hback (m := size - 1 - k) (by omega) ⟨by omega, ?_⟩
    rwa [show size - 1 - (size - 1 - k) = k by omega]
  have hle : base ≤ last := by
    by_contra hgt
    exact hram (hrest base hsize (by omega))
  rw [calcRAMStart_eq hsize hram hfirst, calcRAMLength_eq (by omega) hram' hrest]
  refine ⟨by omega, by omega, hram, ?_, fun k hk hne => ⟨?_, ?_⟩⟩
  · rw [show base + (last + 1 - base) - 1 = last by omega]
    exact hram'
  · by_contra hlt
    exact hne (hfirst k (by omega))
  · by_contra hge
    exact hne (hrest k hk (by omega))

/-- There is only one such range. -/
theorem Covers.unique {base length base' length' : Nat} (h : Covers ram size base length)
    (h' : Covers ram size base' length') : base = base' ∧ length = length' := by
  have hin := h.inside
  have hin' := h'.inside
  have hpos := h.nonempty
  have hpos' := h'.nonempty
  have hfirst := h.others base' (by omega) h'.first
  have hfirst' := h'.others base (by omega) h.first
  have hlast := h.others (base' + length' - 1) (by omega) h'.last
  have hlast' := h'.others (base + length - 1) (by omega) h.last
  omega

end

/-! ### The dump -/

/-- `SaveCDT_AmstradCPC6128`. -/
def saveCDT_AmstradCPC6128 : List Byte := [
  0x3E, 0xFF, 0xCD, 0x6B, 0xBC, 0x3A, 0x56, 0x80, 0xB7, 0x28, 0x0B, 0x21, 0x00, 0xC0, 0x11, 0x00,
  0x40, 0x3E, 0x16, 0xCD, 0xA1, 0xBC, 0x21, 0x5D, 0x80, 0x7E, 0x23, 0xB7, 0x28, 0x28, 0xF5, 0x7E,
  0x23, 0xF6, 0xC0, 0x06, 0x74, 0x4F, 0xF3, 0xED, 0x49, 0x4E, 0x23, 0x46, 0x23, 0x5E, 0x23, 0x56,
  0x23, 0xE5, 0x21, 0x00, 0x40, 0x09, 0x3E, 0x16, 0xCD, 0xA1, 0xBC, 0x01, 0xC0, 0x74, 0xED, 0x49,
  0xE1, 0xFB, 0xF1, 0x3D, 0x20, 0xD8, 0x2A, 0x57, 0x80, 0xE5, 0x2A, 0x59, 0x80, 0xED, 0x5B, 0x5B,
  0x80, 0x3E, 0x16, 0xC3, 0xA1, 0xBC, 0x00, 0x00, 0x00, 0x00, 0x00, 0x00, 0x00, 0x00]

/-- `SaveCDT_AmstradCPC6128_Settings`: behind them come the number of pages and their entries. -/
def saveCDT_AmstradCPC6128_Settings : Nat := 0x56

/-- A page of the device that is saved: its entry for the loader, and the bytes of its block. -/
structure CdtPage where
  number : Fin 8
  base : Nat
  length : Nat
  data : List Byte

/-- What is written behind the BASIC loader. -/
structure CdtDump where
  loader : List Byte
  screen : Option (List Byte)
  pages : List CdtPage
  main : List Byte

namespace Device

variable (device : Device 4 8)

/-- `GetPage(i)->RAM`; behind the page comes what lies behind it in the memory. -/
def pageRAM (i : Fin 8) (k : Nat) : Byte := device.memory ((device.pages i).ram + k)

/-- The copy of the first three pages. -/
def lowRAM (k : Nat) : Byte := device.pageRAM (Fin.ofNat 8 (k / 0x4000)) (k % 0x4000)

/-- `hasScreen`. -/
def hasScreen : Bool := (List.range (device.pages 3).size).any fun i => device.pageRAM 3 i ≠ 0

/-- The entry and the block for a page: `base` and `length` as the two scans give them. -/
def cdtPage (i : Fin 8) : CdtPage :=
  let base := calcRAMStart (device.pageRAM i) 0x4000
  let length := calcRAMLength (device.pageRAM i) 0x4000
  ⟨i, base, length, ramRange (device.pageRAM i) base length⟩

/-- The loop of `createCDTDump6128` over the pages above the lower 64K. -/
def cdtPages : List CdtPage :=
  (([4, 5, 6, 7] : List (Fin 8)).filter fun i =>
    ¬(0x10000 = (device.cdtPage i).base ∨ 0 = (device.cdtPage i).length)).map device.cdtPage

end Device

/-- An entry of the loader. -/
def CdtPage.entry (page : CdtPage) : List Byte :=
  BitVec.ofNat 8 page.number.val :: writeword page.base ++ writeword page.length

/-- `createCDTDump6128`, without the BASIC loader in front. -/
def createCDTDump6128 (device : Device 4 8) (startAddr : Int) : Reported (Option CdtDump) :=
  let ramBase := calcRAMStart device.lowRAM 0xC000
  let ramEnd := calcRAMLength device.lowRAM 0xC000
  if 0x10000 = ramBase ∨ 0x0000 = ramEnd then
    (none, [.error "[SAVECDT] Could not determine the start and end of the program" none .suppress])
  else
    let ramUsed := ramEnd - ramBase
    let startAddr := if startAddr < 0 then (ramBase : Int) else startAddr
    let pages := device.cdtPages
    (some
      { loader := saveCDT_AmstradCPC6128.take saveCDT_AmstradCPC6128_Settings ++
          [if device.hasScreen then 1 else 0] ++
          [BitVec.ofInt 8 startAddr, BitVec.ofInt 8 (startAddr / 256)] ++
          writeword ramBase ++ writeword ramUsed ++
          [BitVec.ofNat 8 pages.length] ++ pages.flatMap CdtPage.entry
        screen := if device.hasScreen then some (ramRange (device.pageRAM 3) 0 (device.pages 3).size)
          else none
        pages := pages
        main := ramRange device.lowRAM ramBase ramUsed }, [])

/-! ### What the blocks hold -/

/-- The pages above the lower 64K are saved: each that is not empty in one block, from its first to its
last byte that is not zero. -/
structure SavesPages (device : Device 4 8) (pages : List CdtPage) : Prop where
  covers : ∀ page ∈ pages, 4 ≤ page.number.val ∧
    Covers (device.pageRAM page.number) 0x4000 page.base page.length ∧
    page.data = ramRange (device.pageRAM page.number) page.base page.length
  complete : ∀ i : Fin 8, 4 ≤ i.val → (∃ k < 0x4000, device.pageRAM i k ≠ 0) →
    ∃ page ∈ pages, page.number = i
  empty : ∀ i : Fin 8, (∀ k < 0x4000, device.pageRAM i k = 0) → ∀ page ∈ pages, page.number ≠ i
  once : (pages.map CdtPage.number).Nodup

section

variable {device : Device 4 8}

/-- The scans fail exactly for an empty range. -/
theorem calcRAM_fails_iff {ram : Nat → Byte} {size : Nat} (hsize : size ≤ 0x10000) :
    (0x10000 = calcRAMStart ram size ∨ 0 = calcRAMLength ram size) ↔ ∀ k < size, ram k = 0 := by
  constructor
  · intro hfails
    by_contra hsome
    push Not at hsome
    -- the scans end in the range
    have hcovers := covers_calcRAM hsome
    have hin := hcovers.inside
    have hpos := hcovers.nonempty
    omega
  · intro hzero
    exact Or.inl (calcRAM_of_zero hzero).1.symm

theorem base_cdtPage (i : Fin 8) :
    (device.cdtPage i).base = calcRAMStart (device.pageRAM i) 0x4000 := by
  rw [Device.cdtPage]

theorem length_cdtPage (i : Fin 8) :
    (device.cdtPage i).length = calcRAMLength (device.pageRAM i) 0x4000 := by
  rw [Device.cdtPage]

theorem data_cdtPage (i : Fin 8) : (device.cdtPage i).data
    = ramRange (device.pageRAM i) (device.cdtPage i).base (device.cdtPage i).length := by
  rw [Device.cdtPage]

/-- The pages with a block are those that are not empty. -/
theorem mem_cdtPages {page : CdtPage} :
    page ∈ device.cdtPages ↔ ∃ i : Fin 8, 4 ≤ i.val ∧ (∃ k < 0x4000, device.pageRAM i k ≠ 0) ∧
      page = device.cdtPage i := by
  have hnumber : ∀ i : Fin 8, i ∈ ([4, 5, 6, 7] : List (Fin 8)) ↔ 4 ≤ i.val := by decide
  have hfails : ∀ i : Fin 8, ¬(0x10000 = (device.cdtPage i).base ∨ 0 = (device.cdtPage i).length) ↔
      ∃ k < 0x4000, device.pageRAM i k ≠ 0 := by
    intro i
    rw [base_cdtPage, length_cdtPage, calcRAM_fails_iff (by decide)]
    push Not
    exact Iff.rfl
  unfold Device.cdtPages
  simp only [List.mem_map, List.mem_filter, hnumber, decide_eq_true_eq, hfails]
  constructor
  · rintro ⟨i, ⟨hi, hnonzero⟩, rfl⟩
    exact ⟨i, hi, hnonzero, rfl⟩
  · rintro ⟨i, hi, hnonzero, rfl⟩
    exact ⟨i, ⟨hi, hnonzero⟩, rfl⟩

theorem nodup_cdtPages : (device.cdtPages.map CdtPage.number).Nodup := by
  have hmap : device.cdtPages.map CdtPage.number = (([4, 5, 6, 7] : List (Fin 8)).filter fun i =>
      ¬(0x10000 = (device.cdtPage i).base ∨ 0 = (device.cdtPage i).length)) := by
    rw [Device.cdtPages, List.map_map]
    exact List.map_id _
  rw [hmap]
  exact List.Nodup.filter _ (by decide)

/-- With the place behind the last byte as its length, a block fits only when the page starts with a
byte that is not zero. -/
theorem covers_cdtPage_iff {i : Fin 8} (h : ∃ k < 0x4000, device.pageRAM i k ≠ 0) :
    Covers (device.pageRAM i) 0x4000 (device.cdtPage i).base (device.cdtPage i).length ↔
      device.pageRAM i 0 ≠ 0 := by
  -- what the two searches find covers the bytes, but the length they give is the place behind the
  -- last of them
  have hscan := covers_calcRAM h
  rw [base_cdtPage, length_cdtPage]
  constructor
  · intro hcovers
    have hunique := (hcovers.unique hscan).2
    have hpos := hcovers.nonempty
    have hbase : calcRAMStart (device.pageRAM i) 0x4000 = 0 := by omega
    have hfirst := hscan.first
    rwa [hbase] at hfirst
  · intro hfirst
    have hbase : calcRAMStart (device.pageRAM i) 0x4000 = 0 :=
      calcRAMStart_eq (by decide) hfirst nofun
    rw [hbase, Nat.sub_zero] at hscan
    rw [hbase]
    exact hscan

theorem savesPages_cdtPages_iff : SavesPages device device.cdtPages ↔
    ∀ i : Fin 8, 4 ≤ i.val →
      (∀ k < 0x4000, device.pageRAM i k = 0) ∨ device.pageRAM i 0 ≠ 0 := by
  constructor
  · intro hsaves i hi
    by_cases hzero : ∀ k < 0x4000, device.pageRAM i k = 0
    · exact Or.inl hzero
    · push Not at hzero
      have hmem : device.cdtPage i ∈ device.cdtPages := mem_cdtPages.mpr ⟨i, hi, hzero, rfl⟩
      exact Or.inr ((covers_cdtPage_iff hzero).mp (hsaves.covers _ hmem).2.1)
  -- a block that starts with its page has the length the reader needs
  · intro hpages
    refine ⟨?_, ?_, ?_, nodup_cdtPages⟩
    · intro page hmem
      obtain ⟨i, hi, ⟨k, hk, hne⟩, rfl⟩ := mem_cdtPages.mp hmem
      have hfirst : device.pageRAM i 0 ≠ 0 := by
        rcases hpages i hi with hzero | hfirst
        · exact absurd (hzero k hk) hne
        · exact hfirst
      exact ⟨hi, (covers_cdtPage_iff ⟨k, hk, hne⟩).mpr hfirst, data_cdtPage i⟩
    · intro i hi hnonzero
      exact ⟨device.cdtPage i, mem_cdtPages.mpr ⟨i, hi, hnonzero, rfl⟩, rfl⟩
    · intro i hzero page hmem hnumber
      obtain ⟨j, -, ⟨k, hk, hne⟩, rfl⟩ := mem_cdtPages.mp hmem
      obtain rfl : j = i := hnumber
      exact hne (hzero k hk)

/-! ### Dumps -/

variable {startAddr : Int} {dump : CdtDump} {log : List Event}

theorem createCDTDump6128_eq_some (h : createCDTDump6128 device startAddr = (some dump, log)) :
    (∃ k < 0xC000, device.lowRAM k ≠ 0) ∧ dump.pages = device.cdtPages ∧
      dump.main = ramRange device.lowRAM (calcRAMStart device.lowRAM 0xC000)
        (calcRAMLength device.lowRAM 0xC000 - calcRAMStart device.lowRAM 0xC000) := by
  unfold createCDTDump6128 at h
  dsimp only at h
  by_cases hfails : 0x10000 = calcRAMStart device.lowRAM 0xC000 ∨
      0x0000 = calcRAMLength device.lowRAM 0xC000
  · rw [if_pos hfails] at h
    cases h
  · rw [if_neg hfails] at h
    rw [calcRAM_fails_iff (by decide)] at hfails
    push Not at hfails
    have hdump := Option.some.inj (Prod.ext_iff.mp h).1
    refine ⟨hfails, ?_, ?_⟩
    · rw [← hdump]
    · rw [← hdump]

/-- The blocks of the other pages are right exactly when every page that is not empty starts with a
byte that is not zero. -/
theorem createCDTDump6128_savesPages_iff
    (h : createCDTDump6128 device startAddr = (some dump, log)) :
    SavesPages device dump.pages ↔ ∀ i : Fin 8, 4 ≤ i.val →
      (∀ k < 0x4000, device.pageRAM i k = 0) ∨ device.pageRAM i 0 ≠ 0 := by
  obtain ⟨-, hpages, -⟩ := createCDTDump6128_eq_some h
  rw [hpages]
  exact savesPages_cdtPages_iff

end

/-! ### A page that starts with a zero -/

/-- A device whose memory is zero, but for two bytes: the first one, and one in page 4. -/
def exampleCpc (place : Nat) : Device 4 8 :=
  { initRegularSlotDevice 0x4000 slotSize_pos slotCount_pos ![0, 1, 2, 3] with
    memory := fun k => if k = 0 ∨ k = 0x10000 + place then 0xC9 else 0 }

theorem pageRAM_exampleCpc (place : Nat) (i : Fin 8) (k : Nat) :
    (exampleCpc place).pageRAM i k
      = if 0x4000 * i.val + k = 0 ∨ 0x4000 * i.val + k = 0x10000 + place then 0xC9 else 0 := rfl

theorem exists_createCDTDump6128_exampleCpc (place : Nat) :
    ∃ dump, createCDTDump6128 (exampleCpc place) 0 = (some dump, []) := by
  have hlow : ∃ k < 0xC000, (exampleCpc place).lowRAM k ≠ 0 :=
    ⟨0, by decide, by
      show (exampleCpc place).pageRAM 0 0 ≠ 0
      simp [pageRAM_exampleCpc]⟩
  have hfails : ¬(0x10000 = calcRAMStart (exampleCpc place).lowRAM 0xC000 ∨
      0x0000 = calcRAMLength (exampleCpc place).lowRAM 0xC000) := by
    rw [calcRAM_fails_iff (by decide)]
    push Not
    exact hlow
  unfold createCDTDump6128
  dsimp only
  rw [if_neg hfails]
  exact ⟨_, rfl⟩

/-- The byte in page 4 is its first one. -/
theorem savesPages_exampleCpc : ∃ dump, createCDTDump6128 (exampleCpc 0) 0 = (some dump, []) ∧
    (SavesPages (exampleCpc 0) dump.pages ↔ ∀ i : Fin 8, 4 ≤ i.val →
      (∀ k < 0x4000, (exampleCpc 0).pageRAM i k = 0) ∨ (exampleCpc 0).pageRAM i 0 ≠ 0) := by
  obtain ⟨dump, hdump⟩ := exists_createCDTDump6128_exampleCpc 0
  exact ⟨dump, hdump, createCDTDump6128_savesPages_iff hdump⟩

/-- The byte in page 4 is its second one: the block has a byte too much. -/
theorem not_savesPages_exampleCpc :
    ¬∀ dump log, createCDTDump6128 (exampleCpc 1) 0 = (some dump, log) →
      SavesPages (exampleCpc 1) dump.pages := by
  intro hall
  obtain ⟨dump, hdump⟩ := exists_createCDTDump6128_exampleCpc 1
  have hsaves := hall dump [] hdump
  rw [(createCDTDump6128_eq_some hdump).2.1, savesPages_cdtPages_iff] at hsaves
  -- page 4 is not empty, and its first byte is zero
  rcases hsaves 4 (by decide) with hzero | hfirst
  · have hbyte := hzero 1 (by decide)
    rw [pageRAM_exampleCpc] at hbyte
    revert hbyte
    decide
  · apply hfirst
    rw [pageRAM_exampleCpc]
    decide

end Sjasmplus
