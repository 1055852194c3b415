import Sjasmplus.Snapshot
import Sjasmplus.CdtSnapshot
import Sjasmplus.Lib.Patches

/-!
# Snapshots of a ZX machine on a tape (`TAP_SaveSnapshot` of `io_tape.cpp`)

The loader of a snapshot of 128K or more carries a table of blocks: one for each page that is not shown
in the slots 1 and 2, and not empty, from its first to its last byte that is not zero.

* `loadPages_entries` — the loop of the loader writes what the entries and the blocks say;
* `loads_tapSnapshot_iff` — the table fits, counts and reproduces these pages exactly when there are at
  most two less of them than the device has pages, and less than 256, and none has a number above 255.
-/

namespace Sjasmplus

/-! ### The range of bytes that are saved -/

/-- `remove_unused_space`. -/
def removeUnusedSpace (ram : Nat → Byte) : Nat → Nat
  | 0 => 0
  | length + 1 => if ram length = 0 then removeUnusedSpace ram length else length + 1

/-- `detect_ram_start`. -/
def detectRamStart (ram : Nat → Byte) (length : Nat) : Nat :=
  ((List.range length).takeWhile fun start => ram start = 0).length

/-! ### The loaders -/

/-- `SaveTAP_ZX_Spectrum_128K`. -/
def saveTAP_ZX_Spectrum_128K : List Byte := [
  0x3E, 0x38, 0x32, 0x8D, 0x5C, 0xCD, 0x6B, 0x0D, 0x3A, 0x6B, 0x5E, 0xB7, 0x28, 0x0D, 0xDD, 0x21,
  0x00, 0x40, 0x11, 0x00, 0x1B, 0x3E, 0xFF, 0x37, 0xCD, 0x56, 0x05, 0x21, 0x74, 0x5E, 0x3A, 0x73,
  0x5E, 0xB7, 0x28, 0x0F, 0xF5, 0xE5, 0xCD, 0x4B, 0x5E, 0xE1, 0xF1, 0x23, 0x23, 0x23, 0x23, 0x23,
  0x3D, 0x20, 0xF1, 0x3A, 0x72, 0x5E, 0xCD, 0x63, 0x5E, 0x2A, 0x6C, 0x5E, 0xE5, 0xDD, 0x2A, 0x6E,
  0x5E, 0xED, 0x5B, 0x70, 0x5E, 0x3E, 0xFF, 0x37, 0xC3, 0x56, 0x05, 0xF3, 0x7E, 0xCD, 0x63, 0x5E,
  0xFB, 0x23, 0x7E, 0xDD, 0x6F, 0x23, 0x7E, 0xDD, 0x67, 0x23, 0x5E, 0x23, 0x56, 0x3E, 0xFF, 0x37,
  0xC3, 0x56, 0x05, 0xF6, 0x10, 0x01, 0xFD, 0x7F, 0xED, 0x79, 0xC9, 0x00, 0x00, 0x00, 0x00, 0x00,
  0x00, 0x00, 0x00, 0x00]

/-- `SaveTAP_ZX_Spectrum_256K`. -/
def saveTAP_ZX_Spectrum_256K : List Byte := [
  0xF3, 0xCD, 0xF2, 0x5E, 0xFB, 0x3E, 0x38, 0x32, 0x8D, 0x5C, 0xCD, 0x6B, 0x0D, 0x3A, 0xEC, 0x60,
  0xB7, 0x28, 0x0D, 0xDD, 0x21, 0x00, 0x40, 0x11, 0x00, 0x1B, 0x3E, 0xFF, 0x37, 0xCD, 0x56, 0x05,
  0x21, 0xF5, 0x60, 0x3A, 0xF4, 0x60, 0xB7, 0x28, 0x0F, 0xF5, 0xE5, 0xCD, 0x50, 0x5E, 0xE1, 0xF1,
  0x23, 0x23, 0x23, 0x23, 0x23, 0x3D, 0x20, 0xF1, 0x3A, 0xF3, 0x60, 0xCD, 0x76, 0x5E, 0x2A, 0xED,
  0x60, 0xE5, 0xDD, 0x2A, 0xEF, 0x60, 0xED, 0x5B, 0xF1, 0x60, 0x3E, 0xFF, 0x37, 0xC3, 0x56, 0x05,
  0xF3, 0x7E, 0xE5, 0xCD, 0x76, 0x5E, 0xE1, 0xFB, 0x23, 0x7E, 0xDD, 0x6F, 0x23, 0x7E, 0xDD, 0x67,
  0x23, 0x5E, 0x23, 0x56, 0x3E, 0xFF, 0x37, 0xC3, 0x56, 0x05, 0xC5, 0xE5, 0x4F, 0x06, 0x00, 0x21,
  0xAB, 0x60, 0x09, 0x7E, 0xE1, 0xC1, 0xF3, 0xE5, 0xF5, 0xC5, 0x21, 0xEA, 0x60, 0xCB, 0x4E, 0x20,
  0x3E, 0xCB, 0x56, 0x20, 0x2F, 0xCB, 0x5E, 0x20, 0x0E, 0xCB, 0x66, 0x20, 0x1C, 0xCB, 0x46, 0x20,
  0x41, 0xCB, 0x7E, 0x20, 0x3D, 0x18, 0x4E, 0xF5, 0xDD, 0xE5, 0xE6, 0x18, 0x2F, 0x01, 0xF7, 0xFF,
  0xCD, 0xE9, 0x5E, 0xDD, 0xE1, 0xF1, 0xC3, 0xD2, 0x5E, 0x01, 0xFD, 0xFD, 0xF5, 0x0F, 0x0F, 0x0F,
  0xE6, 0x03, 0x18, 0x1A, 0x01, 0xFD, 0xDF, 0xF5, 0x0F, 0x0F, 0x0F, 0xE6, 0x07, 0x18, 0x0F, 0xF5,
  0x47, 0xE6, 0x08, 0x07, 0x4F, 0x78, 0xE6, 0x30, 0x07, 0x07, 0x81, 0x01, 0xFD, 0x1F, 0xED, 0x79,
  0x00, 0xF1, 0x47, 0xE6, 0x18, 0x07, 0x07, 0x07, 0x4F, 0x78, 0xE6, 0x07, 0x81, 0xF6, 0x10, 0x01,
  0xFD, 0x7F, 0xED, 0x79, 0x00, 0xC1, 0xF1, 0xE1, 0xC9, 0xDD, 0x21, 0x53, 0x2A, 0xDD, 0xE5, 0xC3,
  0x2F, 0x3D, 0xCD, 0x00, 0x5F, 0x3A, 0x08, 0x00, 0xFE, 0x2A, 0xC8, 0x0E, 0x08, 0xC3, 0x63, 0x60,
  0xCD, 0x81, 0x60, 0xAF, 0x32, 0xEA, 0x60, 0x3C, 0x32, 0xEB, 0x60, 0xF3, 0x3A, 0x08, 0x00, 0xFE,
  0xC3, 0x20, 0x05, 0x21, 0xEA, 0x60, 0xCB, 0xFE, 0x2A, 0x57, 0x04, 0x01, 0xF7, 0xFF, 0x3E, 0x1F,
  0xCD, 0xE9, 0x5E, 0xED, 0x5B, 0x57, 0xC4, 0xA7, 0xED, 0x52, 0x01, 0xF7, 0xFF, 0x3E, 0xFF, 0xCD,
  0xE9, 0x5E, 0x20, 0x0A, 0x21, 0xEA, 0x60, 0xCB, 0xDE, 0x18, 0x79, 0xDB, 0x1F, 0xC9, 0x21, 0x80,
  0x00, 0x11, 0x00, 0x10, 0x01, 0xFD, 0xDF, 0xED, 0x51, 0x00, 0x7E, 0x34, 0xBE, 0x77, 0xED, 0x59,
  0x00, 0x28, 0x14, 0x21, 0xEA, 0x60, 0xCB, 0xD6, 0xED, 0x51, 0x00, 0x06, 0x7F, 0xED, 0x51, 0x00,
  0x06, 0xDF, 0xED, 0x59, 0x00, 0x18, 0x4D, 0x11, 0x10, 0x11, 0x06, 0x1F, 0xED, 0x51, 0x00, 0x7E,
  0x34, 0xBE, 0x77, 0xED, 0x59, 0x00, 0x28, 0x0B, 0xAF, 0xED, 0x79, 0x21, 0xEA, 0x60, 0xCB, 0xCE,
  0xC3, 0xB4, 0x5F, 0x41, 0x21, 0xFF, 0xFF, 0xED, 0x51, 0x00, 0x06, 0x7F, 0xED, 0x51, 0x00, 0x7E,
  0x32, 0xEB, 0x5F, 0x72, 0x41, 0xED, 0x59, 0x00, 0x06, 0x7F, 0xED, 0x51, 0x00, 0x7E, 0x32, 0xE0,
  0x5F, 0x73, 0x41, 0xED, 0x51, 0x00, 0x06, 0x7F, 0xED, 0x51, 0x00, 0x7E, 0xBA, 0x20, 0x05, 0x21,
  0xEA, 0x60, 0xCB, 0xE6, 0x21, 0xFF, 0xFF, 0x06, 0x7F, 0xED, 0x59, 0x00, 0x7E, 0x32, 0xD5, 0x5F,
  0x73, 0xED, 0x51, 0x00, 0x72, 0xED, 0x59, 0x00, 0x7A, 0xBE, 0x28, 0x05, 0x21, 0xEA, 0x60, 0xCB,
  0xC6, 0x21, 0xFF, 0xFF, 0x36, 0x00, 0x41, 0xED, 0x59, 0x00, 0x06, 0x7F, 0xED, 0x51, 0x00, 0x36,
  0x00, 0x41, 0xED, 0x51, 0x00, 0x06, 0x7F, 0xED, 0x51, 0x00, 0x36, 0x00, 0xCD, 0x08, 0x60, 0x3A,
  0xEB, 0x60, 0xFE, 0x08, 0x38, 0x0C, 0x3A, 0xEA, 0x60, 0xFE, 0x01, 0x20, 0x05, 0x21, 0xEA, 0x60,
  0xCB, 0xEE, 0xAF, 0xCD, 0x76, 0x5E, 0xFB, 0xC9, 0xDD, 0x21, 0x00, 0xC0, 0x21, 0x3F, 0xBB, 0x06,
  0x40, 0x78, 0x3D, 0xCD, 0x76, 0x5E, 0xDD, 0x4E, 0x00, 0x71, 0xDD, 0x77, 0x00, 0x2B, 0x10, 0xF1,
  0xF5, 0x3E, 0x3D, 0x32, 0xEB, 0x60, 0xF1, 0x11, 0xAB, 0x60, 0x1A, 0xFE, 0xFF, 0x28, 0x21, 0xCD,
  0x76, 0x5E, 0xDD, 0xBE, 0x00, 0x28, 0x16, 0xD5, 0x21, 0xE9, 0x60, 0xA7, 0xED, 0x52, 0xE5, 0xC1,
  0xD5, 0xE1, 0x23, 0xED, 0xB0, 0xE5, 0x21, 0xEB, 0x60, 0x35, 0xE1, 0xD1, 0x1B, 0x13, 0x18, 0xDA,
  0x06, 0x40, 0x21, 0x00, 0xBB, 0x3E, 0x40, 0x90, 0xCD, 0x76, 0x5E, 0x7E, 0xDD, 0x77, 0x00, 0x23,
  0x10, 0xF3, 0xC9, 0xD5, 0xE1, 0x1B, 0x1A, 0xFE, 0xFF, 0x28, 0x14, 0xB9, 0x20, 0xF7, 0xED, 0x52,
  0xE5, 0xC1, 0xD5, 0xE1, 0x23, 0xED, 0xB0, 0xE5, 0x21, 0xEB, 0x60, 0x35, 0xE1, 0x2B, 0x2B, 0xEB,
  0xC9, 0x21, 0xAA, 0x60, 0x36, 0xFF, 0x23, 0xAF, 0x77, 0x3C, 0xFE, 0x02, 0x28, 0x06, 0xFE, 0x05,
  0x28, 0x02, 0x18, 0x01, 0x3C, 0x23, 0xFE, 0x3F, 0x20, 0xEE, 0x36, 0xFF, 0x21, 0x00, 0xBB, 0xE5,
  0xD1, 0x13, 0x01, 0x3F, 0x00, 0x36, 0x00, 0xED, 0xB0, 0xC9, 0x00, 0x00, 0x00, 0x00, 0x00, 0x00,
  0x00, 0x00, 0x00, 0x00, 0x00, 0x00, 0x00, 0x00, 0x00, 0x00, 0x00, 0x00, 0x00, 0x00, 0x00, 0x00,
  0x00, 0x00, 0x00, 0x00, 0x00, 0x00, 0x00, 0x00, 0x00, 0x00, 0x00, 0x00, 0x00, 0x00, 0x00, 0x00,
  0x00, 0x00, 0x00, 0x00, 0x00, 0x00, 0x00, 0x00, 0x00, 0x00, 0x00, 0x00, 0x00, 0x00, 0x00, 0x00,
  0x00, 0x00, 0x00, 0x00, 0x00, 0x00, 0x00, 0x00, 0x00, 0x00, 0x00, 0x00, 0x00, 0x00, 0x00, 0x00,
  0x00, 0x00, 0x00, 0x00, 0x00]

/-- `loader_code`; only `ZXSPECTRUM128` has eight pages. -/
def loaderCode (pagesCount : Nat) : List Byte :=
  if pagesCount = 8 then saveTAP_ZX_Spectrum_128K else saveTAP_ZX_Spectrum_256K

/-- `loader_defsize`. -/
def loaderDefsize (pagesCount : Nat) : Nat := if pagesCount = 8 then 116 else 757

/-- `loader_len`. -/
def loaderLen (pagesCount : Nat) : Nat := loaderDefsize pagesCount + (pagesCount - 2) * 5

/-- A page with a block on the tape: `pages_start`, `pages_len` and what is saved of `pages_ram`. -/
structure TapPage where
  number : Nat
  start : Nat
  len : Nat
  data : List Byte

/-- The five bytes of a page in the table of the loader. -/
def TapPage.entry (page : TapPage) : List Byte :=
  BitVec.ofNat 8 page.number :: writeword (page.start + 0xC000) ++ writeword page.len

/-- What is written behind the BASIC loader. -/
structure TapSnapshot where
  loader : List Byte
  screen : Option (List Byte)
  /-- The pages with an entry in the table and a block. -/
  pages : List TapPage
  mainStart : Nat
  main : List Byte

namespace ZxDevice

variable {m : Nat} (z : ZxDevice m)

/-- A byte of a page. -/
def pageRAM (i : Fin m) (k : Nat) : Byte := z.device.memory ((z.device.pages i).ram + k)

/-- `Device->GetSlot(i)->Page->Number`. -/
def slotPage (i : Fin 4) : Fin m := (z.device.slots i).page

/-- `has_screen_changes`. -/
def hasScreenChanges : Bool :=
  (List.range 0x1800).any (fun i => z.pageRAM (z.slotPage 1) i ≠ 0) ||
    (List.range 0x300).any fun i => z.pageRAM (z.slotPage 1) (0x1800 + i) ≠ 0x38

/-- The copy of the memory from 0x5E00 to 0xBFFF. -/
def mainRAM (k : Nat) : Byte :=
  if k < 0x2200 then z.pageRAM (z.slotPage 1) (0x1E00 + k)
  else z.pageRAM (z.slotPage 2) (k - 0x2200)

/-- A page, with the range from its first to its last byte that is not zero. -/
def tapPage (i : Fin m) : TapPage :=
  let length := removeUnusedSpace (z.pageRAM i) 0x4000
  let start := detectRamStart (z.pageRAM i) length
  ⟨i.val, start, length - start, ramRange (z.pageRAM i) start (length - start)⟩

/-- The loop that builds the table. -/
def tapPages : List TapPage :=
  ((List.finRange m).filter fun i => z.slotPage 2 ≠ i ∧ z.slotPage 1 ≠ i ∧
    0 < removeUnusedSpace (z.pageRAM i) 0x4000).map z.tapPage

/-- `Settings`, in front of the number of the entries. -/
def tapSettings (start : Int) (ramStart ramLength : Nat) : List Byte :=
  [if z.hasScreenChanges then 1 else 0, BitVec.ofInt 8 start, BitVec.ofInt 8 (start / 256)] ++
    writeword (ramStart + 0x5E00) ++ writeword ramLength ++ [BitVec.ofNat 8 (z.slotPage 3).val]

/-- `TAP_SaveSnapshot` for a machine with 128K or more, without the BASIC loader in front.  The buffer of
the loader is not cleared; what is written behind its end does not get to the tape. -/
def tap_SaveSnapshot (start : Int) (uninitialised : Nat → Byte) : TapSnapshot :=
  let length := removeUnusedSpace z.mainRAM 0x6200
  let ramStart := detectRamStart z.mainRAM length
  let pages := z.tapPages
  let table := pages.flatMap TapPage.entry
  let room := loaderLen m - loaderDefsize m
  { loader := (loaderCode m).take (loaderDefsize m - 9) ++
      z.tapSettings start ramStart (length - ramStart) ++ BitVec.ofNat 8 pages.length ::
      (table ++ (List.range (room - table.length)).map uninitialised).take room
    screen := if z.hasScreenChanges then some (ramRange (z.pageRAM (z.slotPage 1)) 0 6912) else none
    pages := pages
    mainStart := 0x5E00 + ramStart
    main := ramRange z.mainRAM ramStart (length - ramStart) }

end ZxDevice

/-- The blocks of the pages. -/
def TapSnapshot.blocks (snapshot : TapSnapshot) : List (List Byte) := snapshot.pages.map TapPage.data

/-- The loop of the loader over its table: it loads the next block of the tape to the page, the address
and with the length of the entry.  The pages are shown from 0xC000 on. -/
def loadPages : Nat → List Byte → List (List Byte) → (Nat → Nat → Byte) → Nat → Nat → Byte
  | count + 1, page :: ixl :: ixh :: e :: d :: table, block :: blocks, memory =>
    let address := ixl.toNat + 256 * ixh.toNat
    let length := e.toNat + 256 * d.toNat
    loadPages count table blocks
      (Patch.write ⟨page.toNat, address - 0xC000, block.take length⟩ memory)
  | _, _, _, memory => memory

/-! ### The ranges -/

section

variable {ram : Nat → Byte} {size : Nat}

theorem removeUnusedSpace_eq (ram : Nat → Byte) (size : Nat) :
    removeUnusedSpace ram size = calcRAMLength ram size := by
  induction size with
  | zero => rfl
  | succ size ih =>
    rw [removeUnusedSpace, calcRAMLength, ih]
    by_cases hram : ram size = 0
    · rw [if_pos hram, if_neg (not_not.mpr hram)]
    · rw [if_neg hram, if_pos hram, Nat.add_comm]

theorem detectRamStart_eq {base : Nat} (hbase : base < size) (hram : ram base ≠ 0)
    (hfirst : ∀ k < base, ram k = 0) : detectRamStart ram size = base := by
  obtain ⟨rest, rfl⟩ : ∃ rest, size = base + (rest + 1) := ⟨size - base - 1, by omega⟩
  have hzeros : ∀ k ∈ List.range base, decide (ram k = 0) = true := by
    intro k hk
    exact decide_eq_true (hfirst k (List.mem_range.mp hk))
  rw [detectRamStart, List.range_add, List.takeWhile_append_of_pos hzeros, List.range_succ_eq_map,
    List.map_cons, List.takeWhile_cons_of_neg (by simpa using hram), List.append_nil,
    List.length_range]

theorem removeUnusedSpace_pos_iff :
    0 < removeUnusedSpace ram size ↔ ∃ k < size, ram k ≠ 0 := by
  rw [removeUnusedSpace_eq]
  constructor
  · intro hpos
    by_contra hzero
    push Not at hzero
    rw [(calcRAM_of_zero hzero).2] at hpos
    exact absurd hpos (Nat.lt_irrefl 0)
  · intro hsome
    have hcovers := (covers_calcRAM hsome).nonempty
    omega

/-- The two loops find the ends of the range. -/
theorem covers_trimmed (h : ∃ k < size, ram k ≠ 0) :
    Covers ram size (detectRamStart ram (removeUnusedSpace ram size))
      (removeUnusedSpace ram size - detectRamStart ram (removeUnusedSpace ram size)) := by
  have hcovers := covers_calcRAM h
  have hpos := hcovers.nonempty
  have hin := hcovers.inside
  have hstart : detectRamStart ram (removeUnusedSpace ram size) = calcRAMStart ram size := by
    rw [removeUnusedSpace_eq]
    apply detectRamStart_eq (by omega) hcovers.first
    intro k hk
    by_contra hne
    have := hcovers.others k (by omega) hne
    omega
  rw [hstart, removeUnusedSpace_eq]
  exact hcovers

end

/-! ### The pages that are saved -/

namespace ZxDevice

variable {m : Nat} (z : ZxDevice m)

/-- A page has a byte that is not zero. -/
def Filled (i : Fin m) : Prop := ∃ k < 0x4000, z.pageRAM i k ≠ 0

instance (i : Fin m) : Decidable (z.Filled i) := decidable_of_iff _ removeUnusedSpace_pos_iff

/-- The pages that are shown neither in slot 1 nor in slot 2, and are not empty. -/
def filledPages : List (Fin m) :=
  (List.finRange m).filter fun i => z.slotPage 1 ≠ i ∧ z.slotPage 2 ≠ i ∧ z.Filled i

variable {z}

theorem mem_filledPages {i : Fin m} : i ∈ z.filledPages ↔
    z.slotPage 1 ≠ i ∧ z.slotPage 2 ≠ i ∧ z.Filled i := by
  simp [filledPages]

theorem nodup_filledPages : z.filledPages.Nodup := List.Nodup.filter _ (List.nodup_finRange m)

theorem tapPages_eq : z.tapPages = z.filledPages.map z.tapPage := by
  rw [tapPages, filledPages]
  congr 1
  apply List.filter_congr
  intro i _
  have hfilled : 0 < removeUnusedSpace (z.pageRAM i) 0x4000 ↔ z.Filled i :=
    removeUnusedSpace_pos_iff
  rw [decide_eq_decide, hfilled]
  tauto

theorem covers_tapPage {i : Fin m} (h : i ∈ z.filledPages) :
    Covers (z.pageRAM i) 0x4000 (z.tapPage i).start (z.tapPage i).len :=
  covers_trimmed (mem_filledPages.mp h).2.2

@[simp] theorem number_tapPage (i : Fin m) : (z.tapPage i).number = i.val := by rw [tapPage]

theorem data_tapPage (i : Fin m) :
    (z.tapPage i).data = ramRange (z.pageRAM i) (z.tapPage i).start (z.tapPage i).len := by
  rw [tapPage]

@[simp] theorem length_data_tapPage (i : Fin m) : (z.tapPage i).data.length = (z.tapPage i).len := by
  rw [data_tapPage, ramRange, List.length_map, List.length_range]

end ZxDevice

/-! ### What the loader makes of its table -/

/-- What is saved of a page, under its number. -/
def TapPage.patch (page : TapPage) : Patch Nat Byte := ⟨page.number, page.start, page.data⟩

/-- The entry of a page says what its block holds. -/
structure TapPage.Fits (page : TapPage) : Prop where
  number : page.number < 256
  start : page.start < 0x4000
  len : page.len ≤ 0x4000
  data : page.data.length = page.len

/-- A number above 255 does not get into the table. -/
theorem loadPages_of_large (count : Nat) (table : List Byte) (blocks : List (List Byte))
    (memory : Nat → Nat → Byte) {number : Nat} (h : 256 ≤ number) :
    loadPages count table blocks memory number = memory number := by
  induction count, table, blocks, memory using loadPages.induct with
  | case1 count page ixl ixh e d table block blocks memory address length ih =>
    have hne : page.toNat ≠ number := by
      have := page.isLt
      omega
    rw [loadPages, ih]
    exact Patch.write_of_ne hne
  | case2 => rw [loadPages]; assumption

/-- The loop writes what the entries and the blocks say. -/
theorem loadPages_entries {pages : List TapPage} (h : ∀ page ∈ pages, page.Fits) (rest : List Byte)
    (memory : Nat → Nat → Byte) :
    loadPages pages.length (pages.flatMap TapPage.entry ++ rest) (pages.map TapPage.data) memory
      = Patch.writeAll (pages.map TapPage.patch) memory := by
  induction pages generalizing memory with
  | nil => rfl
  | cons page pages ih =>
    rw [List.forall_mem_cons] at h
    obtain ⟨⟨hnumber, hstart, hlen, hdata⟩, hpages⟩ := h
    -- the words of the entry come back
    have hbyte : (BitVec.ofNat 8 page.number).toNat = page.number := by
      rw [BitVec.toNat_ofNat]
      exact Nat.mod_eq_of_lt hnumber
    have haddress := (writeword_eq_iff (page.start + 0xC000)).mpr (by omega)
    have hlength := (writeword_eq_iff page.len).mpr (by omega)
    rw [List.flatMap_cons, List.append_assoc]
    show loadPages (pages.length + 1)
      (_ :: _ :: _ :: _ :: _ :: (pages.flatMap TapPage.entry ++ rest)) (_ :: _) memory = _
    rw [loadPages, hbyte, haddress, hlength, Nat.add_sub_cancel, List.take_of_length_le hdata.le,
      ih hpages, List.map_cons, Patch.writeAll_cons, TapPage.patch]

/-! ### The loader -/

theorem length_loaderCode (m : Nat) : (loaderCode m).length = loaderDefsize m := by
  rw [loaderCode, loaderDefsize]
  split_ifs
  · decide +kernel
  · decide +kernel

theorem nine_le_loaderDefsize (m : Nat) : 9 ≤ loaderDefsize m := by
  rw [loaderDefsize]
  split_ifs
  · decide
  · decide

/-- The number of the entries, as the loader finds it. -/
def TapSnapshot.countByte (m : Nat) (snapshot : TapSnapshot) : Byte :=
  snapshot.loader.getD (loaderDefsize m - 1) 0

/-- The table, as the loader finds it. -/
def TapSnapshot.table (m : Nat) (snapshot : TapSnapshot) : List Byte :=
  snapshot.loader.drop (loaderDefsize m)

section

variable {m : Nat} (z : ZxDevice m) (start : Int) (uninitialised : Nat → Byte)

/-- The loader is its code with the settings, the number of the entries, and the table. -/
theorem loader_tap_SaveSnapshot : ∃ settings : List Byte, settings.length = loaderDefsize m - 1 ∧
    ∃ rest : List Byte, (z.tap_SaveSnapshot start uninitialised).loader
      = settings ++ BitVec.ofNat 8 z.tapPages.length ::
        (z.tapPages.flatMap TapPage.entry ++ rest).take (loaderLen m - loaderDefsize m) := by
  have hdefsize := nine_le_loaderDefsize m
  refine ⟨(loaderCode m).take (loaderDefsize m - 9) ++ _, ?_, _, rfl⟩
  rw [List.length_append, List.length_take, length_loaderCode]
  simp only [ZxDevice.tapSettings, writeword, List.length_append, List.length_cons, List.length_nil]
  omega

theorem countByte_tap_SaveSnapshot :
    (z.tap_SaveSnapshot start uninitialised).countByte m = BitVec.ofNat 8 z.tapPages.length := by
  obtain ⟨settings, hsettings, rest, hloader⟩ := loader_tap_SaveSnapshot z start uninitialised
  rw [TapSnapshot.countByte, hloader, ← hsettings]
  simp

theorem table_tap_SaveSnapshot : ∃ rest : List Byte,
    (z.tap_SaveSnapshot start uninitialised).table m
      = (z.tapPages.flatMap TapPage.entry ++ rest).take (loaderLen m - loaderDefsize m) := by
  obtain ⟨settings, hsettings, rest, hloader⟩ := loader_tap_SaveSnapshot z start uninitialised
  have hdefsize := nine_le_loaderDefsize m
  refine ⟨rest, ?_⟩
  rw [TapSnapshot.table, hloader, List.drop_append, hsettings,
    List.drop_eq_nil_of_le (by omega), show loaderDefsize m - (loaderDefsize m - 1) = 1 by omega,
    List.nil_append, List.drop_one, List.tail_cons]

end

/-! ### The table and the blocks -/

open ZxDevice (mem_filledPages nodup_filledPages covers_tapPage
  number_tapPage data_tapPage length_data_tapPage tapPages_eq)

/-- The table of a snapshot is right: its entries fit into the buffer, the loader finds how many blocks
there are, and loading them reproduces every byte that is not zero of the pages which are shown neither
in slot 1 nor in slot 2. -/
structure LoadsPages {m : Nat} (z : ZxDevice m) (snapshot : TapSnapshot) : Prop where
  fits : loaderDefsize m + snapshot.pages.length * 5 ≤ loaderLen m
  count : (snapshot.countByte m).toNat = snapshot.blocks.length
  loads : ∀ (memory : Nat → Nat → Byte) (i : Fin m), z.slotPage 1 ≠ i → z.slotPage 2 ≠ i →
    ∀ k < 0x4000, z.pageRAM i k ≠ 0 →
      loadPages (snapshot.countByte m).toNat (snapshot.table m) snapshot.blocks memory i.val k
        = z.pageRAM i k

section

variable {m : Nat} {z : ZxDevice m} {start : Int} {uninitialised : Nat → Byte}

theorem fits_tapPage {i : Fin m} (h : i ∈ z.filledPages) (hi : i.val < 256) :
    (z.tapPage i).Fits := by
  have hcovers := covers_tapPage h
  have hin := hcovers.inside
  have hpos := hcovers.nonempty
  constructor
  · rw [number_tapPage]
    exact hi
  · omega
  · omega
  · exact length_data_tapPage i

/-- The block of a page holds its bytes. -/
theorem write_patch_tapPage {i : Fin m} (h : i ∈ z.filledPages) (memory : Nat → Nat → Byte)
    {k : Nat} (hk : k < 0x4000) (hne : z.pageRAM i k ≠ 0) :
    (z.tapPage i).patch.write memory i.val k = z.pageRAM i k := by
  obtain ⟨hbase, hend⟩ := (covers_tapPage h).others k hk hne
  obtain ⟨offset, rfl⟩ := Nat.exists_eq_add_of_le hbase
  have hoffset : offset < (z.tapPage i).data.length := by
    rw [length_data_tapPage]
    omega
  have hwrite : (z.tapPage i).patch.write memory i.val ((z.tapPage i).start + offset)
      = (z.tapPage i).data[offset] := Patch.write_of_lt hoffset
  rw [hwrite]
  simp [data_tapPage, ramRange]

theorem length_tapPages : z.tapPages.length = z.filledPages.length := by
  rw [tapPages_eq, List.length_map]

theorem length_entries (pages : List TapPage) :
    (pages.flatMap TapPage.entry).length = pages.length * 5 := by
  induction pages with
  | nil => rfl
  | cons page pages ih =>
    rw [List.flatMap_cons, List.length_append, ih, List.length_cons]
    simp only [TapPage.entry, writeword, List.length_append, List.length_cons, List.length_nil]
    omega

theorem room_eq (m : Nat) : loaderLen m - loaderDefsize m = (m - 2) * 5 := by
  rw [loaderLen, Nat.add_sub_cancel_left]

/-- Two pages less than there are have an entry. -/
theorem LoadsPages.length_le (h : LoadsPages z (z.tap_SaveSnapshot start uninitialised)) :
    z.filledPages.length ≤ m - 2 := by
  have hfits : loaderDefsize m + z.tapPages.length * 5 ≤ loaderLen m := h.fits
  rw [length_tapPages, loaderLen] at hfits
  omega

/-- The number of the entries is a byte. -/
theorem LoadsPages.length_lt (h : LoadsPages z (z.tap_SaveSnapshot start uninitialised)) :
    z.filledPages.length < 256 := by
  have hcount := h.count
  have hblocks : (z.tap_SaveSnapshot start uninitialised).blocks.length = z.tapPages.length :=
    List.length_map _
  rw [countByte_tap_SaveSnapshot, hblocks, BitVec.toNat_ofNat, length_tapPages] at hcount
  omega

/-- The number of a page is a byte. -/
theorem LoadsPages.number_lt (h : LoadsPages z (z.tap_SaveSnapshot start uninitialised)) {i : Fin m}
    (hi : i ∈ z.filledPages) : i.val < 256 := by
  obtain ⟨hslot1, hslot2, k, hk, hne⟩ := mem_filledPages.mp hi
  by_contra hlarge
  -- the memory was clear, and nothing is loaded to the page
  have hloads := h.loads (fun _ _ => 0) i hslot1 hslot2 k hk hne
  rw [loadPages_of_large _ _ _ _ (Nat.le_of_not_lt hlarge)] at hloads
  exact hne hloads.symm

theorem loadsPages_of_bounds (hle : z.filledPages.length ≤ m - 2) (hlt : z.filledPages.length < 256)
    (hnumber : ∀ i ∈ z.filledPages, i.val < 256) :
    LoadsPages z (z.tap_SaveSnapshot start uninitialised) := by
  have hblocks : (z.tap_SaveSnapshot start uninitialised).blocks = z.tapPages.map TapPage.data := rfl
  have hcount : ((z.tap_SaveSnapshot start uninitialised).countByte m).toNat = z.tapPages.length := by
    rw [countByte_tap_SaveSnapshot, BitVec.toNat_ofNat, length_tapPages]
    exact Nat.mod_eq_of_lt hlt
  constructor
  · show loaderDefsize m + z.tapPages.length * 5 ≤ loaderLen m
    rw [length_tapPages, loaderLen]
    omega
  · rw [hcount, hblocks, List.length_map]
  · intro memory i hslot1 hslot2 k hk hne
    have hi : i ∈ z.filledPages := mem_filledPages.mpr ⟨hslot1, hslot2, k, hk, hne⟩
    -- the whole table is in the buffer
    obtain ⟨rest, htable⟩ := table_tap_SaveSnapshot z start uninitialised
    rw [room_eq, List.take_append, List.take_of_length_le (by
      rw [length_entries, length_tapPages]
      omega)] at htable
    have hfits : ∀ page ∈ z.tapPages, page.Fits := by
      rw [tapPages_eq, List.forall_mem_map]
      exact fun j hj => fits_tapPage hj (hnumber j hj)
    have hkeys : ((z.tapPages.map TapPage.patch).map Patch.key).Nodup := by
      rw [tapPages_eq, List.map_map, List.map_map]
      exact nodup_filledPages.map Fin.val_injective
    have hmem : (z.tapPage i).patch ∈ z.tapPages.map TapPage.patch := by
      rw [tapPages_eq]
      exact List.mem_map_of_mem (List.mem_map_of_mem hi)
    rw [hcount, hblocks, htable, loadPages_entries hfits]
    rw [← write_patch_tapPage hi memory hk hne]
    exact congrFun (Patch.writeAll_of_mem hkeys hmem) k

/-- The snapshot of a machine with 128K or more is right exactly when the pages that are not empty, and
shown neither in slot 1 nor in slot 2, are at most two less than the device has, less than 256, and have
numbers below 256. -/
theorem loads_tapSnapshot_iff {m : Nat} (z : ZxDevice m) (start : Int)
    (uninitialised : Nat → Byte) :
    LoadsPages z (z.tap_SaveSnapshot start uninitialised) ↔
      z.filledPages.length ≤ m - 2 ∧ z.filledPages.length < 256 ∧
        ∀ i ∈ z.filledPages, i.val < 256 := by
  constructor
  · intro h
    exact ⟨h.length_le, h.length_lt, fun i hi => h.number_lt hi⟩
  · rintro ⟨hle, hlt, hnumber⟩
    exact loadsPages_of_bounds hle hlt hnumber

end

/-! ### An example -/

/-- `DEVICE ZXSPECTRUM128` with a byte in each place, and page 5 shown in slot 2 too. -/
def zxSpectrum128PageTwice : ZxDevice 8 where
  device :=
    { initRegularSlotDevice 0x4000 slotSize_pos slotCount_pos ![7, 5, 5, 0] with
      memory := fun _ => 1 }
  is48kSnap := false
  zxRamTop := 0x5D5B
  initialPage := ![7, 5, 2, 0]
  slots _ := ⟨rfl, rfl⟩
  pages _ := rfl
  pageCount := .inr (Nat.le_refl 8)
  initialPage48 := nofun
  ramTop := ramTop_default

/-- Seven pages are saved, and there is room for six. -/
theorem not_loads_tapSnapshot : ¬ ∀ (m : Nat) (z : ZxDevice m), 8 ≤ m → ∀ (start : Int)
    (uninitialised : Nat → Byte), LoadsPages z (z.tap_SaveSnapshot start uninitialised) := by
  intro h
  have hle := (h 8 zxSpectrum128PageTwice (Nat.le_refl 8) 0x8000 fun _ => 0).length_le
  have hsub : ([0, 1, 2, 3, 4, 6, 7] : List (Fin 8)) ⊆ zxSpectrum128PageTwice.filledPages := by
    intro i hi
    have hshown : ∀ i ∈ ([0, 1, 2, 3, 4, 6, 7] : List (Fin 8)), 5 ≠ i := by decide
    exact mem_filledPages.mpr ⟨hshown i hi, hshown i hi, 0, by decide, (by decide : (1 : Byte) ≠ 0)⟩
  have hseven := (List.Nodup.subperm (by decide) hsub).length_le
  exact absurd (hseven.trans hle) (by decide)

end Sjasmplus
