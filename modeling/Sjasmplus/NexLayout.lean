import Sjasmplus.NexMemory

/-!
# The layout of NEX files

An open NEX file is a front, of the header, the palette, the screen and the copper code, and behind
it the blocks of the banks, in the order 5, 2, 0, 1, 3, 4, 6, 7, 8, 9, and so on.  A `NexLayout` is
such a file, apart from the code that writes it: `NexLayout.Appends` is all that a command may do
with it, and `Represents` says when the fields of `nex` describe it.
-/

namespace Sjasmplus

open Program Nex

/-! ### Layouts -/

/-- The order of the banks in a file. -/
def fileOrder : List (Fin 112) := [5, 2, 0, 1, 3, 4, 6, 7] ++ (List.finRange 112).drop 8

/-- A bank with its content. -/
structure BankBlock where
  bank : Fin 112
  data : List Byte
  size : data.length = 0x4000

/-- What an open NEX file consists of. -/
structure NexLayout where
  front : List Byte
  stored : List BankBlock
  ordered : (stored.map BankBlock.bank).Sublist fileOrder

namespace NexLayout

/-- The stored banks. -/
def banks (l : NexLayout) : List (Fin 112) := l.stored.map BankBlock.bank

/-- The content of the file. -/
def file (l : NexLayout) : List Byte := l.front ++ l.stored.flatMap BankBlock.data

/-- A file without banks. -/
def ofFront (front : List Byte) : NexLayout := ⟨front, [], List.nil_sublist _⟩

end NexLayout

theorem nodup_fileOrder : fileOrder.Nodup := by decide +kernel

theorem length_fileOrder : fileOrder.length = 112 := by decide +kernel

/-- No bank is stored twice. -/
theorem NexLayout.nodup_banks (l : NexLayout) : l.banks.Nodup := nodup_fileOrder.sublist l.ordered

namespace Nex

theorem length_readMemory (env : NexEnv) (address : Int) (size : Nat) :
    (readMemory env address size).length = size := by
  simp [readMemory]

/-- The block of a bank as `saveBank` finds it in the memory. -/
def bankMemory (env : NexEnv) (bank : Fin 112) : BankBlock where
  bank := bank
  data := readMemory env (bank.val * 2 * 0x2000) 0x4000
  size := length_readMemory _ _ _

theorem data_bankMemory (env : NexEnv) (bank : Fin 112) :
    (bankMemory env bank).data = readMemory env (bank.val * 2 * 0x2000) 0x4000 := by
  simp only [bankMemory]

/-- A command adds data to the front, ahead of the first bank only, and banks of the memory to the
end. -/
structure Appends (env : NexEnv) (data : List Byte) (new : List (Fin 112)) (l l' : NexLayout) :
    Prop where
  front : l'.front = l.front ++ data
  ahead : l.stored ≠ [] → data = []
  stored : l'.stored = l.stored ++ new.map (bankMemory env)

theorem Appends.refl (env : NexEnv) (l : NexLayout) : Appends env [] [] l l where
  front := (List.append_nil _).symm
  ahead _ := rfl
  stored := (List.append_nil _).symm

theorem Appends.trans {env : NexEnv} {data data' : List Byte} {new new' : List (Fin 112)}
    {l l' l'' : NexLayout} (h : Appends env data new l l') (h' : Appends env data' new' l' l'') :
    Appends env (data ++ data') (new ++ new') l l'' where
  front := by rw [h'.front, h.front, List.append_assoc]
  ahead hstored := by
    have hstored' : l'.stored ≠ [] := by
      rw [h.stored]
      exact List.append_ne_nil_of_left_ne_nil hstored _
    rw [h.ahead hstored, h'.ahead hstored', List.append_nil]
  stored := by rw [h'.stored, h.stored, List.map_append, List.append_assoc]

end Nex

/-- The offset of the banks in the header of a file. -/
def NexFile.banksOffset (file : List Byte) : BitVec 32 := BitVec.ofNat 32 (leAt file 144 4)

theorem SNexHeader.banksOffset_bytes (h : SNexHeader) (rest : List Byte) :
    NexFile.banksOffset (h.bytes ++ rest) = h.banksOffset := by
  obtain ⟨behind, hsplit⟩ : ∃ behind, h.bytes ++ rest
      = (h.v12Bytes ++ [h.hasChecksum]) ++ (le32 h.banksOffset ++ behind) := by
    simp only [bytes, checksummedBytes, v13Bytes, List.append_assoc, List.cons_append,
      List.nil_append]
    exact ⟨_, rfl⟩
  have hlen : (h.v12Bytes ++ [h.hasChecksum]).length = 144 := by
    rw [List.length_append, length_v12Bytes]
    rfl
  have hdrop : ((h.bytes ++ rest).drop 144).take 4 = le32 h.banksOffset := by
    rw [hsplit, List.drop_left' hlen]
    rfl
  rw [NexFile.banksOffset, leAt, hdrop, foldr_le32]

/-! ### The fields that describe a layout -/

/-- The fields of `nex` that have to do with banks. -/
structure BankFields where
  f : Option (List Byte)
  canAppend : Bool
  lastBankIndex : Int
  magicAndVersion : Fin 8 → Byte
  screen : Byte
  numBanks : Byte
  banks : Fin 112 → Byte
  banksOffset : BitVec 32

def SNexFile.bankFields (n : SNexFile) : BankFields where
  f := n.f
  canAppend := n.canAppend
  lastBankIndex := n.lastBankIndex
  magicAndVersion := n.h.magicAndVersion
  screen := n.h.screen
  numBanks := n.h.numBanks
  banks := n.h.banks
  banksOffset := n.h.banksOffset

namespace Nex

/-- The number of bytes of a palette and the largest pixel data. -/
def maxPicture : Nat := 0x200 + 0x14000

/-- The fields describe the layout.  The front has the header, and one picture and the copper code at
most, so its length is a 32-bit number and is never taken for an offset that is missing. -/
structure Represents (b : BankFields) (l : NexLayout) : Prop where
  file : b.f = some l.file
  canAppend : b.canAppend = true
  magic : b.magicAndVersion = SNexHeader.magicV12
  low : -1 ≤ b.lastBankIndex
  numBanks : b.numBanks = BitVec.ofNat 8 l.stored.length
  banks : ∀ bank, b.banks bank ≠ 0 ↔ bank ∈ l.banks
  last : l.banks.Sublist (fileOrder.take (b.lastBankIndex + 1).toNat)
  offset : b.banksOffset = if b.lastBankIndex = -1 then 0 else BitVec.ofNat 32 l.front.length
  header : 0x200 ≤ l.front.length
  length : l.front.length ≤ 0x200 + (if b.screen = 0 then 0 else maxPicture)
    + if b.lastBankIndex = -1 then 0 else SNexHeader.copperSize

/-- The buffers have the sizes of their blocks, and a feature of version 1.3 was not used where 1.2
was asked for. -/
structure Sound (n : SNexFile) : Prop where
  palette : ∀ palette ∈ n.palette, palette.length ≤ SNexHeader.palSize
  copper : ∀ copper ∈ n.copper, copper.length ≤ SNexHeader.copperSize
  version : n.minFileVersion = 3 → n.reqFileVersion ≠ 2

variable {b : BankFields} {l : NexLayout}

/-- Ahead of the first bank there are no banks. -/
theorem Represents.stored_eq_nil (h : Represents b l) (hlast : b.lastBankIndex = -1) :
    l.stored = [] := by
  have hbanks := h.last
  rw [hlast] at hbanks
  exact List.map_eq_nil_iff.mp (List.sublist_nil.mp hbanks)

theorem Represents.front_lt (h : Represents b l) : l.front.length < 2 ^ 32 := by
  have hlength := h.length
  have hscreen : (if b.screen = 0 then 0 else maxPicture) ≤ 0x14200 := by
    split_ifs
    · exact Nat.zero_le _
    · exact le_rfl
  have hcopper : (if b.lastBankIndex = -1 then 0 else SNexHeader.copperSize) ≤ 0x800 := by
    split_ifs
    · exact Nat.zero_le _
    · exact le_rfl
  omega

/-- The offset of the banks is missing ahead of the first bank only. -/
theorem Represents.offset_eq_zero_iff (h : Represents b l) :
    b.banksOffset = 0 ↔ b.lastBankIndex = -1 := by
  constructor
  · intro hzero
    by_contra hlast
    have hoffset := h.offset
    rw [if_neg hlast, hzero] at hoffset
    have hnat := congrArg BitVec.toNat hoffset
    rw [BitVec.toNat_ofNat, Nat.mod_eq_of_lt h.front_lt] at hnat
    have := h.header
    simp at hnat
    omega
  · intro hlast
    rw [h.offset, if_pos hlast]

/-- The number of banks of the header is the number of its entries, and of the blocks. -/
theorem Represents.count (h : Represents b l) :
    b.numBanks.toNat = l.stored.length ∧
      (Finset.univ.filter fun bank => b.banks bank ≠ 0).card = l.stored.length := by
  have hlength : l.stored.length ≤ 112 := by
    have := l.ordered.length_le
    rwa [List.length_map, length_fileOrder] at this
  constructor
  · rw [h.numBanks, BitVec.toNat_ofNat, Nat.mod_eq_of_lt (by omega)]
  · have hset : (Finset.univ.filter fun bank => b.banks bank ≠ 0) = l.banks.toFinset := by
      ext bank
      rw [Finset.mem_filter, List.mem_toFinset, ← h.banks bank]
      exact and_iff_right (Finset.mem_univ _)
    rw [hset, List.toFinset_card_of_nodup l.nodup_banks, NexLayout.banks, List.length_map]

/-! ### What commands do to the fields -/

/-- A picture goes to the front, ahead of the banks. -/
theorem Represents.picture (h : Represents b l) (hlast : b.lastBankIndex = -1)
    (hscreen : b.screen = 0) {data : List Byte} {screen : Byte} (hscreen' : screen ≠ 0)
    (hdata : data.length ≤ maxPicture) :
    Represents { b with f := b.f.map (· ++ data), screen := screen } (.ofFront (l.front ++ data)) := by
  -- no bank is stored yet, so that the end of the file is the end of the front
  have hstored := h.stored_eq_nil hlast
  have hlength := h.length
  rw [if_pos hscreen, if_pos hlast] at hlength
  -- the fields that depend on the file: all others are those of before
  refine ⟨?_, h.canAppend, h.magic, h.low, ?_, fun bank => ?_, List.nil_sublist _, ?_, ?_, ?_⟩
  · show b.f.map (· ++ data) = _
    rw [h.file, NexLayout.file, NexLayout.file, hstored]
    simp [NexLayout.ofFront]
  · rw [h.numBanks, hstored]
    rfl
  · rw [h.banks bank, NexLayout.banks, hstored]
    rfl
  · show b.banksOffset = if b.lastBankIndex = -1 then 0 else _
    rw [h.offset, if_pos hlast, if_pos hlast]
  · show 0x200 ≤ (l.front ++ data).length
    rw [List.length_append]
    exact h.header.trans (Nat.le_add_right _ _)
  · show (l.front ++ data).length ≤ 0x200 + (if screen = 0 then 0 else maxPicture)
      + if b.lastBankIndex = -1 then 0 else SNexHeader.copperSize
    rw [List.length_append, if_neg hscreen', if_pos hlast]
    omega

/-- Once the offset of the banks is known the fields stay. -/
theorem atFirstBank_of_offset {n : SNexFile} (h : n.h.banksOffset ≠ 0) : atFirstBank n = n := by
  rw [atFirstBank, if_pos (.inl h)]

/-- The copper code that goes to the file ahead of the first bank. -/
def copperBlock (n : SNexFile) : List Byte :=
  if n.h.hasCopperCode ≠ 0 then n.copper.getD [] else []

theorem length_copperBlock_le {n : SNexFile} (hs : Sound n) :
    (copperBlock n).length ≤ SNexHeader.copperSize := by
  unfold copperBlock
  split_ifs
  · cases hcopper : n.copper with
    | none => exact Nat.zero_le _
    | some copper => exact hs.copper copper hcopper
  · exact Nat.zero_le _

/-- The copper code goes to the front, and the length of the front is the offset of the banks. -/
theorem bankFields_atFirstBank {n : SNexFile} (h : Represents n.bankFields l)
    (hfirst : n.lastBankIndex = -1) :
    (atFirstBank n).bankFields = { n.bankFields with
      f := some (l.front ++ copperBlock n)
      banksOffset := BitVec.ofNat 32 (l.front ++ copperBlock n).length } := by
  have hoffset : n.h.banksOffset = 0 := h.offset_eq_zero_iff.mpr hfirst
  have hcan : n.canAppend = true := h.canAppend
  have hfile : n.f = some l.file := h.file
  have hfront : l.file = l.front := by
    rw [NexLayout.file, h.stored_eq_nil hfirst]
    exact List.append_nil _
  rw [atFirstBank, if_neg (by simp [hoffset, hcan])]
  dsimp only
  rw [hfile, hfront]
  rfl

/-- Ahead of a bank the copper code is appended, unless there is a bank already. -/
theorem Represents.atFirstBank {n : SNexFile} (h : Represents n.bankFields l) (hs : Sound n)
    {index : Int} (hlow : 0 ≤ index) (hindex : n.lastBankIndex < index) :
    ∃ copper : List Byte, (n.lastBankIndex ≠ -1 → copper = []) ∧
      copper.length ≤ SNexHeader.copperSize ∧
      Represents { (atFirstBank n).bankFields with lastBankIndex := index }
        { l with front := l.front ++ copper } := by
  have hne : index ≠ -1 := by omega
  have hlow' : -1 ≤ index := by omega
  have hlastLow : -1 ≤ n.lastBankIndex := h.low
  have hlast : l.banks.Sublist (fileOrder.take (index + 1).toNat) :=
    h.last.trans (List.take_sublist_take_left (by
      show (n.lastBankIndex + 1).toNat ≤ (index + 1).toNat
      omega))
  -- the copper is written once, at the first bank, and the offset is noted with it
  by_cases hfirst : n.lastBankIndex = -1
  · have hfirst' : n.bankFields.lastBankIndex = -1 := hfirst
    have hstored := h.stored_eq_nil hfirst
    have hlength := h.length
    rw [if_pos hfirst'] at hlength
    have hcopper := length_copperBlock_le hs
    refine ⟨copperBlock n, absurd hfirst, hcopper, ?_⟩
    rw [bankFields_atFirstBank h hfirst]
    refine ⟨?_, h.canAppend, h.magic, hlow', h.numBanks, h.banks, hlast, (if_neg hne).symm, ?_, ?_⟩
    · show some (l.front ++ copperBlock n)
        = some (l.front ++ copperBlock n ++ l.stored.flatMap BankBlock.data)
      rw [hstored, List.flatMap_nil, List.append_nil]
    · show 0x200 ≤ (l.front ++ copperBlock n).length
      rw [List.length_append]
      exact h.header.trans (Nat.le_add_right _ _)
    · show (l.front ++ copperBlock n).length ≤ _ + if index = -1 then 0 else _
      rw [List.length_append, if_neg hne]
      exact Nat.add_le_add hlength hcopper
  · have hfirst' : ¬n.bankFields.lastBankIndex = -1 := hfirst
    have hoffset : n.h.banksOffset ≠ 0 := fun hzero => hfirst (h.offset_eq_zero_iff.mp hzero)
    have hoffset' := h.offset
    have hlength := h.length
    rw [if_neg hfirst'] at hoffset' hlength
    refine ⟨[], fun _ => rfl, Nat.zero_le _, ?_⟩
    rw [atFirstBank_of_offset hoffset, List.append_nil]
    refine ⟨h.file, h.canAppend, h.magic, hlow', h.numBanks, h.banks, hlast, ?_, h.header, ?_⟩
    · exact hoffset'.trans (if_neg hne).symm
    · show l.front.length ≤ _ + if index = -1 then 0 else _
      rw [if_neg hne]
      exact hlength

/-- At the end of a file the copper code is appended, unless there is a bank. -/
theorem Represents.closing {n : SNexFile} (h : Represents n.bankFields l) (hs : Sound n)
    (env : NexEnv) :
    ∃ (l' : NexLayout) (copper : List Byte), Appends env copper [] l l' ∧
      copper.length ≤ SNexHeader.copperSize ∧ (Nex.atFirstBank n).f = some l'.file ∧
      (Nex.atFirstBank n).h.banksOffset = BitVec.ofNat 32 l'.front.length ∧
      (Nex.atFirstBank n).h.banksOffset ≠ 0 ∧ 0x200 ≤ l'.front.length ∧
      l'.front.length < 2 ^ 32 := by
  have hlow : -1 ≤ n.lastBankIndex := h.low
  obtain ⟨copper, hcopper, hlength, hclosing⟩ :=
    h.atFirstBank hs (show 0 ≤ n.lastBankIndex + 1 by omega) (Int.lt_succ n.lastBankIndex)
  have hne : n.lastBankIndex + 1 ≠ -1 := by omega
  refine ⟨{ l with front := l.front ++ copper }, copper,
    ⟨rfl, fun hstored => ?_, (List.append_nil _).symm⟩, hlength, hclosing.file,
    hclosing.offset.trans (if_neg hne), fun hzero => ?_, hclosing.header, hclosing.front_lt⟩
  · exact hcopper fun hlast => hstored (h.stored_eq_nil hlast)
  · exact hne (hclosing.offset_eq_zero_iff.mp hzero)

/-- The bank whose turn it is goes to the end of the file. -/
theorem Represents.store (h : Represents b l) (hlow : 0 ≤ b.lastBankIndex) {bank : Fin 112}
    (hbank : fileOrder[b.lastBankIndex.toNat]? = some bank)
    (hbefore : l.banks.Sublist (fileOrder.take b.lastBankIndex.toNat)) (env : NexEnv) :
    ∃ l', Appends env [] [bank] l l' ∧
      Represents { b with
        f := b.f.map (· ++ (bankMemory env bank).data)
        numBanks := b.numBanks + 1
        banks := Function.update b.banks bank 1 } l' := by
  have hindex : (b.lastBankIndex + 1).toNat = b.lastBankIndex.toNat + 1 := by omega
  -- the bank is the next one of the file order, so that the order is kept
  have hlast : (l.banks ++ [bank]).Sublist (fileOrder.take (b.lastBankIndex + 1).toNat) := by
    rw [hindex, List.take_add_one, hbank]
    exact hbefore.append (List.Sublist.refl _)
  have hbanks : (l.stored ++ [bankMemory env bank]).map BankBlock.bank = l.banks ++ [bank] :=
    List.map_append
  rw [← hbanks] at hlast
  refine ⟨⟨l.front, l.stored ++ [bankMemory env bank], hlast.trans (List.take_sublist _ _)⟩,
    ⟨(List.append_nil _).symm, fun _ => rfl, rfl⟩, ?_⟩
  refine ⟨?_, h.canAppend, h.magic, h.low, ?_, fun other => ?_, hlast, h.offset, h.header, h.length⟩
  · show b.f.map _ = some _
    rw [h.file, NexLayout.file, NexLayout.file, List.flatMap_append, ← List.append_assoc]
    simp
  · show b.numBanks + 1 = _
    rw [h.numBanks, List.length_append, BitVec.ofNat_add]
    rfl
  -- exactly the stored banks are marked in the header
  · show Function.update b.banks bank 1 other ≠ 0 ↔ other ∈ _
    rw [NexLayout.banks, hbanks, List.mem_append, List.mem_singleton, Function.update_apply]
    by_cases hother : other = bank
    · rw [if_pos hother]
      exact iff_of_true (by decide) (.inr hother)
    · rw [if_neg hother, h.banks other]
      exact (or_iff_left hother).symm

/-- A bank number comes with its place in the order of the file. -/
def InPlace (bankIndex bankNum : Int) : Prop :=
  0 ≤ bankIndex ∧ ∀ bank : Fin 112, (bank.val : Int) = bankNum →
    fileOrder[bankIndex.toNat]? = some bank

theorem inPlace_getNexBankIndex {bankNum : Aint} (hindex : 0 ≤ getNexBankIndex bankNum) :
    InPlace (getNexBankIndex bankNum) bankNum.toInt := by
  have hall : ∀ bank : Fin 112,
      fileOrder[(getNexBankIndex (BitVec.ofNat 32 bank.val)).toNat]? = some bank := by
    decide +kernel
  refine ⟨hindex, fun bank hbank => ?_⟩
  have hnum : bankNum = BitVec.ofNat 32 bank.val := by
    rw [← BitVec.ofInt_natCast, hbank, BitVec.ofInt_toInt]
  rw [hnum]
  exact hall bank

theorem inPlace_getNexBankNum {bankIndex : Int} (hindex : 0 ≤ bankIndex) :
    InPlace bankIndex (getNexBankNum bankIndex) := by
  have hall : ∀ (index bank : Fin 112), (bank.val : Int) = getNexBankNum index.val →
      fileOrder[index.val]? = some bank := by
    decide +kernel
  obtain ⟨index, rfl⟩ := Int.eq_ofNat_of_zero_le hindex
  refine ⟨hindex, fun bank hbank => ?_⟩
  by_cases hlast : index < 112
  · exact hall ⟨index, hlast⟩ bank hbank
  · have hnone : getNexBankNum index = -1 := by
      rw [getNexBankNum, if_neg (by omega), SNexHeader.maxBank, if_neg (by omega)]
    omega

end Nex

end Sjasmplus
