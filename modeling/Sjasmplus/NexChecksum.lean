import Mathlib.Data.List.GetD
import Sjasmplus.Nex

/-!
# The checksum of a NEX file

`calculateCrc32C` reads the header back from the file, where it still is as `OPEN` wrote it; only
afterwards `writeHeader` stores the final one.  So the checksum of a closed file is right exactly when
the two headers differ by a multiple of the CRC polynomial (`closed_checksum_iff`).

Between `OPEN` and `finalizeFile` every command only appends to the file: this is the relation
`Grows`, which holds for each of the programs.  The state of a run stays `WellFormed` with it: an open
file starts with the header of `OPEN`, and the version in memory is still "V1.2".
-/

namespace Sjasmplus

open Program

/-! ### What closed files contain -/

namespace NexFile

/-- The last digit of the version. -/
def version (file : List Byte) : Byte := file.getD 7 0

/-- The field `hasChecksum` of a file. -/
def hasChecksum (file : List Byte) : Byte := file.getD 143 0

/-- The field `crc32c` of a file. -/
def crc32c (file : List Byte) : BitVec 32 := BitVec.ofNat 32 (Nex.leAt file 508 4)

end NexFile

namespace SNexHeader

/-- The header as `dirNexOpen` writes it. -/
def opened (pc sp : BitVec 16) (entryBank : Byte) : SNexHeader :=
  { init with pc := pc, sp := sp, entryBank := entryBank }

@[simp] theorem length_v12Bytes (h : SNexHeader) : h.v12Bytes.length = 143 := by
  simp only [v12Bytes, le16, List.length_append, List.length_ofFn, List.length_cons,
    List.length_nil]

@[simp] theorem length_v13Bytes (h : SNexHeader) : h.v13Bytes.length = 364 := by
  simp only [v13Bytes, le16, le32, List.length_append, List.length_ofFn, List.length_cons,
    List.length_nil]

@[simp] theorem length_checksummedBytes (h : SNexHeader) : h.checksummedBytes.length = 508 := by
  simp [checksummedBytes]

@[simp] theorem length_bytes (h : SNexHeader) : h.bytes.length = 512 := by
  simp [bytes, le32]

theorem version_bytes (h : SNexHeader) (rest : List Byte) :
    NexFile.version (h.bytes ++ rest) = h.magicAndVersion 7 := by
  obtain ⟨behind, hsplit⟩ : ∃ behind, h.bytes ++ rest = List.ofFn h.magicAndVersion ++ behind := by
    simp only [bytes, checksummedBytes, v12Bytes, List.append_assoc]
    exact ⟨_, rfl⟩
  rw [NexFile.version, hsplit, List.getD_append _ _ _ _ (by rw [List.length_ofFn]; omega),
    List.getD_eq_getElem _ _ (by rw [List.length_ofFn]; omega), List.getElem_ofFn]
  rfl

theorem hasChecksum_bytes (h : SNexHeader) (rest : List Byte) :
    NexFile.hasChecksum (h.bytes ++ rest) = h.hasChecksum := by
  have hlen := h.length_v12Bytes
  unfold NexFile.hasChecksum bytes checksummedBytes
  rw [List.append_assoc, List.append_assoc, List.getD_append_right _ _ _ _ (by omega), hlen]
  rfl

/-- A word is the number that its little endian form stands for. -/
theorem foldr_le32 (x : BitVec 32) :
    BitVec.ofNat 32 ((le32 x).foldr (fun byte n => byte.toNat + 256 * n) 0) = x := by
  apply BitVec.eq_of_toNat_eq
  simp [le32, Nat.shiftRight_eq_div_pow]
  omega

theorem crc32c_bytes (h : SNexHeader) (rest : List Byte) :
    NexFile.crc32c (h.bytes ++ rest) = h.crc32c := by
  have hdrop : ((h.bytes ++ rest).drop 508).take 4 = le32 h.crc32c := by
    rw [bytes, List.append_assoc, List.drop_left' h.length_checksummedBytes]
    rfl
  rw [NexFile.crc32c, Nex.leAt, hdrop, foldr_le32]

/-- The header with a checksum in it. -/
def withCrc32c (h : SNexHeader) (crc : BitVec 32) : SNexHeader := { h with crc32c := crc }

@[simp] theorem crc32c_withCrc32c (h : SNexHeader) (crc : BitVec 32) :
    (h.withCrc32c crc).crc32c = crc := rfl

/-- The checksum is not part of what it covers. -/
@[simp] theorem checksummedBytes_withCrc32c (h : SNexHeader) (crc : BitVec 32) :
    (h.withCrc32c crc).checksummedBytes = h.checksummedBytes := by
  unfold checksummedBytes v12Bytes v13Bytes
  rfl

theorem take_bytes (h : SNexHeader) (rest : List Byte) :
    (h.bytes ++ rest).take 508 = h.checksummedBytes := by
  rw [bytes, List.append_assoc, List.take_left' h.length_checksummedBytes]

end SNexHeader

/-! ### The loop over the file -/

namespace Nex

/-- The loop computes the checksum of all that is left. -/
theorem crcLoop_eq (bufferAddress fuel : Nat) (crc : BitVec 32) (rest : List Byte)
    (hfuel : rest.length < fuel * bufferSize) :
    crcLoop bufferAddress fuel crc rest = Crc32c.checksum crc rest := by
  -- by induction on the fuel, a buffer of `bufferSize` bytes at a time
  induction fuel generalizing crc rest with
  | zero => omega
  | succ fuel ih =>
    have hsize : 0 < bufferSize := by decide
    unfold crcLoop
    simp only [Crc32c.appendSw_eq, List.length_take]
    -- an empty read ends the loop, and so does one that does not fill the buffer
    by_cases hempty : rest = []
    · subst hempty
      rw [if_pos (by simp), Crc32c.checksum_nil]
    · have hpos : 0 < rest.length := List.length_pos_iff.mpr hempty
      rw [if_neg (by omega)]
      by_cases hmore : bufferSize ≤ rest.length
      · have hdrop : (rest.drop bufferSize).length < fuel * bufferSize := by
          rw [List.length_drop]
          rw [Nat.add_mul, Nat.one_mul] at hfuel
          omega
        rw [if_pos (by omega), ih _ _ hdrop, ← Crc32c.checksum_append, List.take_append_drop]
      · rw [if_neg (by omega), List.take_of_length_le (by omega)]

/-! ### Commands only append -/

/-- What every command but `OPEN` and `CLOSE` does to the state. -/
structure Grows (s s' : NexState) : Prop where
  closed : s'.closed = s.closed
  exited : s'.exited = s.exited
  canAppend : s'.nex.canAppend = s.nex.canAppend
  magic : s'.nex.h.magicAndVersion = s.nex.h.magicAndVersion
  file : ∃ data, s'.nex.f = s.nex.f.map (· ++ data)
  log : ∃ l, s'.log = s.log ++ l

instance : Std.Refl Grows where
  refl s :=
    ⟨rfl, rfl, rfl, rfl, ⟨[], by cases s.nex.f <;> simp⟩, ⟨[], (List.append_nil _).symm⟩⟩

instance : IsTrans NexState Grows where
  trans s t u h h' := by
    obtain ⟨data, hdata⟩ := h.file
    obtain ⟨data', hdata'⟩ := h'.file
    obtain ⟨l, hl⟩ := h.log
    obtain ⟨l', hl'⟩ := h'.log
    refine ⟨h'.closed.trans h.closed, h'.exited.trans h.exited, h'.canAppend.trans h.canAppend,
      h'.magic.trans h.magic, ⟨data ++ data', ?_⟩, ⟨l ++ l', ?_⟩⟩
    · rw [hdata', hdata]
      cases s.nex.f <;> simp
    · rw [hl', hl, List.append_assoc]

/-- A statement that leaves alone what `Grows` is about. -/
theorem grows_updateNex {g : SNexFile → SNexFile} (hf : ∀ n, (g n).f = n.f)
    (hcanAppend : ∀ n, (g n).canAppend = n.canAppend)
    (hmagic : ∀ n, (g n).h.magicAndVersion = n.h.magicAndVersion) : Keeps Grows (updateNex g) :=
  fun s =>
    ⟨rfl, rfl, hcanAppend _, hmagic _,
      ⟨[], (hf _).trans (by cases s.nex.f <;> simp)⟩, ⟨[], (List.append_nil _).symm⟩⟩

theorem grows_updateHeader {g : SNexHeader → SNexHeader}
    (hmagic : ∀ h, (g h).magicAndVersion = h.magicAndVersion) : Keeps Grows (updateHeader g) :=
  grows_updateNex (fun _ => rfl) (fun _ => rfl) fun n => hmagic n.h

theorem grows_append {data : List Byte} : Keeps Grows (append data) :=
  fun _ => ⟨rfl, rfl, rfl, rfl, ⟨data, rfl⟩, ⟨[], (List.append_nil _).symm⟩⟩

theorem grows_report {l : List Event} : Keeps Grows (report l) :=
  fun s => ⟨rfl, rfl, rfl, rfl, ⟨[], by cases h : s.nex.f <;> simp [report, final, h]⟩, ⟨l, rfl⟩⟩

theorem grows_error {message : String} {bad : Option Text} {type : EStatus} :
    Keeps Grows (error message bad type) :=
  Keeps.bind grows_report fun _ => Keeps.ite Keeps.exit (Keeps.pure _)

theorem grows_warning {message : String} {bad : Option Text} :
    Keeps Grows (warning message bad) := grows_report

theorem grows_updateIfAheadFirstBankSave : Keeps Grows updateIfAheadFirstBankSave := by
  unfold updateIfAheadFirstBankSave
  refine Keeps.get_bind fun s => Keeps.ite (Keeps.pure _) ?_
  refine Keeps.bind (Keeps.when grows_error) fun _ => Keeps.bind (Keeps.when grows_warning) fun _ => ?_
  refine Keeps.bind (Keeps.ite grows_append (Keeps.pure _)) fun _ => ?_
  exact Keeps.get_bind fun s => grows_updateHeader fun _ => rfl

theorem grows_writePalette : Keeps Grows writePalette := by
  unfold writePalette
  refine Keeps.get_bind fun s => Keeps.ite (Keeps.pure _) ?_
  split
  · exact grows_append
  · exact grows_updateHeader fun _ => rfl

theorem grows_checkStackPointer {env : NexEnv} : Keeps Grows (checkStackPointer env) := by
  unfold checkStackPointer
  exact Keeps.get_bind fun s =>
    Keeps.ite grows_warning (Keeps.ite (Keeps.pure _) grows_report)

theorem grows_dirNexCore {env : NexEnv} {given : ArgumentList} :
    Keeps Grows (dirNexCore env given) := by
  unfold dirNexCore
  refine Keeps.get_bind fun s => Keeps.ite grows_error ?_
  split
  · exact grows_error
  · exact Keeps.bind (Keeps.when grows_warning) fun _ => grows_updateHeader fun _ => rfl

theorem grows_dirNexCfg3 {env : NexEnv} {given : ArgumentList} :
    Keeps Grows (dirNexCfg3 env given) := by
  unfold dirNexCfg3
  refine Keeps.get_bind fun s => Keeps.ite grows_error (Keeps.ite grows_error ?_)
  refine Keeps.bind (grows_updateNex (fun _ => rfl) (fun _ => rfl) fun _ => rfl) fun _ => ?_
  split
  · exact grows_error
  · refine Keeps.bind (Keeps.when grows_warning) fun _ => ?_
    refine Keeps.bind (grows_updateHeader fun _ => rfl) fun _ => Keeps.ite ?_ (Keeps.pure _)
    exact Keeps.bind grows_error fun _ => grows_updateHeader fun _ => rfl

theorem grows_dirNexCfg {env : NexEnv} {given : ArgumentList} :
    Keeps Grows (dirNexCfg env given) := by
  unfold dirNexCfg
  refine Keeps.get_bind fun s => Keeps.ite grows_error ?_
  split
  · exact grows_error
  · exact Keeps.bind (Keeps.when grows_warning) fun _ => grows_updateHeader fun _ => rfl

theorem grows_dirNexBar {env : NexEnv} {given : ArgumentList} :
    Keeps Grows (dirNexBar env given) := by
  unfold dirNexBar
  refine Keeps.get_bind fun s => Keeps.ite grows_error ?_
  split
  · exact grows_error
  · exact Keeps.bind (Keeps.when grows_warning) fun _ => grows_updateHeader fun _ => rfl

theorem grows_openBmp {env : NexEnv} {bmpIn : InputFile} : Keeps Grows (openBmp env bmpIn) := by
  unfold openBmp
  split
  · exact Keeps.bind grows_error fun _ => Keeps.pure _
  · exact Keeps.ite (Keeps.pure _) (Keeps.bind grows_error fun _ => Keeps.pure _)

theorem grows_setPalette {palette : List Byte} : Keeps Grows (setPalette palette) :=
  grows_updateNex (fun _ => rfl) (fun _ => rfl) fun _ => rfl

theorem grows_noPalette : Keeps Grows noPalette :=
  grows_updateNex (fun _ => rfl) (fun _ => rfl) fun _ => rfl

theorem grows_dirNexPaletteMemAt {env : NexEnv} {page8kNum palOffset : Aint} :
    Keeps Grows (dirNexPaletteMemAt env page8kNum palOffset) := by
  unfold dirNexPaletteMemAt
  refine Keeps.get_bind fun s => Keeps.ite (Keeps.pure _) (Keeps.ite ?_ (Keeps.ite ?_ ?_))
  · exact Keeps.bind grows_noPalette fun _ => Keeps.pure _
  · exact Keeps.bind grows_error fun _ => Keeps.pure _
  · exact Keeps.bind grows_setPalette fun _ => Keeps.pure _

theorem grows_dirNexPaletteOfBmp {bmp : SBmpFile} : Keeps Grows (dirNexPaletteOfBmp bmp) := by
  unfold dirNexPaletteOfBmp
  exact Keeps.get_bind fun s => Keeps.ite (Keeps.pure _) grows_setPalette

theorem grows_dirNexPalette {env : NexEnv} {command : PaletteCommand} :
    Keeps Grows (dirNexPalette env command) := by
  unfold dirNexPalette
  refine Keeps.get_bind fun s => Keeps.ite grows_error (Keeps.ite grows_error
    (Keeps.ite grows_error ?_))
  -- past the guards, the forms of the command
  cases command with
  | none => exact grows_noPalette
  | default => exact grows_setPalette
  | mem given =>
    show Keeps Grows (dirNexPaletteMem env given)
    unfold dirNexPaletteMem
    dsimp only
    split
    · exact grows_error
    · exact Keeps.ite grows_error
        (Keeps.bind grows_dirNexPaletteMemAt fun _ => Keeps.pure _)
  | bmp bmpIn comma =>
    refine Keeps.ite grows_error (Keeps.bind grows_openBmp fun bmp => ?_)
    cases bmp with
    | none => exact Keeps.pure _
    | some bmp => exact grows_dirNexPaletteOfBmp
  | unknown lp => exact grows_error

theorem grows_saveBank {env : NexEnv} {bankIndex bankNum : Int} {onlyNonZero : Bool} :
    Keeps Grows (saveBank env bankIndex bankNum onlyNonZero) := by
  unfold saveBank
  refine Keeps.get_bind fun s => ?_
  split
  · refine Keeps.ite (Keeps.bind grows_report fun _ => Keeps.pure _) ?_
    unfold storeBank
    refine Keeps.bind grows_updateIfAheadFirstBankSave fun _ => ?_
    refine Keeps.bind (grows_updateNex (fun _ => rfl) (fun _ => rfl) fun _ => rfl) fun _ => ?_
    refine Keeps.ite (Keeps.pure _) (Keeps.bind (grows_updateHeader fun _ => rfl) fun _ => ?_)
    exact Keeps.bind grows_append fun _ => Keeps.pure _
  · exact Keeps.pure _

theorem magic_setScreen (type : EBmpType) (hiResColour : SNexHeader → Byte) (h : SNexHeader) :
    (setScreen type hiResColour h).magicAndVersion = h.magicAndVersion := by
  cases type <;> rfl

theorem grows_dirNexScreenLayer2andLowRes {env : NexEnv} {type : EBmpType}
    {given : ArgumentList} : Keeps Grows (dirNexScreenLayer2andLowRes env type given) := by
  unfold dirNexScreenLayer2andLowRes
  refine Keeps.get_bind fun s => Keeps.ite grows_error ?_
  refine Keeps.bind (Keeps.when (grows_updateNex (fun _ => rfl) (fun _ => rfl) fun _ => rfl)) fun _ => ?_
  split
  · exact grows_error
  · refine Keeps.ite grows_error (Keeps.ite grows_error ?_)
    refine Keeps.bind grows_dirNexPaletteMemAt fun _ => Keeps.ite ?_ (Keeps.pure _)
    refine Keeps.bind grows_writePalette fun _ => ?_
    refine Keeps.bind (grows_updateHeader (magic_setScreen _ _)) fun _ => ?_
    refine Keeps.ite (Keeps.ite ?_ grows_append) grows_append
    exact Keeps.bind grows_append fun _ => grows_append

theorem grows_storeBmp {bmp : SBmpFile} {savePalette : Bool} {paletteOffset : Aint} :
    Keeps Grows (storeBmp bmp savePalette paletteOffset) := by
  unfold storeBmp
  refine Keeps.bind (Keeps.when grows_dirNexPaletteOfBmp) fun _ => ?_
  refine Keeps.bind grows_writePalette fun _ => ?_
  refine Keeps.bind (grows_updateHeader (magic_setScreen _ _)) fun _ => ?_
  split
  · exact grows_error
  · exact grows_append

theorem grows_dirNexScreenBmp {env : NexEnv} {bmpIn : InputFile} {given : Option ArgumentList} :
    Keeps Grows (dirNexScreenBmp env bmpIn given) := by
  unfold dirNexScreenBmp
  split
  · exact grows_error
  · refine Keeps.bind (Keeps.when grows_warning) fun _ => Keeps.bind (Keeps.when grows_warning) fun _ => ?_
    refine Keeps.bind grows_openBmp fun bmp => ?_
    cases bmp with
    | none => exact Keeps.pure _
    | some bmp =>
      refine Keeps.ite grows_error (Keeps.bind (Keeps.when grows_warning) fun _ => ?_)
      refine Keeps.get_bind fun s => Keeps.ite grows_error ?_
      exact Keeps.bind (Keeps.when (grows_updateNex (fun _ => rfl) (fun _ => rfl) fun _ => rfl))
        fun _ => grows_storeBmp

theorem grows_setHiResColour {env : NexEnv} {colour : Option Aint} :
    Keeps Grows (setHiResColour env colour) := by
  cases colour with
  | none => exact Keeps.pure _
  | some colour =>
    exact Keeps.bind (Keeps.when grows_warning) fun _ => grows_updateHeader fun _ => rfl

theorem grows_dirNexScreenUlaTimex {env : NexEnv} {scrType : Byte} {hiResColor : Option Aint} :
    Keeps Grows (dirNexScreenUlaTimex env scrType hiResColor) := by
  unfold dirNexScreenUlaTimex
  refine Keeps.bind (Keeps.when grows_setHiResColour) fun _ => ?_
  refine Keeps.bind (grows_updateHeader fun _ => rfl) fun _ => Keeps.ite grows_append ?_
  exact Keeps.bind grows_append fun _ => grows_append

theorem grows_dirNexScreenTile {env : NexEnv} {given : ArgumentList} :
    Keeps Grows (dirNexScreenTile env given) := by
  unfold dirNexScreenTile
  refine Keeps.get_bind fun s => ?_
  dsimp only
  split
  · exact grows_error
  · refine Keeps.ite grows_error (Keeps.ite grows_error ?_)
    refine Keeps.bind (grows_updateNex (fun _ => rfl) (fun _ => rfl) fun _ => rfl) fun _ => ?_
    refine Keeps.bind grows_writePalette fun _ => ?_
    refine Keeps.bind (grows_updateHeader fun _ => rfl) fun _ => Keeps.ite (Keeps.pure _) ?_
    exact Keeps.bind grows_saveBank fun _ => Keeps.pure _

theorem grows_dirNexScreen {env : NexEnv} {command : ScreenCommand} :
    Keeps Grows (dirNexScreen env command) := by
  unfold dirNexScreen
  refine Keeps.get_bind fun s => Keeps.ite grows_error (Keeps.ite grows_error
    (Keeps.ite grows_error ?_))
  cases command with
  | layer2andLowRes type given => exact grows_dirNexScreenLayer2andLowRes
  | bmp bmpIn given => exact grows_dirNexScreenBmp
  | scr => exact grows_dirNexScreenUlaTimex
  | shc => exact grows_dirNexScreenUlaTimex
  | shr hiResColor => exact grows_dirNexScreenUlaTimex
  | tile given => exact grows_dirNexScreenTile
  | unknown lp => exact grows_error

theorem grows_dirNexCopper {env : NexEnv} {given : ArgumentList} :
    Keeps Grows (dirNexCopper env given) := by
  unfold dirNexCopper
  refine Keeps.get_bind fun s => Keeps.ite grows_error (Keeps.ite grows_error
    (Keeps.ite grows_error ?_))
  refine Keeps.bind (grows_updateNex (fun _ => rfl) (fun _ => rfl) fun _ => rfl) fun _ => ?_
  split
  · exact grows_error
  · exact Keeps.ite grows_error (Keeps.ite grows_error
      (grows_updateNex (fun _ => rfl) (fun _ => rfl) fun _ => rfl))

theorem grows_saveBanks {env : NexEnv} {items : List BankItem} :
    Keeps Grows (saveBanks env items) := by
  induction items with
  | nil => exact Keeps.pure _
  | cons item rest ih =>
    unfold saveBanks
    refine Keeps.ite grows_error (Keeps.bind grows_saveBank fun saved => ?_)
    exact Keeps.ite ih (Keeps.pure _)

theorem grows_dirNexBank {env : NexEnv} {items : List BankItem} :
    Keeps Grows (dirNexBank env items) :=
  Keeps.get_bind fun _ => Keeps.ite grows_error grows_saveBanks

theorem grows_saveNonZeroBanks {env : NexEnv} {fromI : Int} {count : Nat} :
    Keeps Grows (saveNonZeroBanks env fromI count) := by
  induction count generalizing fromI with
  | zero => exact Keeps.pure _
  | succ count ih =>
    unfold saveNonZeroBanks
    exact Keeps.bind grows_saveBank fun saved => Keeps.ite ih (Keeps.pure _)

theorem grows_dirNexAuto {env : NexEnv} {given : ArgumentList} :
    Keeps Grows (dirNexAuto env given) := by
  unfold dirNexAuto
  refine Keeps.get_bind fun s => Keeps.ite grows_error (Keeps.ite grows_error ?_)
  split
  · exact grows_error
  · exact Keeps.ite grows_error (Keeps.ite grows_error grows_saveNonZeroBanks)

theorem grows_appendFile {env : NexEnv} {file : InputFile} :
    Keeps Grows (appendFile env file) := by
  unfold appendFile
  split
  · exact grows_error
  · exact grows_append

theorem grows_appendFiles {env : NexEnv} {files : List InputFile} :
    Keeps Grows (appendFiles env files) := by
  induction files with
  | nil => exact Keeps.pure _
  | cons file rest ih => exact Keeps.bind (Keeps.when grows_appendFile) fun _ => ih

theorem grows_prepareClose {env : NexEnv} {files : List InputFile} :
    Keeps Grows (prepareClose env files) :=
  Keeps.bind grows_updateIfAheadFirstBankSave fun _ => grows_appendFiles

/-- What every growing command keeps, and `OPEN` and `CLOSE`, is kept by every command. -/
theorem keeps_dirSAVENEX {R : NexState → NexState → Prop} [Std.Refl R] {env : NexEnv}
    {command : NexCommand} (hgrows : ∀ s t, Grows s t → R s t)
    (hopen : ∀ fname given, command = .openFile fname given → Keeps R (dirNexOpen env fname given))
    (hclose : ∀ files, command = .close files → Keeps R (dirNexClose env files)) :
    Keeps R (dirSAVENEX env command) := by
  unfold dirSAVENEX
  -- other passes do nothing, and another device is an error
  refine Keeps.ite (Keeps.pure _) (Keeps.ite (grows_error.mono hgrows) ?_)
  -- `OPEN` and `CLOSE` alone are not among the commands that grow the file
  cases command with
  | openFile fname given => exact hopen fname given rfl
  | core given => exact grows_dirNexCore.mono hgrows
  | cfg3 given => exact grows_dirNexCfg3.mono hgrows
  | cfg given => exact grows_dirNexCfg.mono hgrows
  | bar given => exact grows_dirNexBar.mono hgrows
  | palette command => exact grows_dirNexPalette.mono hgrows
  | screen command => exact grows_dirNexScreen.mono hgrows
  | copper given => exact grows_dirNexCopper.mono hgrows
  | bank items => exact grows_dirNexBank.mono hgrows
  | auto given => exact grows_dirNexAuto.mono hgrows
  | close files => exact hclose files rfl
  | unknown lp => exact grows_error.mono hgrows

/-! ### Logs -/

/-- Messages are never taken back. -/
def LogGrows (s s' : NexState) : Prop := ∃ l, s'.log = s.log ++ l

instance : Std.Refl LogGrows where
  refl _ := ⟨[], (List.append_nil _).symm⟩

instance : IsTrans NexState LogGrows where
  trans s t u := by
    rintro ⟨l, hl⟩ ⟨l', hl'⟩
    exact ⟨l ++ l', by rw [hl', hl, List.append_assoc]⟩

theorem LogGrows.of_grows {α : Type} {p : NexProgram α} (h : Keeps Grows p) : Keeps LogGrows p :=
  fun s => (h s).log

/-- Without an error behind a program there was none before it. -/
theorem LogGrows.noError {s s' : NexState} (h : LogGrows s s')
    (hok : noError lastPass s'.log = true) : noError lastPass s.log = true := by
  obtain ⟨l, hl⟩ := h
  rw [hl, noError_append, Bool.and_eq_true] at hok
  exact hok.1

theorem logGrows_updateNex {g : SNexFile → SNexFile} : Keeps LogGrows (updateNex g) :=
  fun _ => ⟨[], (List.append_nil _).symm⟩

theorem logGrows_closeFile : Keeps LogGrows closeFile :=
  fun _ => ⟨[], (List.append_nil _).symm⟩

theorem logGrows_calculateCrc32C {env : NexEnv} : Keeps LogGrows (calculateCrc32C env) := by
  unfold calculateCrc32C
  refine Keeps.get_bind fun s => ?_
  split
  · exact Keeps.pure _
  · refine Keeps.ite (Keeps.pure _) (Keeps.bind logGrows_updateNex fun _ => Keeps.ite ?_ ?_)
    · exact logGrows_updateNex
    · exact Keeps.bind logGrows_updateNex fun _ => LogGrows.of_grows grows_error

theorem logGrows_finalizeVersion {env : NexEnv} : Keeps LogGrows (finalizeVersion env) := by
  unfold finalizeVersion
  refine Keeps.get_bind fun s => Keeps.ite logGrows_updateNex ?_
  exact Keeps.bind logGrows_updateNex fun _ => logGrows_calculateCrc32C

theorem logGrows_checkRamReq : Keeps LogGrows checkRamReq :=
  Keeps.get_bind fun _ => Keeps.when (LogGrows.of_grows grows_error)

/-! ### The end of a file -/

/-- `updateIfAheadFirstBankSave`, as a function on `nex`. -/
def atFirstBank (n : SNexFile) : SNexFile :=
  if n.h.banksOffset ≠ 0 ∨ ¬n.canAppend then n
  else
    let copper := if n.h.hasCopperCode ≠ 0 then n.copper.getD [] else []
    let f := n.f.map (· ++ copper)
    { n with f := f, h := { n.h with banksOffset := BitVec.ofNat 32 (f.getD []).length } }

/-- Behind a fatal error there is an error. -/
theorem noError_final_fatal {message : String} {bad : Option Text} {s : NexState} :
    noError lastPass ((error message bad .fatal).final s).log = false := by
  show noError lastPass (s.log ++ [_]) = false
  rw [noError_append]
  exact Bool.and_false _

/-- A fatal error that was not reported did not happen. -/
theorem exec_fatal_bind {c : Prop} [Decidable c] {α : Type} {message : String}
    {p : NexProgram α} {s : NexState}
    (hok : noError lastPass ((when c (error message none .fatal) >>= fun _ => p).final s).log
      = true) :
    (when c (error message none .fatal) >>= fun _ => p).exec s = p.exec s := by
  by_cases hc : c
  · have hexit : (error message none .fatal >>= fun _ => p).final s
        = (error message none .fatal).final s := rfl
    unfold when at hok
    rw [if_pos hc, hexit, noError_final_fatal] at hok
    cases hok
  · unfold when
    rw [if_neg hc]
    rfl

theorem exec_report {l : List Event} {s : NexState} :
    (report l).exec s = (some (), { s with log := s.log ++ l }) := rfl

theorem exec_when_report {c : Prop} [Decidable c] {l : List Event} {s : NexState} :
    (when c (report l)).exec s
      = (some (), { s with log := s.log ++ if c then l else [] }) := by
  unfold when
  by_cases hc : c
  · rw [if_pos hc, if_pos hc]
    rfl
  · rw [if_neg hc, if_neg hc, List.append_nil]
    rfl

theorem exec_when_updateNex {c : Prop} [Decidable c] {g : SNexFile → SNexFile} {s : NexState} :
    (when c (updateNex g)).exec s
      = (some (), { s with nex := if c then g s.nex else s.nex }) := by
  unfold when
  by_cases hc : c
  · rw [if_pos hc, if_pos hc]
    rfl
  · rw [if_neg hc, if_neg hc]
    rfl

/-- The first bank is not stored yet, or its offset is known. -/
def OffsetAhead (n : SNexFile) : Prop := n.h.banksOffset ≠ 0 ∨ n.lastBankIndex = -1

/-- Ahead of the first bank, or once its offset is known, the fatal error is unreachable. -/
theorem exec_updateIfAheadFirstBankSave_of_ahead {s : NexState} (hahead : OffsetAhead s.nex) :
    ∃ l, updateIfAheadFirstBankSave.exec s
      = (some (), { s with nex := atFirstBank s.nex, log := s.log ++ l }) := by
  unfold updateIfAheadFirstBankSave atFirstBank
  rw [exec_bind_of_some (exec_get s)]
  -- nothing is done behind the first bank, or without an open file
  by_cases h : s.nex.h.banksOffset ≠ 0 ∨ ¬s.nex.canAppend
  · rw [if_pos h, if_pos h]
    exact ⟨[], by rw [List.append_nil]; rfl⟩
  · have hlast : s.nex.lastBankIndex = -1 := hahead.resolve_left fun hoffset => h (.inl hoffset)
    -- the fatal check is on the index of the last bank, which is still -1
    have hskip : (when (s.nex.lastBankIndex ≠ -1) (error "[SAVENEX] V1.3?!" none .fatal)).exec s
        = (some (), s) := by
      unfold when
      rw [if_neg (not_not_intro hlast)]
      rfl
    rw [if_neg h, if_neg h, exec_bind_of_some hskip]
    unfold warning append
    rw [exec_bind_of_some exec_when_report, exec_bind_of_some exec_when_updateNex]
    refine ⟨if s.nex.palDefined ∧ s.nex.h.screen = 0 then
      [.warning "[SAVENEX] some palette was defined, but without screen it is ignored." none .pass3]
      else [], ?_⟩
    -- the copper goes to the file where there is one
    by_cases hcopper : s.nex.h.hasCopperCode ≠ 0
    · simp only [if_pos hcopper]
      rfl
    · simp only [if_neg hcopper]
      cases hf : s.nex.f <;> simp [exec_bind, updateHeader, updateNex, hf]

theorem exec_updateIfAheadFirstBankSave {s : NexState}
    (hok : noError lastPass (updateIfAheadFirstBankSave.final s).log = true) :
    ∃ l, updateIfAheadFirstBankSave.exec s
      = (some (), { s with nex := atFirstBank s.nex, log := s.log ++ l }) := by
  by_cases h : s.nex.h.banksOffset ≠ 0 ∨ ¬s.nex.canAppend
  · unfold updateIfAheadFirstBankSave atFirstBank
    rw [exec_bind_of_some (exec_get s), if_pos h, if_pos h]
    exact ⟨[], by rw [List.append_nil]; rfl⟩
  -- a run without errors has not met the fatal check
  · refine exec_updateIfAheadFirstBankSave_of_ahead (.inr (by_contra fun hlast => ?_))
    have hexit : updateIfAheadFirstBankSave.final s
        = (error "[SAVENEX] V1.3?!" none .fatal).final s := by
      unfold updateIfAheadFirstBankSave
      rw [final_bind_of_some (exec_get s), if_neg h]
      unfold when
      rw [if_pos hlast]
      rfl
    rw [hexit, noError_final_fatal] at hok
    exact Bool.noConfusion hok

/-- The header that `finalizeFile` writes, from `nex` and the content of the file. -/
def finalHeader (n : SNexFile) (file : List Byte) : SNexHeader :=
  if n.minFileVersion = 2 then { n.h with banksOffset := 0, bigL2barPosY := 0 }
  else
    let h :=
      { n.h with magicAndVersion := Function.update n.h.magicAndVersion 7 SNexHeader.digit3 }
    if h.hasChecksum = 0 then h
    else
      { h with
        hasChecksum := 1
        crc32c := Crc32c.checksum 0 (file.drop 512 ++ file.take 508) }

/-- The file that `finalizeFile` leaves. -/
def finalFile (n : SNexFile) : List Byte :=
  let file := (atFirstBank n).f.getD []
  (finalHeader (atFirstBank n) file).bytes ++ file.drop 512

@[simp] theorem atFirstBank_magicAndVersion (n : SNexFile) :
    (atFirstBank n).h.magicAndVersion = n.h.magicAndVersion := by
  unfold atFirstBank
  split <;> rfl

/-- `updateIfAheadFirstBankSave` only appends to the file. -/
theorem atFirstBank_f {n : SNexFile} {file : List Byte} (hf : n.f = some file) :
    ∃ copper, (atFirstBank n).f = some (file ++ copper) := by
  unfold atFirstBank
  split
  · exact ⟨[], by rw [hf, List.append_nil]⟩
  · exact ⟨_, by simp only [hf]; rfl⟩

/-- The version dependent part leaves the final header in memory. -/
theorem exec_finalizeVersion {env : NexEnv} {s : NexState} {file : List Byte}
    (hf : s.nex.f = some file) (hlen : 512 ≤ file.length) :
    ∃ n, (finalizeVersion env).exec s = (some (), { s with nex := n }) ∧ n.f = some file ∧
      n.h = finalHeader s.nex file := by
  -- one turn more than there are whole buffers is enough for the loop
  have hfuel : (file.drop 512).length
      < ((file.drop 512).length / bufferSize + 1) * bufferSize := by
    have := Nat.div_add_mod (file.drop 512).length bufferSize
    have := Nat.mod_lt (file.drop 512).length (show 0 < bufferSize by decide)
    rw [Nat.add_mul, Nat.one_mul, Nat.mul_comm]
    omega
  unfold finalizeVersion finalHeader
  rw [exec_bind_of_some (exec_get s)]
  -- V1.2 keeps the header of `OPEN`; V1.3 stores the offset and the checksum
  by_cases hversion : s.nex.minFileVersion = 2
  · simp only [if_pos hversion]
    exact ⟨_, rfl, hf, rfl⟩
  · simp only [if_neg hversion]
    unfold updateHeader updateNex calculateCrc32C
    rw [exec_bind_of_some (exec_modify _ s), exec_bind_of_some (exec_get _)]
    simp only [hf]
    by_cases hcrc : s.nex.h.hasChecksum = 0
    · simp only [if_pos hcrc]
      exact ⟨_, rfl, rfl, rfl⟩
    · simp only [if_neg hcrc]
      -- the header part of the checksum is read back from the file, as it stands there
      have hread : (file.take 508).length = 508 := by rw [List.length_take]; omega
      unfold updateNex updateHeader
      rw [exec_bind_of_some (exec_modify _ _), if_pos hread, crcLoop_eq _ _ _ _ hfuel,
        Crc32c.appendSw_eq, ← Crc32c.checksum_append]
      exact ⟨_, rfl, rfl, rfl⟩

/-- Without an error behind a sequence there was none behind its first part. -/
theorem noError_of_bind {α β : Type} {p : NexProgram α} {f : α → NexProgram β} {s : NexState}
    (hf : ∀ a, Keeps LogGrows (f a)) (hok : noError lastPass ((p >>= f).final s).log = true) :
    noError lastPass (p.final s).log = true := by
  unfold final at hok ⊢
  rw [exec_bind] at hok
  rcases h : p.exec s with ⟨_ | a, s'⟩ <;> rw [h] at hok
  · exact hok
  · exact (hf a s').noError hok

theorem grows_checkRamReq : Keeps Grows checkRamReq :=
  Keeps.get_bind fun _ => Keeps.when grows_error

theorem logGrows_writeHeader : Keeps LogGrows writeHeader := logGrows_updateNex

/-- The last statements of `finalizeFile`. -/
def writeAndClose : NexProgram Unit := do
  writeHeader
  closeFile
  checkRamReq

theorem logGrows_writeAndClose : Keeps LogGrows writeAndClose :=
  Keeps.bind logGrows_writeHeader fun _ => Keeps.bind logGrows_closeFile fun _ =>
    logGrows_checkRamReq

/-- `checkRamReq` only reports. -/
theorem nex_checkRamReq (s : NexState) : (checkRamReq.final s).nex = s.nex := by
  rw [checkRamReq, final_bind_of_some (exec_get s)]
  unfold when
  split_ifs
  · rfl
  · rfl

theorem final_writeAndClose {s : NexState} {file : List Byte} (hf : s.nex.f = some file) :
    (writeAndClose.final s).closed = s.closed ++ [s.nex.h.bytes ++ file.drop 512] ∧
      (writeAndClose.final s).nex.f = none ∧ (writeAndClose.final s).nex.canAppend = false ∧
      (writeAndClose.final s).nex.palette = none ∧ (writeAndClose.final s).nex.copper = none := by
  obtain ⟨t, ht, hclosed, hnex⟩ : ∃ t, writeAndClose.final s = checkRamReq.final t ∧
      t.closed = s.closed ++ [s.nex.h.bytes ++ file.drop 512] ∧ t.nex.f = none ∧
      t.nex.canAppend = false ∧ t.nex.palette = none ∧ t.nex.copper = none := by
    refine ⟨_, rfl, ?_, rfl, rfl, rfl, rfl⟩
    show s.closed ++ Option.toList _ = _
    simp only [hf, Option.toList]
  rw [ht, nex_checkRamReq]
  exact ⟨(grows_checkRamReq t).closed.trans hclosed, hnex⟩

theorem logGrows_finalizeFile {env : NexEnv} : Keeps LogGrows (finalizeFile env) := by
  unfold finalizeFile
  refine Keeps.get_bind fun s => Keeps.ite (Keeps.pure _) ?_
  refine Keeps.bind (Keeps.when (LogGrows.of_grows grows_error)) fun _ => ?_
  refine Keeps.bind (LogGrows.of_grows grows_updateIfAheadFirstBankSave) fun _ => ?_
  exact Keeps.bind logGrows_finalizeVersion fun _ => logGrows_writeAndClose

/-- What `updateIfAheadFirstBankSave` and the parts behind it do to an open file. -/
theorem final_finalizeFile_of_exec {env : NexEnv} {s : NexState} {file : List Byte} {l : List Event}
    (hf : s.nex.f = some file) (hlen : 512 ≤ file.length)
    (hfirst : updateIfAheadFirstBankSave.exec s
      = (some (), { s with nex := atFirstBank s.nex, log := s.log ++ l })) :
    let t := (updateIfAheadFirstBankSave >>= fun _ => finalizeVersion env >>= fun _ =>
      writeAndClose).final s
    t.closed = s.closed ++ [finalFile s.nex] ∧ t.nex.f = none ∧ t.nex.canAppend = false ∧
      t.nex.palette = none ∧ t.nex.copper = none := by
  -- the file is still at least a header long behind the copper
  obtain ⟨copper, hcopper⟩ := atFirstBank_f hf
  have hlen' : 512 ≤ (file ++ copper).length := by
    rw [List.length_append]
    omega
  obtain ⟨n, hn, hnf, hnh⟩ := @exec_finalizeVersion env
    { s with nex := atFirstBank s.nex, log := s.log ++ l } _ hcopper hlen'
  have hclose := @final_writeAndClose { s with nex := n, log := s.log ++ l } _ hnf
  intro t
  have ht : t = writeAndClose.final { s with nex := n, log := s.log ++ l } := by
    show Program.final _ s = _
    rw [final_bind_of_some hfirst, final_bind_of_some hn]
  rw [ht]
  refine ⟨hclose.1.trans ?_, hclose.2⟩
  show s.closed ++ [n.h.bytes ++ (file ++ copper).drop 512] = _
  rw [hnh, finalFile, hcopper]
  rfl

/-- An open file is closed. -/
theorem final_finalizeFile {env : NexEnv} {s : NexState} {file : List Byte}
    (hf : s.nex.f = some file) (hlen : 512 ≤ file.length)
    (hok : noError lastPass ((finalizeFile env).final s).log = true) :
    ((finalizeFile env).final s).closed = s.closed ++ [finalFile s.nex] ∧
      ((finalizeFile env).final s).nex.f = none ∧
      ((finalizeFile env).final s).nex.canAppend = false := by
  unfold finalizeFile at hok ⊢
  unfold final at hok ⊢
  rw [exec_bind_of_some (exec_get s), if_neg (by simp [hf])] at hok ⊢
  have hskip := exec_fatal_bind hok
  rw [hskip] at hok ⊢
  have hfirst := noError_of_bind
    (fun _ => Keeps.bind logGrows_finalizeVersion fun _ => logGrows_writeAndClose) hok
  obtain ⟨l, hl⟩ := exec_updateIfAheadFirstBankSave hfirst
  obtain ⟨hclosed, hnone, hcan, -⟩ := @final_finalizeFile_of_exec env _ _ _ hf hlen hl
  exact ⟨hclosed, hnone, hcan⟩

/-- An open file is closed, whatever was reported before. -/
theorem final_finalizeFile_of_ahead {env : NexEnv} {s : NexState} {file : List Byte}
    (hf : s.nex.f = some file) (hlen : 512 ≤ file.length) (hahead : OffsetAhead s.nex)
    (hversion : s.nex.minFileVersion = 3 → s.nex.reqFileVersion ≠ 2) :
    ((finalizeFile env).final s).closed = s.closed ++ [finalFile s.nex] ∧
      ((finalizeFile env).final s).nex.f = none ∧
      ((finalizeFile env).final s).nex.canAppend = false ∧
      ((finalizeFile env).final s).nex.palette = none ∧
      ((finalizeFile env).final s).nex.copper = none := by
  obtain ⟨l, hl⟩ := exec_updateIfAheadFirstBankSave_of_ahead hahead
  have hskip : (when (s.nex.minFileVersion = 3 ∧ s.nex.reqFileVersion = 2)
      (error "[SAVENEX] V1.3?!" none .fatal)).exec s = (some (), s) := by
    unfold when
    rw [if_neg fun h => hversion h.1 h.2]
    rfl
  unfold finalizeFile
  rw [final_bind_of_some (exec_get s), if_neg (by simp [hf]), final_bind_of_some hskip]
  exact final_finalizeFile_of_exec hf hlen hl

end Nex

namespace Nex

/-- No file is closed, the assembler goes on, and messages are never taken back. -/
structure KeepsClosed (s s' : NexState) : Prop where
  closed : s'.closed = s.closed
  exited : s'.exited = s.exited
  log : LogGrows s s'

instance : Std.Refl KeepsClosed where
  refl s := ⟨rfl, rfl, refl s⟩

instance : IsTrans NexState KeepsClosed where
  trans _ _ _ h h' := ⟨h'.closed.trans h.closed, h'.exited.trans h.exited,
    IsTrans.trans _ _ _ h.log h'.log⟩

theorem KeepsClosed.of_grows {α : Type} {p : NexProgram α} (h : Keeps Grows p) :
    Keeps KeepsClosed p :=
  fun s => ⟨(h s).closed, (h s).exited, (h s).log⟩

theorem keepsClosed_updateNex {g : SNexFile → SNexFile} : Keeps KeepsClosed (updateNex g) :=
  fun s => ⟨rfl, rfl, logGrows_updateNex s⟩

theorem keepsClosed_createFile {env : NexEnv} {openArgs : Nat → Aint} :
    Keeps KeepsClosed (createFile env openArgs) :=
  Keeps.bind keepsClosed_updateNex fun _ => Keeps.bind keepsClosed_updateNex fun _ =>
    Keeps.bind keepsClosed_updateNex fun _ => KeepsClosed.of_grows grows_checkStackPointer

theorem keepsClosed_dirNexOpen {env : NexEnv} {fname : Text} {given : Option ArgumentList} :
    Keeps KeepsClosed (dirNexOpen env fname given) := by
  have herror : ∀ {message bad type}, Keeps KeepsClosed (error message bad type) :=
    KeepsClosed.of_grows grows_error
  have hreport : ∀ {l}, Keeps KeepsClosed (report l) := KeepsClosed.of_grows grows_report
  unfold dirNexOpen
  refine Keeps.get_bind fun s => Keeps.ite herror ?_
  refine Keeps.bind keepsClosed_updateNex fun _ => ?_
  dsimp only
  split
  · exact herror
  · refine Keeps.bind (Keeps.when hreport) fun _ => ?_
    refine Keeps.bind hreport fun _ => Keeps.bind hreport fun _ => ?_
    exact Keeps.ite hreport (Keeps.ite hreport (Keeps.ite herror keepsClosed_createFile))

/-- `CLOSE` of an open file: unless a fatal error comes first, it is `finalizeFile` behind the
appended files. -/
theorem exec_dirNexClose (env : NexEnv) (files : List InputFile) {s : NexState}
    (hcan : s.nex.canAppend = true) :
    (dirNexClose env files).exec s = (none, (prepareClose env files).final s) ∨
      (dirNexClose env files).exec s
        = (finalizeFile env).exec ((prepareClose env files).final s) := by
  unfold dirNexClose final
  rw [exec_bind_of_some (exec_get s), if_neg (not_not.mpr hcan), exec_bind]
  rcases (prepareClose env files).exec s with ⟨_ | _, t⟩
  · exact Or.inl rfl
  · exact Or.inr rfl

theorem logGrows_dirNexClose {env : NexEnv} {files : List InputFile} :
    Keeps LogGrows (dirNexClose env files) := by
  unfold dirNexClose
  refine Keeps.get_bind fun s => Keeps.ite (LogGrows.of_grows grows_error) ?_
  exact Keeps.bind (LogGrows.of_grows grows_prepareClose) fun _ => logGrows_finalizeFile

theorem logGrows_dirSAVENEX (env : NexEnv) (command : NexCommand) :
    Keeps LogGrows (dirSAVENEX env command) :=
  keeps_dirSAVENEX (fun _ _ h => h.log) (fun _ _ _ s => (keepsClosed_dirNexOpen s).log)
    fun _ _ => logGrows_dirNexClose

end Nex

/-! ### Runs -/

/-- The states of a run: the file is ready for appending as long as it is open, it starts with the
header that `OPEN` wrote, and the version in memory is that of `OPEN`. -/
structure NexState.WellFormed (s : NexState) : Prop where
  canAppend : s.nex.canAppend = s.nex.f.isSome
  magic : s.nex.f.isSome → s.nex.h.magicAndVersion = SNexHeader.magicV12
  opened : ∀ file, s.nex.f = some file →
    ∃ pc sp entryBank, file.take 512 = (SNexHeader.opened pc sp entryBank).bytes

namespace NexState

theorem wellFormed_initial : initial.WellFormed where
  canAppend := rfl
  magic h := by cases h
  opened file h := by cases h

/-- Without an open file nothing has to be known. -/
theorem wellFormed_of_closed {s : NexState} (hf : s.nex.f = none)
    (hcan : s.nex.canAppend = false) : s.WellFormed where
  canAppend := by rw [hf, hcan]; rfl
  magic h := by rw [hf] at h; cases h
  opened file h := by rw [hf] at h; cases h

theorem WellFormed.length_le {s : NexState} (hs : s.WellFormed) {file : List Byte}
    (hf : s.nex.f = some file) : 512 ≤ file.length := by
  obtain ⟨pc, sp, entryBank, htake⟩ := hs.opened file hf
  have hlen := congrArg List.length htake
  rw [SNexHeader.length_bytes, List.length_take] at hlen
  omega

theorem WellFormed.grows {s s' : NexState} (hs : s.WellFormed) (h : Nex.Grows s s') :
    s'.WellFormed := by
  obtain ⟨data, hdata⟩ := h.file
  -- data is only ever appended: the first 512 bytes are those of `OPEN`
  cases hf : s.nex.f with
  | none =>
    rw [hf] at hdata
    refine wellFormed_of_closed hdata ?_
    rw [h.canAppend, hs.canAppend, hf]
    rfl
  | some file =>
    rw [hf] at hdata
    refine ⟨?_, fun _ => ?_, fun file' hfile' => ?_⟩
    · rw [h.canAppend, hs.canAppend, hf, hdata]
      rfl
    · rw [h.magic, hs.magic (by rw [hf]; rfl)]
    · obtain rfl : file ++ data = file' := Option.some.inj (hdata.symm.trans hfile')
      rw [List.take_append_of_le_length (hs.length_le hf)]
      exact hs.opened file hf

theorem finalizeFile_of_closed {env : NexEnv} {s : NexState} (hf : s.nex.f = none) :
    (Nex.finalizeFile env).final s = s := by
  unfold Nex.finalizeFile final
  rw [exec_bind_of_some (exec_get s), if_pos (by simp [hf])]
  rfl

theorem WellFormed.finalizeFile {s : NexState} {env : NexEnv} (hs : s.WellFormed)
    (hok : noError lastPass ((Nex.finalizeFile env).final s).log = true) :
    ((Nex.finalizeFile env).final s).WellFormed := by
  cases hf : s.nex.f with
  | none =>
    rw [finalizeFile_of_closed hf]
    exact hs
  | some file =>
    obtain ⟨-, hnone, hcan⟩ := Nex.final_finalizeFile hf (hs.length_le hf) hok
    exact wellFormed_of_closed hnone hcan

/-- `OPEN` writes the header that the file keeps until it is closed. -/
theorem WellFormed.createFile {s : NexState} {env : NexEnv} {openArgs : Nat → Aint}
    (hinit : s.nex.h = .init) : ((Nex.createFile env openArgs).final s).WellFormed := by
  -- the state behind `fopen` and the header, ahead of the warning about the stack
  obtain ⟨t, ht, hcan, hmagic, hfile⟩ : ∃ t, (Nex.createFile env openArgs).final s
      = (Nex.checkStackPointer env).final t ∧ t.nex.canAppend = true ∧
      t.nex.h.magicAndVersion = SNexHeader.magicV12 ∧
      t.nex.f = some ((SNexHeader.opened ((openArgs 0).setWidth 16) ((openArgs 1).setWidth 16)
        ((openArgs 2).setWidth 8)).bytes) := by
    refine ⟨_, rfl, rfl, ?_, ?_⟩
    · show s.nex.h.magicAndVersion = _
      rw [hinit]
      rfl
    · show some (SNexHeader.bytes
        { s.nex.h with
          pc := (openArgs 0).setWidth 16
          sp := (openArgs 1).setWidth 16
          entryBank := (openArgs 2).setWidth 8 } ++ []) = _
      rw [hinit, List.append_nil]
      rfl
  rw [ht]
  refine WellFormed.grows ⟨?_, fun _ => hmagic, fun file hf => ?_⟩ (Nex.grows_checkStackPointer t)
  · rw [hcan, hfile]
    rfl
  · obtain rfl := Option.some.inj (hfile.symm.trans hf)
    exact ⟨_, _, _, List.take_of_length_le (by rw [SNexHeader.length_bytes])⟩

theorem WellFormed.dirNexOpen {s : NexState} {env : NexEnv} {fname : Text}
    {given : Option ArgumentList} (hs : s.WellFormed) :
    ((Nex.dirNexOpen env fname given).final s).WellFormed := by
  unfold Nex.dirNexOpen final
  rw [exec_bind_of_some (exec_get s)]
  by_cases hopen : s.nex.f.isSome
  · rw [if_pos hopen]
    exact hs.grows (Nex.grows_error s)
  · have hf : s.nex.f = none := by simpa using hopen
    have hcan : s.nex.canAppend = false := by rw [hs.canAppend, hf]; rfl
    -- up to the last branch the file is closed and the header is new
    have hstart : ∀ l, ({ s with nex := s.nex.init, log := l } : NexState).WellFormed :=
      fun l => wellFormed_of_closed hf hcan
    rw [if_neg hopen]
    unfold Nex.updateNex
    rw [exec_bind_of_some (exec_modify _ s)]
    dsimp only
    split
    · exact (hstart _).grows (Nex.grows_error _)
    · unfold Nex.warning
      rw [exec_bind_of_some Nex.exec_when_report, exec_bind_of_some Nex.exec_report,
        exec_bind_of_some Nex.exec_report]
      split
      · exact (hstart _).grows (Nex.grows_report _)
      · split
        · exact (hstart _).grows (Nex.grows_report _)
        · split
          · exact (hstart _).grows (Nex.grows_error _)
          · exact WellFormed.createFile rfl

theorem WellFormed.dirNexClose {s : NexState} {env : NexEnv} {files : List InputFile}
    (hs : s.WellFormed)
    (hok : noError lastPass ((Nex.dirNexClose env files).final s).log = true) :
    ((Nex.dirNexClose env files).final s).WellFormed := by
  have hprepared := hs.grows (@Nex.grows_prepareClose env files s)
  by_cases hcan : s.nex.canAppend = true
  · unfold final at hok ⊢
    rcases Nex.exec_dirNexClose env files hcan with h | h <;> rw [h] at hok ⊢
    · exact hprepared
    · exact hprepared.finalizeFile hok
  · have hnotOpen : (Nex.dirNexClose env files).final s = Nex.notOpen.final s := by
      unfold Nex.dirNexClose final
      rw [exec_bind_of_some (exec_get s), if_pos hcan]
    rw [hnotOpen]
    exact hs.grows (Nex.grows_error s)

/-- Without an error a command keeps the state well formed. -/
theorem WellFormed.dirSAVENEX {s : NexState} {env : NexEnv} {command : Nex.NexCommand}
    (hs : s.WellFormed)
    (hok : noError lastPass ((Nex.dirSAVENEX env command).final s).log = true) :
    ((Nex.dirSAVENEX env command).final s).WellFormed := by
  have : Std.Refl fun s t : NexState =>
    s.WellFormed → noError lastPass t.log = true → t.WellFormed := ⟨fun _ h _ => h⟩
  exact Nex.keeps_dirSAVENEX
    (R := fun s t => s.WellFormed → noError lastPass t.log = true → t.WellFormed)
    (fun _ _ h hs _ => hs.grows h) (fun _ _ _ _ hs _ => hs.dirNexOpen)
    (fun _ _ _ hs hok => hs.dirNexClose hok) s hs hok

theorem WellFormed.exit {s : NexState} {env : NexEnv} (hs : s.WellFormed)
    (hok : noError lastPass (s.exit env).log = true) : (s.exit env).WellFormed :=
  let h := hs.finalizeFile hok
  ⟨h.canAppend, h.magic, h.opened⟩

theorem logGrows_exit (env : NexEnv) (s : NexState) : Nex.LogGrows s (s.exit env) :=
  Nex.logGrows_finalizeFile s

/-- A step keeps what every command and the end of a file keep. -/
theorem keeps_step {R : NexState → NexState → Prop} [Std.Refl R] [IsTrans NexState R]
    (hcommand : ∀ env command, Keeps R (Nex.dirSAVENEX env command))
    (hexit : ∀ env s, R s (s.exit env)) (s : NexState) (step : Nex.NexStep) : R s (s.step step) := by
  unfold NexState.step
  by_cases hexited : s.exited = true
  · rw [if_pos hexited]
    exact refl s
  rw [if_neg hexited]
  cases step with
  | exit env => exact hexit env s
  | command env command =>
    have hkeeps := hcommand env command s
    unfold final at hkeeps
    dsimp only
    rcases h : (Nex.dirSAVENEX env command).exec s with ⟨_ | _, t⟩ <;> rw [h] at hkeeps
    · exact IsTrans.trans _ _ _ hkeeps (hexit env t)
    · exact hkeeps

theorem logGrows_step (s : NexState) (step : Nex.NexStep) : Nex.LogGrows s (s.step step) :=
  keeps_step Nex.logGrows_dirSAVENEX logGrows_exit s step

/-- One step of a run without errors. -/
theorem WellFormed.step {s : NexState} {step : Nex.NexStep} (hs : s.WellFormed)
    (hok : noError lastPass (s.step step).log = true) : (s.step step).WellFormed := by
  unfold NexState.step at hok ⊢
  by_cases hexited : s.exited = true
  · rw [if_pos hexited]
    exact hs
  · rw [if_neg hexited] at hok ⊢
    cases step with
    | exit env => exact hs.exit hok
    | command env command =>
      have hcommand := @WellFormed.dirSAVENEX s env command hs
      unfold final at hcommand
      dsimp only at hok ⊢
      rcases h : (Nex.dirSAVENEX env command).exec s with ⟨_ | _, s'⟩ <;> rw [h] at hok hcommand
      · exact (hcommand ((logGrows_exit env s').noError hok)).exit hok
      · exact hcommand hok

theorem run_append (steps : List Nex.NexStep) (step : Nex.NexStep) :
    run (steps ++ [step]) = (run steps).step step := by
  unfold run
  rw [List.foldl_append]
  rfl

/-- The states of a run without errors are well formed. -/
theorem wellFormed_run {steps : List Nex.NexStep}
    (hok : noError lastPass (run steps).log = true) : (run steps).WellFormed := by
  induction steps using List.reverseRecOn with
  | nil => exact wellFormed_initial
  | append_singleton steps step ih =>
    rw [run_append] at hok ⊢
    exact (ih ((logGrows_step _ _).noError hok)).step hok

/-! ### Which file a step closes -/

theorem not_closes {s : NexState} {file : List Byte} (h : s.closed = s.closed ++ [file]) :
    False := by
  have hlen := congrArg List.length h
  rw [List.length_append, List.length_singleton] at hlen
  omega

/-- `t` is the state in which `finalizeFile` closed the file. -/
structure Closes (t : NexState) (file : List Byte) : Prop where
  wellFormed : t.WellFormed
  isOpen : ∃ disk, t.nex.f = some disk
  file_eq : file = Nex.finalFile t.nex

theorem closes_of_finalizeFile {env : NexEnv} {t : NexState} {file : List Byte}
    (ht : t.WellFormed) (hok : noError lastPass ((Nex.finalizeFile env).final t).log = true)
    (hclosed : ((Nex.finalizeFile env).final t).closed = t.closed ++ [file]) : t.Closes file := by
  cases hf : t.nex.f with
  | none =>
    rw [finalizeFile_of_closed hf] at hclosed
    exact (not_closes hclosed).elim
  | some disk =>
    obtain ⟨hfile, -, -⟩ := Nex.final_finalizeFile hf (ht.length_le hf) hok
    rw [hfile] at hclosed
    exact ⟨ht, ⟨disk, hf⟩, (List.singleton_inj.mp (List.append_cancel_left hclosed)).symm⟩

/-- Commands other than `CLOSE` do not close a file themselves. -/
theorem closed_dirSAVENEX {env : NexEnv} {command : Nex.NexCommand} {s : NexState}
    (hcommand : ∀ files, command ≠ .close files) :
    ((Nex.dirSAVENEX env command).final s).closed = s.closed := by
  have : Std.Refl fun s t : NexState => t.closed = s.closed := ⟨fun _ => rfl⟩
  exact Nex.keeps_dirSAVENEX (R := fun s t => t.closed = s.closed) (fun _ _ h => h.closed)
    (fun _ _ _ s => (Nex.keepsClosed_dirNexOpen s).closed)
    (fun files h => absurd h (hcommand files)) s

/-- A step that is no `CLOSE` closes a file when the assembler ends. -/
theorem closes_command {s : NexState} {env : NexEnv} {command : Nex.NexCommand} {file : List Byte}
    (hs : s.WellFormed) (hcommand : ∀ files, command ≠ .close files)
    (hexited : ¬s.exited = true) (hok : noError lastPass (s.step (.command env command)).log = true)
    (hclosed : (s.step (.command env command)).closed = s.closed ++ [file]) :
    ((Nex.dirSAVENEX env command).final s).Closes file := by
  have hsame := @closed_dirSAVENEX env command s hcommand
  have hwell := @WellFormed.dirSAVENEX s env command hs
  unfold NexState.step at hok hclosed
  rw [if_neg hexited] at hok hclosed
  unfold final at hsame hwell ⊢
  dsimp only at hok hclosed
  rcases h : (Nex.dirSAVENEX env command).exec s with ⟨_ | _, s'⟩ <;>
    rw [h] at hok hclosed hsame hwell
  · rw [← hsame] at hclosed
    exact closes_of_finalizeFile (hwell ((logGrows_exit env s').noError hok)) hok hclosed
  · rw [hsame] at hclosed
    exact (not_closes hclosed).elim

/-- Behind `finalizeFile` no file is open. -/
theorem finalizeFile_closes {env : NexEnv} {t : NexState} (ht : t.WellFormed)
    (hok : noError lastPass ((Nex.finalizeFile env).final t).log = true) :
    ((Nex.finalizeFile env).final t).nex.f = none := by
  cases hf : t.nex.f with
  | none =>
    rw [finalizeFile_of_closed hf]
    exact hf
  | some disk => exact (Nex.final_finalizeFile hf (ht.length_le hf) hok).2.1

/-- A `CLOSE` that does nothing. -/
theorem closed_close_refused {s : NexState} {env : NexEnv} {files : List InputFile}
    (h : ¬(env.pass = lastPass ∧ env.deviceID = some "ZXSPECTRUMNEXT" ∧ s.nex.canAppend = true)) :
    (match (Nex.dirSAVENEX env (.close files)).exec s with
      | (some _, s') => s'
      | (none, s') => s'.exit env).closed = s.closed := by
  unfold Nex.dirSAVENEX
  -- the three guards in the order of the source
  by_cases hpass : env.pass ≠ lastPass
  · rw [if_pos hpass]
    rfl
  · rw [if_neg hpass]
    by_cases hdevice : env.deviceID ≠ some "ZXSPECTRUMNEXT"
    · rw [if_pos hdevice]
      rfl
    · have hcan : ¬s.nex.canAppend = true := fun hcan =>
        h ⟨not_not.mp hpass, not_not.mp hdevice, hcan⟩
      rw [if_neg hdevice]
      dsimp only
      unfold Nex.dirNexClose
      rw [exec_bind_of_some (exec_get s), if_pos hcan]
      rfl

/-- `CLOSE` closes the file that `finalizeFile` finds behind the appended files. -/
theorem closes_close {s : NexState} {env : NexEnv} {files : List InputFile} {file : List Byte}
    (hs : s.WellFormed) (hexited : ¬s.exited = true)
    (hok : noError lastPass (s.step (.command env (.close files))).log = true)
    (hclosed : (s.step (.command env (.close files))).closed = s.closed ++ [file]) :
    ((Nex.prepareClose env files).final s).Closes file := by
  have hgrows := @Nex.grows_prepareClose env files s
  have hprepared := hs.grows hgrows
  unfold NexState.step at hok hclosed
  rw [if_neg hexited] at hok hclosed
  dsimp only at hok hclosed
  -- a refused `CLOSE` closes nothing, so that this one went through its guards
  by_cases hruns : env.pass = lastPass ∧ env.deviceID = some "ZXSPECTRUMNEXT" ∧
      s.nex.canAppend = true
  · obtain ⟨hpass, hdevice, hcan⟩ := hruns
    have hdir : Nex.dirSAVENEX env (.close files) = Nex.dirNexClose env files := by
      unfold Nex.dirSAVENEX
      rw [if_neg (not_not.mpr hpass), if_neg (not_not.mpr hdevice)]
    rw [hdir] at hok hclosed
    rw [← hgrows.closed] at hclosed
    generalize hprepare : (Nex.prepareClose env files).final s = t at hprepared hclosed ⊢
    -- an error on the way makes the assembler close the file on its exit
    rcases Nex.exec_dirNexClose env files hcan with h | h <;> rw [h, hprepare] at hok hclosed
    · exact closes_of_finalizeFile hprepared hok hclosed
    · rcases hfinal : (Nex.finalizeFile env).exec t with ⟨_ | _, u⟩ <;>
        rw [hfinal] at hok hclosed <;>
        obtain rfl : (Nex.finalizeFile env).final t = u := congrArg Prod.snd hfinal
      · -- the file is closed already when the assembler ends
        have hu := (logGrows_exit env _).noError hok
        have hclosedExit : (((Nex.finalizeFile env).final t).exit env).closed
            = ((Nex.finalizeFile env).final t).closed := by
          show ((Nex.finalizeFile env).final _).closed = _
          rw [finalizeFile_of_closed (finalizeFile_closes hprepared hu)]
        exact closes_of_finalizeFile hprepared hu (hclosedExit.symm.trans hclosed)
      · exact closes_of_finalizeFile hprepared hok hclosed
  · exact (not_closes ((closed_close_refused hruns).symm.trans hclosed)).elim

/-- A step of a run without errors closes a file as `finalizeFile` does. -/
theorem closes_step {s : NexState} {step : Nex.NexStep} {file : List Byte} (hs : s.WellFormed)
    (hok : noError lastPass (s.step step).log = true)
    (hclosed : (s.step step).closed = s.closed ++ [file]) : (s.beforeFinalize step).Closes file := by
  -- behind the exit no step closes a file
  by_cases hexited : s.exited = true
  · unfold NexState.step at hclosed
    rw [if_pos hexited] at hclosed
    exact (not_closes hclosed).elim
  · cases step with
    | exit env =>
      unfold NexState.step at hok hclosed
      rw [if_neg hexited] at hok hclosed
      exact closes_of_finalizeFile hs hok hclosed
    | command env command =>
      -- the other commands close the file only through a fatal error
      by_cases hcommand : ∃ files, command = .close files
      · obtain ⟨files, rfl⟩ := hcommand
        exact closes_close hs hexited hok hclosed
      · have hne : ∀ files, command ≠ .close files := fun files h => hcommand ⟨files, h⟩
        have hbefore : s.beforeFinalize (.command env command)
            = (Nex.dirSAVENEX env command).final s := by
          cases command <;> first | rfl | exact absurd rfl (hne _)
        rw [hbefore]
        exact closes_command hs hne hexited hok hclosed

end NexState

/-! ### The checksum -/

namespace SNexFile

/-- The header that is in memory while the checksum of a V1.3 file is computed. -/
def closingHeader (n : SNexFile) : SNexHeader :=
  { (Nex.atFirstBank n).h with
    magicAndVersion := Function.update n.h.magicAndVersion 7 SNexHeader.digit3
    hasChecksum := 1 }

/-- What changed in the header since `OPEN` wrote it is a multiple of the CRC polynomial. -/
def HeaderInSync (n : SNexFile) (opened : SNexHeader) : Prop :=
  Crc.feed Crc32c.poly 0#32
    (Crc.xorBytes opened.checksummedBytes n.closingHeader.checksummedBytes) = 0#32

/-- The final header of a V1.3 file with a checksum. -/
theorem finalHeader_eq {n : SNexFile} {file : List Byte}
    (hmagic : n.h.magicAndVersion = SNexHeader.magicV12)
    (hversion : NexFile.version (Nex.finalFile n) = SNexHeader.digit3)
    (hchecksum : NexFile.hasChecksum (Nex.finalFile n) ≠ 0) :
    Nex.finalHeader (Nex.atFirstBank n) file
      = n.closingHeader.withCrc32c (Crc32c.checksum 0 (file.drop 512 ++ file.take 508)) := by
  unfold Nex.finalFile at hversion hchecksum
  rw [SNexHeader.version_bytes] at hversion
  rw [SNexHeader.hasChecksum_bytes] at hchecksum
  unfold Nex.finalHeader at hversion hchecksum ⊢
  by_cases h2 : (Nex.atFirstBank n).minFileVersion = 2
  · -- a V1.2 file keeps the version of `OPEN`
    rw [if_pos h2] at hversion
    dsimp only at hversion
    rw [Nex.atFirstBank_magicAndVersion, hmagic] at hversion
    exact absurd hversion (by decide)
  · rw [if_neg h2] at hchecksum ⊢
    dsimp only at hchecksum ⊢
    -- a header without the flag is not checksummed, against the assumption
    by_cases h0 : (Nex.atFirstBank n).h.hasChecksum = 0
    · rw [if_pos h0] at hchecksum
      exact absurd h0 hchecksum
    · rw [if_neg h0, Nex.atFirstBank_magicAndVersion]
      rfl

/-- The checksum of a V1.3 file, against the one of its final content. -/
theorem checksum_finalFile_iff {n : SNexFile} {disk : List Byte} {opened : SNexHeader}
    (hf : n.f = some disk) (hopened : disk.take 512 = opened.bytes)
    (hmagic : n.h.magicAndVersion = SNexHeader.magicV12)
    (hversion : NexFile.version (Nex.finalFile n) = SNexHeader.digit3)
    (hchecksum : NexFile.hasChecksum (Nex.finalFile n) ≠ 0) :
    NexFile.crc32c (Nex.finalFile n)
        = Crc32c.checksum 0 ((Nex.finalFile n).drop 512 ++ (Nex.finalFile n).take 508) ↔
      n.HeaderInSync opened := by
  obtain ⟨copper, hcopper⟩ := Nex.atFirstBank_f hf
  have hlen : 512 ≤ disk.length := by
    have h := congrArg List.length hopened
    rw [SNexHeader.length_bytes, List.length_take] at h
    omega
  -- the checksum reads the header on the disk, which is still the one of `OPEN`
  have hstale : (disk ++ copper).take 508 = opened.checksummedBytes := by
    have h : (disk ++ copper).take 508 = (disk.take 512).take 508 := by
      rw [List.take_take, Nat.min_eq_left (by omega), List.take_append_of_le_length (by omega)]
    rw [h, hopened, ← List.append_nil opened.bytes, SNexHeader.take_bytes]
  -- the closed file: the final header in front of the data that was appended
  have hfile : Nex.finalFile n
      = (n.closingHeader.withCrc32c
          (Crc32c.checksum 0 ((disk ++ copper).drop 512 ++ opened.checksummedBytes))).bytes
        ++ (disk ++ copper).drop 512 := by
    have h := @finalHeader_eq n (disk ++ copper) hmagic hversion hchecksum
    rw [hstale] at h
    unfold Nex.finalFile
    simp only [hcopper, Option.getD_some]
    rw [h]
  have hlength : opened.checksummedBytes.length = n.closingHeader.checksummedBytes.length := by
    rw [SNexHeader.length_checksummedBytes, SNexHeader.length_checksummedBytes]
  have hdrop : ∀ (h : SNexHeader) (rest : List Byte), (h.bytes ++ rest).drop 512 = rest :=
    fun h rest => List.drop_left' h.length_bytes
  -- both checksums start with the data, so that the two headers alone decide
  rw [hfile, SNexHeader.crc32c_bytes, SNexHeader.take_bytes, hdrop,
    SNexHeader.crc32c_withCrc32c, SNexHeader.checksummedBytes_withCrc32c,
    Crc32c.checksum_append, Crc32c.checksum_append]
  exact Crc32c.checksum_eq_iff _ hlength

end SNexFile

/-- The file that a step of a run closes, as V1.3 with a checksum and without any error so far: it
starts as `OPEN` wrote it until `finalizeFile` gets it, and its checksum is the one of its final
content exactly when the changes of the header are a multiple of the CRC polynomial. -/
theorem closed_checksum_iff (steps : List Nex.NexStep) (step : Nex.NexStep) (file : List Byte)
    (hclosed : (NexState.run (steps ++ [step])).closed = (NexState.run steps).closed ++ [file])
    (hok : noError lastPass (NexState.run (steps ++ [step])).log = true)
    (hversion : NexFile.version file = SNexHeader.digit3)
    (hchecksum : NexFile.hasChecksum file ≠ 0) :
    ∃ disk pc sp entryBank,
      ((NexState.run steps).beforeFinalize step).nex.f = some disk ∧
      disk.take 512 = (SNexHeader.opened pc sp entryBank).bytes ∧
      (NexFile.crc32c file = Crc32c.checksum 0 (file.drop 512 ++ file.take 508) ↔
        ((NexState.run steps).beforeFinalize step).nex.HeaderInSync
          (SNexHeader.opened pc sp entryBank)) := by
  rw [NexState.run_append] at hclosed hok
  -- the invariant of the run up to the closing step, whose log has no error either
  have hrun := NexState.wellFormed_run ((NexState.logGrows_step _ _).noError hok)
  obtain ⟨hwell, ⟨disk, hdisk⟩, rfl⟩ := NexState.closes_step hrun hok hclosed
  obtain ⟨pc, sp, entryBank, hopened⟩ := hwell.opened disk hdisk
  exact ⟨disk, pc, sp, entryBank, hdisk, hopened,
    SNexFile.checksum_finalFile_iff hdisk hopened (hwell.magic (by rw [hdisk]; rfl)) hversion
      hchecksum⟩

/-! ### A file with a wrong checksum -/

/-- Empty memory, in the last pass. -/
def exampleNexEnv : NexEnv where
  pass := lastPass
  deviceID := some "ZXSPECTRUMNEXT"
  startAddress := 0x8000
  memory := fun _ => 0
  isBigEndian := false
  bufferAddress := 0
  bp := []
  canCreate := fun _ => true
  readFile := fun _ => none

/-- `OPEN "a.nex"` and `CFG3 1`. -/
def exampleNexSteps : List Nex.NexStep :=
  [.command exampleNexEnv (.openFile "a.nex".toList none),
    .command exampleNexEnv (.cfg3 ⟨[1], false⟩)]

/-- `CLOSE`. -/
def exampleNexClose : Nex.NexStep := .command exampleNexEnv (.close [])

/-- The file that is closed. -/
def exampleNexFile : List Byte :=
  (NexState.run (exampleNexSteps ++ [exampleNexClose])).closed.headD []

/-- The file of a step that closes the first one. -/
theorem closed_eq_of_length {steps : List Nex.NexStep} {step : Nex.NexStep}
    (hempty : (NexState.run steps).closed = [])
    (hlen : (NexState.run (steps ++ [step])).closed.length = 1) :
    (NexState.run (steps ++ [step])).closed
      = (NexState.run steps).closed ++ [(NexState.run (steps ++ [step])).closed.headD []] := by
  obtain ⟨file, hfile⟩ := List.length_eq_one_iff.mp hlen
  rw [hempty, hfile]
  rfl

theorem exampleNexFile_closed :
    (NexState.run (exampleNexSteps ++ [exampleNexClose])).closed
      = (NexState.run exampleNexSteps).closed ++ [exampleNexFile] :=
  closed_eq_of_length (by decide +kernel) (by decide +kernel)

theorem closed_checksum_iff_exampleNexFile :
    ∃ disk pc sp entryBank,
      ((NexState.run exampleNexSteps).beforeFinalize exampleNexClose).nex.f = some disk ∧
      disk.take 512 = (SNexHeader.opened pc sp entryBank).bytes ∧
      (NexFile.crc32c exampleNexFile
          = Crc32c.checksum 0 (exampleNexFile.drop 512 ++ exampleNexFile.take 508) ↔
        ((NexState.run exampleNexSteps).beforeFinalize exampleNexClose).nex.HeaderInSync
          (SNexHeader.opened pc sp entryBank)) :=
  closed_checksum_iff exampleNexSteps exampleNexClose exampleNexFile exampleNexFile_closed
    (by decide +kernel) (by decide +kernel) (by decide +kernel)

/-- What `CFG3 1` and `CLOSE` changed in the header: the version, the checksum flag and the offset of
the banks. -/
def exampleNexDrift : List Byte :=
  (List.replicate 7 0#8 ++ [1]) ++ List.replicate 135 0#8 ++ [1, 0, 2] ++ List.replicate 362 0#8

theorem feed_exampleNexDrift : Crc.feed Crc32c.poly 0#32 exampleNexDrift ≠ 0#32 := by
  have hversion : Crc.feed Crc32c.poly 0#32 (List.replicate 7 0#8 ++ [1]) = 4067132163#32 := by
    decide +kernel
  -- the gap in three parts, which keeps the evaluation shallow
  have hgap : Crc.steps Crc32c.poly (8 * 135) 4067132163#32 = 3379363264#32 := by
    have h₁ : Crc.steps Crc32c.poly 360 4067132163#32 = 1074815470#32 := by decide +kernel
    have h₂ : Crc.steps Crc32c.poly 360 1074815470#32 = 2286501923#32 := by decide +kernel
    have h₃ : Crc.steps Crc32c.poly 360 2286501923#32 = 3379363264#32 := by decide +kernel
    rw [show 8 * 135 = 360 + (360 + 360) from rfl, Crc.steps_add, Crc.steps_add, h₁, h₂, h₃]
  have hflag : Crc.feed Crc32c.poly 3379363264#32 [1, 0, 2] = 2686147845#32 := by decide +kernel
  unfold exampleNexDrift
  rw [Crc.feed_append, Crc.feed_append, Crc.feed_append, hversion,
    Crc.feed_replicate_zero _ 4067132163#32, hgap, hflag, Crc.feed_replicate_zero, Ne,
    Crc.steps_eq_zero_iff _ (by decide)]
  decide

/-- The checksum of this file is wrong. -/
theorem closed_checksum_stale :
    (NexState.run (exampleNexSteps ++ [exampleNexClose])).closed = [exampleNexFile] ∧
      noError lastPass (NexState.run (exampleNexSteps ++ [exampleNexClose])).log = true ∧
      NexFile.version exampleNexFile = SNexHeader.digit3 ∧
      NexFile.hasChecksum exampleNexFile = 1 ∧
      NexFile.crc32c exampleNexFile
        ≠ Crc32c.checksum 0 (exampleNexFile.drop 512 ++ exampleNexFile.take 508) := by
  have hok : noError lastPass (NexState.run (exampleNexSteps ++ [exampleNexClose])).log = true := by
    decide +kernel
  have hversion : NexFile.version exampleNexFile = SNexHeader.digit3 := by decide +kernel
  have hchecksum : NexFile.hasChecksum exampleNexFile = 1 := by decide +kernel
  have hempty : (NexState.run exampleNexSteps).closed = [] := by decide +kernel
  refine ⟨?_, hok, hversion, hchecksum, ?_⟩
  · rw [exampleNexFile_closed, hempty]
    rfl
  · have hclosed := exampleNexFile_closed
    rw [NexState.run_append] at hclosed hok
    have hrun := NexState.wellFormed_run ((NexState.logGrows_step _ _).noError hok)
    obtain ⟨-, -, hfile⟩ := NexState.closes_step hrun hok hclosed
    have hdisk : ((NexState.run exampleNexSteps).beforeFinalize exampleNexClose).nex.f
        = some ((SNexHeader.opened 0x8000 0xFFFE 0).bytes) := by
      decide +kernel
    have hmagic : ((NexState.run exampleNexSteps).beforeFinalize
        exampleNexClose).nex.h.magicAndVersion = SNexHeader.magicV12 := by
      decide +kernel
    -- what `CFG3` changed in the header since `OPEN` is no multiple of the polynomial
    have hdrift : Crc.xorBytes (SNexHeader.opened 0x8000 0xFFFE 0).checksummedBytes
        ((NexState.run exampleNexSteps).beforeFinalize
          exampleNexClose).nex.closingHeader.checksummedBytes = exampleNexDrift := by
      decide +kernel
    rw [hfile] at hversion hchecksum
    rw [hfile, Ne, SNexFile.checksum_finalFile_iff hdisk
      (List.take_of_length_le (by rw [SNexHeader.length_bytes])) hmagic hversion
      (by rw [hchecksum]; decide), SNexFile.HeaderInSync, hdrift]
    exact feed_exampleNexDrift

end Sjasmplus
