import Sjasmplus.Lib.Decisions
import Sjasmplus.TrdImage

/-!
# Adding a file to a TRD image (`TRD_AddFile` of `io_trd.cpp`)

The arguments are checked first, then the catalogue, of which a copy is changed on the way, and at
the end the data and the catalogue are written to the image.  The image opens, and its bytes are
written as they should be.

`checks_prepareEntry` — which arguments pass the checks.
-/

namespace Sjasmplus

open Program

variable {n m : Nat}

/-! ### Names -/

/-- A text up to its zero byte. -/
structure CString where
  bytes : List Byte
  noNul : (0 : Byte) ∉ bytes

/-- The text as it stands in messages. -/
def CString.text (s : CString) : Text := s.bytes.map fun b => Char.ofNat b.toNat

/-- `strrchr`: where the last such character is. -/
def strrchr (s : List Byte) (c : Byte) : Option Nat :=
  if s.contains c then some (s.length - 1 - s.reverse.idxOf c) else none

/-- `ETrdFileName`. -/
inductive ETrdFileName
  | ok | invalidExtension | threeLetterExtension
deriving DecidableEq, Repr

/-- The bytes of a name, and how many of them belong to it. -/
structure TrdName where
  warning : ETrdFileName
  binName : List Byte
  nameL : Nat

/-- Up to three letters behind the dot. -/
def extensionBehind (inputName : List Byte) (ext : Nat) : List Byte :=
  (inputName.drop (ext + 1)).take 3

/-- `TRD_FileNameToBytes`. -/
def trdFileNameToBytes (inputName : CString) : TrdName :=
  let ext := strrchr inputName.bytes 0x2E
  let name := inputName.bytes.take (min 8 (ext.getD 8))
  let name := name ++ List.replicate (8 - name.length) 0x20
  let name := name ++ match ext with
    | some ext => extensionBehind inputName.bytes ext
    | none => []
  -- the name is either 8+1 or 8+3 (not 8+2)
  let name := if name.length = 9 ∨ name.length = 11 then name else name ++ [0x20]
  { warning :=
      if 9 < name.length then .threeLetterExtension
      else if name.getD 8 0 ∈ ([0x42, 0x43, 0x44, 0x23] : List Byte) then .ok
      else .invalidExtension
    binName := name ++ List.replicate (12 - name.length) 0
    nameL := name.length }

/-- A record with these bytes in front, as the union of `TRD_AddFile` has it. -/
def STrdFile.ofName (longFname : List Byte) : STrdFile where
  filename := Vector.ofFn fun i => longFname.getD i.val 0
  ext := longFname.getD 8 0
  addressLo := longFname.getD 9 0
  addressHi := longFname.getD 10 0
  length := 0
  sectorLength := 0
  startSector := 0
  startTrack := 0

/-! ### Messages -/

/-- The image, and the messages so far. -/
structure TrdState where
  image : List Byte
  log : List Event

abbrev TrdProgram := Program TrdState

namespace TrdProgram

def report (e : Event) : TrdProgram Unit := modify fun s => { s with log := s.log ++ [e] }

/-- `Error`, and return 0. -/
def refuse {α : Type} (message : String) (badValueMessage : Option Text) (type : EStatus) :
    TrdProgram α := do
  report (.error message badValueMessage type)
  exit

/-- The same under a condition. -/
def refuseIf (c : Prop) [Decidable c] (message : String) (badValueMessage : Option Text)
    (type : EStatus) : TrdProgram Unit :=
  if c then refuse message badValueMessage type else pure ()

end TrdProgram

open TrdProgram

/-! ### The arguments -/

/-- The arguments of `TRD_AddFile`, but for the image. -/
structure TrdArguments where
  fhobname : CString
  start : Aint
  length : Aint
  autostart : Aint
  replace : Bool
  addplace : Bool
  lengthMinusVars : Aint

/-- A record that is prepared, with the number of bytes of its name. -/
structure TrdEntry where
  trdf : STrdFile
  lname : Nat
  autostart : Aint

namespace TrdArguments

variable (a : TrdArguments)

def name : TrdName := trdFileNameToBytes a.fhobname

def isExtensionB : Bool := a.name.binName.getD 8 0 = 0x42

/-- `Lname`: for a BASIC file the first letter of the extension counts only, but not to add data. -/
def lname : Nat :=
  if !a.addplace ∧ a.name.warning = .threeLetterExtension ∧ a.isExtensionB then 9 else a.name.nameL

/-- A line number is for BASIC files only. -/
def badAutostart : Bool :=
  0 ≤ a.autostart.toInt ∧ (!a.isExtensionB ∨ 9999 < a.autostart.toInt)

def autostartLine : Aint := if a.badAutostart then -1 else a.autostart

def sectorLength : Byte :=
  ((a.length + 255 + (if 0 ≤ a.autostartLine.toInt then 4 else 0)) >>> 8).setWidth 8

/-- The record for the catalogue, before it has a place. -/
def trdf : STrdFile :=
  let trdf := STrdFile.ofName a.name.binName
  let trdf := { trdf with length := a.length.setWidth 16, sectorLength := a.sectorLength }
  if a.isExtensionB then
    { trdf with
      addressLo := a.length.setWidth 8
      addressHi := (a.length >>> 8).setWidth 8
      length := if a.lengthMinusVars ≠ -1 then a.lengthMinusVars.setWidth 16 else trdf.length }
  else if a.lname ≤ 9 then
    { trdf with addressLo := a.start.setWidth 8, addressHi := (a.start >>> 8).setWidth 8 }
  else trdf

def entry : TrdEntry := ⟨a.trdf, a.lname, a.autostartLine⟩

/-- The start of `TRD_AddFile`, up to the file. -/
def prepareEntry (deviceID : Bool) (bp : Text) : TrdProgram TrdEntry := do
  when (!a.addplace) <| do
    when (a.name.warning = .invalidExtension) <|
      report (.warningById .trdExtInvalid (some a.fhobname.text) .pass3)
    when (a.name.warning = .threeLetterExtension) <| do
      report (.warningById .trdExt3 (some a.fhobname.text) .pass3)
      when a.isExtensionB <| report (.warningById .trdExtB (some a.fhobname.text) .pass3)
  when a.badAutostart <|
    report (.warning ("zx.trdimage_add_file: autostart value is BASIC program line number " ++
      "(0..9999) (in lua use -1 otherwise).") none .pass3)
  when (a.lengthMinusVars ≠ -1) <| do
    refuseIf (!a.isExtensionB)
      "zx.trdimage_add_file: length without variables is for BASIC files only." none .pass3
    refuseIf (a.lengthMinusVars.toInt < 0 ∨ a.length.toInt < a.lengthMinusVars.toInt)
      "zx.trdimage_add_file: length without variables is not in <0..length> range." none .pass3
  refuseIf (!deviceID)
    "zx.trdimage_add_file: this function available only in real device emulation mode." none .pass3
  refuseIf (a.start.toInt < 0 ∨ 0xFFFF < a.start.toInt)
    "zx.trdimage_add_file: start address must be in 0000..FFFF range" (some bp) .pass3
  refuseIf (a.length.toInt ≤ 0 ∨ 0xFF00 < a.length.toInt)
    "zx.trdimage_add_file: length must be in 0001..FF00 range" (some bp) .pass3
  refuseIf (0x10000 < (a.start + a.length).toInt)
    "zx.trdimage_add_file: provided start+length will run out of device memory" (some bp) .pass3
  -- 0xFF00 bytes with a line number
  refuseIf (a.sectorLength = 0)
    "zx.trdimage_add_file: sector length over 0xFF max" (some bp) .pass3
  pure a.entry

end TrdArguments

/-! ### The catalogue -/

/-- What the loop over the catalogue has found. -/
structure TrdSearch where
  head : STrdHead
  fileIndex : Option Nat

/-- The loop of `TRD_AddFile` over the catalogue: the last record of the name, and those in front of
it are deleted on demand. -/
def findFileLoop (deletes : Bool) (trdf : STrdFile) (lname : Nat) :
    List STrdFile → Nat → TrdSearch → TrdSearch
  | [], _, found => found
  | entry :: entries, fatIndex, found =>
    -- beyond the last record
    if !entry.inUse then found
    else if !entry.sameName trdf lname then
      findFileLoop deletes trdf lname entries (fatIndex + 1) found
    else
      findFileLoop deletes trdf lname entries (fatIndex + 1)
        { head := match found.fileIndex with
            | some i => if deletes then found.head.deleteFile i else found.head
            | none => found.head
          fileIndex := some fatIndex }

namespace STrdHead

variable (head : STrdHead)

/-- A record of the catalogue. -/
def file (i : Nat) : STrdFile := head.catalog.getD i (STrdFile.ofName [])

def findFile (deletes : Bool) (entry : TrdEntry) : TrdSearch :=
  findFileLoop deletes entry.trdf entry.lname head.catalog 0 ⟨head, none⟩

/-- The last record is erased as if its file was not on the disc, and its sectors are free again. -/
def eraseLast (i : Nat) : STrdHead :=
  let entry := head.file i
  { head.modifyFile i (·.setFirst 0) with
    info := { head.info with
      freeSector := entry.startSector
      freeTrack := entry.startTrack
      numOfFreeSectors := head.info.numOfFreeSectors + entry.sectorLength.setWidth 16
      numOfFiles := head.info.numOfFiles - 1 } }

/-- The sectors are taken from the free ones. -/
def takeSectors (sectors : Byte) : STrdHead :=
  let free := sectors.toNat + head.info.freeSector.toNat
  { head with
    info := { head.info with
      freeTrack := head.info.freeTrack + BitVec.ofNat 8 (free / 16)
      freeSector := BitVec.ofNat 8 (free % 16)
      numOfFreeSectors := head.info.numOfFreeSectors - sectors.setWidth 16 } }

def countFile : STrdHead :=
  { head with info := { head.info with numOfFiles := head.info.numOfFiles + 1 } }

end STrdHead

/-- The data of the file move on. -/
def STrdFile.shift (file : STrdFile) (sectors : Byte) : STrdFile :=
  let next := sectors.toNat + file.startSector.toNat
  { file with
    startTrack := file.startTrack + BitVec.ofNat 8 (next / 16)
    startSector := BitVec.ofNat 8 (next % 16) }

/-- The loop over the records whose data were moved: missing where their order is another one. -/
def shiftLoop (fileIndex targetPos : Nat) (sectors : Byte) :
    List STrdFile → Nat → Option (List STrdFile)
  | [], _ => some []
  | entry :: entries, entryIndex =>
    let rest := shiftLoop fileIndex targetPos sectors entries (entryIndex + 1)
    -- beyond the last record
    if !entry.inUse then some (entry :: entries)
    else if entryIndex = fileIndex then rest.map (entry :: ·)
    else if decide (entryIndex < fileIndex) ≠ decide (entry.pos < targetPos) then none
    else if entry.pos < targetPos then rest.map (entry :: ·)
    else rest.map (entry.shift sectors :: ·)

theorem length_of_shiftLoop {fileIndex targetPos : Nat} {sectors : Byte}
    {entries entries' : List STrdFile} {i : Nat}
    (h : shiftLoop fileIndex targetPos sectors entries i = some entries') :
    entries'.length = entries.length := by
  induction entries generalizing i entries' with
  | nil =>
    rw [shiftLoop, Option.some_inj] at h
    rw [← h]
  | cons entry entries ih =>
    rw [shiftLoop] at h
    split_ifs at h
    · rw [← Option.some.inj h]
    all_goals
      obtain ⟨rest, hrest, rfl⟩ := Option.map_eq_some_iff.mp h
      rw [List.length_cons, ih hrest, List.length_cons]

/-- The records of the catalogue whose data were moved. -/
def STrdHead.shiftFiles (head : STrdHead) (fileIndex targetPos : Nat) (sectors : Byte) :
    Option STrdHead :=
  match h : shiftLoop fileIndex targetPos sectors head.catalog 0 with
  | none => none
  | some catalog => some ⟨catalog, head.info, (length_of_shiftLoop h).trans head.size⟩

theorem shiftFiles_eq_some {head : STrdHead} {fileIndex targetPos : Nat} {sectors : Byte}
    {catalog : List STrdFile}
    (h : shiftLoop fileIndex targetPos sectors head.catalog 0 = some catalog) :
    ∃ head', head.shiftFiles fileIndex targetPos sectors = some head' ∧
      head'.catalog = catalog ∧ head'.info = head.info := by
  rw [STrdHead.shiftFiles]
  split
  · next hnone =>
    rw [h] at hnone
    cases hnone
  · next catalog' hsome =>
    rw [h, Option.some_inj] at hsome
    exact ⟨_, rfl, hsome.symm, rfl⟩

/-! ### The file in the image -/

/-- The record for the file: a copy of the start of the image with what was deleted, and an index.
-/
structure TrdTarget where
  head : STrdHead
  fileIndex : Nat

namespace TrdTarget

variable (t : TrdTarget) (entry : TrdEntry) (addplace : Bool)

def target : STrdFile := t.head.file t.fileIndex

def isNewTarget : Bool := !t.target.sameName entry.trdf entry.lname

def keepSectors : Nat := if addplace then t.target.sectorLength.toNat else 0

/-- The record as it goes to the catalogue: data that are added raise the number of sectors only. -/
def newTarget : STrdFile :=
  if addplace then { t.target with sectorLength := t.target.sectorLength + entry.trdf.sectorLength }
  else if t.isNewTarget entry then
    { entry.trdf with startSector := t.head.info.freeSector, startTrack := t.head.info.freeTrack }
  else { entry.trdf with startSector := t.target.startSector, startTrack := t.target.startTrack }

/-- The start of the image with this record. -/
def newHead : STrdHead := t.head.modifyFile t.fileIndex fun _ => t.newTarget entry addplace

/-- The checks of the record and of the free space. -/
def check (fname : Text) : TrdProgram Unit := do
  refuseIf (t.fileIndex = numOfFilesMax) "TRD image is full of files" (some fname) .ifFirst
  when (numOfFilesMax < t.fileIndex) <| do
    report (.undefined "record outside of the catalogue")
    exit
  refuseIf (t.target.inUse ∧ t.isNewTarget entry) "TRD inconsistent catalog data" (some fname)
    .ifFirst
  refuseIf (t.head.info.numOfFreeSectors.toNat < entry.trdf.sectorLength.toNat)
    "TRD image has not enough free space" (some fname) .ifFirst
  refuseIf (0xFF < t.keepSectors addplace + entry.trdf.sectorLength.toNat)
    "zx.trdimage_add_file: new sector length over 0xFF max" (some fname) .ifFirst

/-- All data behind the file make room for the ones that are added. -/
def shiftData (fname : Text) : TrdProgram STrdHead := do
  let target := t.newTarget entry true
  let oldTargetEndPos := target.pos + t.keepSectors true * sectorSz
  let newTargetEndPos := target.pos + target.sectorLength.toNat * sectorSz
  let freePos := t.head.info.freePos
  if oldTargetEndPos < freePos then
    let dataToMove := fread (← get).image oldTargetEndPos (freePos - oldTargetEndPos)
    refuseIf (dataToMove.length ≠ freePos - oldTargetEndPos) "TRD read error" (some fname) .ifFirst
    -- since here the image is damaged if something fails
    modify fun s => { s with image := fwrite s.image newTargetEndPos dataToMove }
    match (t.newHead entry true).shiftFiles t.fileIndex target.pos entry.trdf.sectorLength with
    | none => refuse "TRD inconsistent catalog data" (some fname) .ifFirst
    | some head => pure head
  else pure (t.newHead entry true)

/-- The data of the file. -/
def writeData (device : Device n m) (a : TrdArguments) (fname : Text) : TrdProgram Unit := do
  let writePos := (t.newTarget entry addplace).pos + t.keepSectors addplace * sectorSz
  let ram := device.saveRAM a.start a.length
  modify fun s => { s with image := fwrite s.image writePos ram.1 }
  refuseIf (!ram.2) "TRD write device RAM error" (some fname) .ifFirst
  when (!addplace ∧ 0 ≤ entry.autostart.toInt) <| do
    let abin : List Byte :=
      [0x80, 0xAA, entry.autostart.setWidth 8, (entry.autostart >>> 8).setWidth 8]
    modify fun s => { s with image := fwrite s.image (writePos + ram.1.length) abin }

/-- The start of the image behind all changes. -/
def finish (head : STrdHead) : STrdHead :=
  let head := head.takeSectors entry.trdf.sectorLength
  if t.isNewTarget entry then head.countFile else head

/-- What `TRD_AddFile` does behind the checks. -/
def write (device : Device n m) (a : TrdArguments) (fname : Text) : TrdProgram Unit := do
  let head ← if addplace then t.shiftData entry fname else pure (t.newHead entry false)
  t.writeData entry addplace device a fname
  modify fun s => { s with image := (t.finish entry head).writeToFile s.image }

end TrdTarget

/-- The record that is used, by the mode. -/
def TrdArguments.chooseFile (a : TrdArguments) (fname : Text) (found : TrdSearch) :
    TrdProgram TrdTarget :=
  let last : TrdTarget := ⟨found.head, found.head.info.numOfFiles.toNat⟩
  if a.addplace then
    match found.fileIndex with
    | none => refuse "TRD image does not have a specified file to add data" (some fname) .ifFirst
    | some i => pure ⟨found.head, i⟩
  else if a.replace then
    match found.fileIndex with
    | none => pure last
    | some i =>
      if i + 1 = found.head.info.numOfFiles.toNat then do
        -- the free space starts just where the last file ends
        let entry := found.head.file i
        let next := entry.sectorLength.toNat + entry.startSector.toNat
        let nextTrack : Byte := BitVec.ofNat 8 (next / 16) + entry.startTrack
        let nextSector : Byte := BitVec.ofNat 8 (next % 16)
        refuseIf (nextSector ≠ found.head.info.freeSector ∨ nextTrack ≠ found.head.info.freeTrack)
          "TRD free sector was not connected to last file" (some fname) .ifFirst
        let head := found.head.eraseLast i
        pure ⟨head, head.info.numOfFiles.toNat⟩
      else pure ⟨found.head.deleteFile i, found.head.info.numOfFiles.toNat⟩
  else do
    when found.fileIndex.isSome <| report (.warningById .trdDuplicate (some fname) .pass3)
    pure last

/-- `TRD_AddFile`: it returns, or it exits behind an error. -/
def trdAddFile (device : Option (Device n m)) (fname bp : Text) (a : TrdArguments) :
    TrdProgram Unit := do
  let entry ← a.prepareEntry device.isSome bp
  match STrdHead.readFromFile (← get).image, device with
  | some head, some device =>
    let t ← a.chooseFile fname (head.findFile (a.addplace || a.replace) entry)
    t.check entry a.addplace fname
    t.write entry a.addplace device a fname
  | none, _ => refuse "TRD image read error" (some fname) .ifFirst
  -- without a device the arguments are refused
  | some _, none => exit

/-! ### Which arguments pass -/

/-- The image has not been written to. -/
def SameImage (s t : TrdState) : Prop := t.image = s.image

instance : Std.Refl SameImage := ⟨fun _ => rfl⟩

instance : IsTrans TrdState SameImage := ⟨fun _ _ _ h h' => Eq.trans h' h⟩

/-- An error was reported. -/
def ReportsError (s : TrdState) : Prop := ∃ e ∈ s.log, e.isErrorCall = true

/-- The program returns `a` where `C` holds, and elsewhere it reports an error; either way the image
is not written to. -/
abbrev Checks {α : Type} (p : TrdProgram α) (C : Prop) (a : α) : Prop :=
  Decides SameImage ReportsError p C a

namespace TrdProgram

theorem checks_report (e : Event) : Checks (report e) True () :=
  .always fun s => ⟨{ s with log := s.log ++ [e] }, rfl, rfl⟩

theorem exec_refuse {α : Type} (message : String) (bad : Option Text) (type : EStatus)
    (s : TrdState) : ∃ s', SameImage s s' ∧ ReportsError s' ∧
      (refuse message bad type : TrdProgram α).exec s = (none, s') :=
  ⟨{ s with log := s.log ++ [.error message bad type] }, rfl,
    ⟨_, List.mem_append_right _ List.mem_cons_self, rfl⟩, rfl⟩

theorem checks_refuse {α : Type} {message : String} {bad : Option Text} {type : EStatus} {a : α} :
    Checks (refuse message bad type) False a :=
  .never (exec_refuse message bad type)

theorem checks_refuseIf {c : Prop} {_ : Decidable c} {message : String} {bad : Option Text}
    {type : EStatus} : Checks (refuseIf c message bad type) (¬c) () :=
  .ite (fun hc => checks_refuse.congr ⟨False.elim, fun hno => hno hc⟩)
    fun hc => (Decides.pure ()).congr ⟨fun _ => hc, fun _ => trivial⟩

/-- Warnings do not matter. -/
theorem checks_warn {c : Prop} {_ : Decidable c} {p : TrdProgram Unit} (hp : Checks p True ()) :
    Checks (when c p) True () :=
  hp.when.congr ⟨fun _ => trivial, fun h _ => h⟩

end TrdProgram

namespace TrdArguments

variable (a : TrdArguments)

/-- The arguments are in their ranges. -/
structure Valid : Prop where
  vars : a.lengthMinusVars ≠ -1 → ¬(!a.isExtensionB) = true ∧
    ¬(a.lengthMinusVars.toInt < 0 ∨ a.length.toInt < a.lengthMinusVars.toInt)
  start : ¬(a.start.toInt < 0 ∨ 0xFFFF < a.start.toInt)
  length : ¬(a.length.toInt ≤ 0 ∨ 0xFF00 < a.length.toInt)
  fits : ¬0x10000 < (a.start + a.length).toInt
  sectors : a.sectorLength ≠ 0

/-- The arguments pass when they are in their ranges, and there is a device. -/
theorem checks_prepareEntry (deviceID : Bool) (bp : Text) :
    Checks (a.prepareEntry deviceID bp) (deviceID = true ∧ a.Valid) a.entry := by
  -- the remarks on the name are warnings, which refuse nothing
  have hname : Checks (when (!a.addplace) do
      when (a.name.warning = .invalidExtension) <|
        report (.warningById .trdExtInvalid (some a.fhobname.text) .pass3)
      when (a.name.warning = .threeLetterExtension) do
        report (.warningById .trdExt3 (some a.fhobname.text) .pass3)
        when a.isExtensionB <| report (.warningById .trdExtB (some a.fhobname.text) .pass3))
      True () :=
    checks_warn <| (checks_warn (checks_report _)).always_bind <|
      checks_warn <| (checks_report _).always_bind <| checks_warn (checks_report _)
  refine Decides.congr (hname.always_bind <| (checks_warn (checks_report _)).always_bind <|
    (checks_refuseIf.bind fun _ => checks_refuseIf).when.bind fun _ => checks_refuseIf.bind fun _ =>
      checks_refuseIf.bind fun _ => checks_refuseIf.bind fun _ => checks_refuseIf.bind fun _ =>
        checks_refuseIf.bind fun _ => .pure a.entry) ?_
  constructor
  · rintro ⟨hvars, hdevice, hstart, hlength, hfits, hsectors, -⟩
    exact ⟨by simpa using hdevice, hvars, hstart, hlength, hfits, hsectors⟩
  · rintro ⟨hdevice, hvalid⟩
    exact ⟨hvalid.vars, by simpa using hdevice, hvalid.start, hvalid.length, hvalid.fits,
      hvalid.sectors, trivial⟩

end TrdArguments

end Sjasmplus
