import Sjasmplus.Crc32c
import Sjasmplus.Lib.Program

/-!
# NEX files (`io_nex.cpp`)

`SAVENEX` builds a NEX file sequentially: `OPEN` writes a first version of the 512-byte header, the
other commands change the header in memory and append screens and banks to the file, and
`finalizeFile` writes the header again and closes the file.

A command comes with its arguments already read from the line: `ArgumentList` is what
`getIntArguments` finds there.  Memory, input files and the globals that a command reads are those of
its `NexEnv`, so they may be different for every command.  A file is the list of its bytes; writing
to it always succeeds (a short write is a fatal error).
-/

namespace Sjasmplus

/-! ### The header -/

/-- `SNexHeader`. -/
structure SNexHeader where
  magicAndVersion : Fin 8 → Byte
  ramReq : Byte
  numBanks : Byte
  screen : Byte
  border : Byte
  sp : BitVec 16
  pc : BitVec 16
  obsoleteNumfiles : BitVec 16
  banks : Fin 112 → Byte
  loadbar : Byte
  loadbarColour : Byte
  loadDelay : Byte
  startDelay : Byte
  preserveNextRegs : Byte
  coreVersion : Fin 3 → Byte
  hiResColour : Byte
  entryBank : Byte
  fileHandleCfg : BitVec 16
  expBusDisable : Byte
  hasChecksum : Byte
  banksOffset : BitVec 32
  cliBuffer : BitVec 16
  cliBufferSize : BitVec 16
  screen2 : Byte
  hasCopperCode : Byte
  tilesScrConfig : Fin 4 → Byte
  bigL2barPosY : Byte
  reserved : Fin 349 → Byte
  crc32c : BitVec 32

/-- A 16-bit word in its little endian form. -/
def le16 (x : BitVec 16) : List Byte := [x.setWidth 8, (x >>> 8).setWidth 8]

/-- A 32-bit word in its little endian form. -/
def le32 (x : BitVec 32) : List Byte :=
  [x.setWidth 8, (x >>> 8).setWidth 8, (x >>> 16).setWidth 8, (x >>> 24).setWidth 8]

namespace SNexHeader

def copperSize : Nat := 0x0800
def palSize : Nat := 0x200
def maxBank : Nat := 112
def scrLayer2 : Byte := 0x01
def scrUla : Byte := 0x02
def scrLores : Byte := 0x04
def scrHires : Byte := 0x08
def scrHicol : Byte := 0x10
def scrExt2 : Byte := 0x40
def scrNopal : Byte := 0x80
def scr2_320x256 : Byte := 1
def scr2_640x256 : Byte := 2
def scr2_tilemap : Byte := 3

/-- The magic number with the version "V1.2". -/
def magicV12 : Fin 8 → Byte
  | 0 => 0x4e | 1 => 0x65 | 2 => 0x78 | 3 => 0x74 | 4 => 0x56 | 5 => 0x31 | 6 => 0x2e | 7 => 0x32

/-- The last digit of the version "V1.3". -/
def digit3 : Byte := 0x33

/-- `SNexHeader::init`. -/
def init : SNexHeader where
  magicAndVersion := magicV12
  ramReq := 0
  numBanks := 0
  screen := 0
  border := 0
  sp := 0
  pc := 0
  obsoleteNumfiles := 0
  banks := fun _ => 0
  loadbar := 0
  loadbarColour := 0
  loadDelay := 0
  startDelay := 0
  preserveNextRegs := 0
  coreVersion := fun | 0 => 2 | 1 => 0 | 2 => 28
  hiResColour := 0
  entryBank := 0
  fileHandleCfg := 0
  expBusDisable := 0
  hasChecksum := 0
  banksOffset := 0
  cliBuffer := 0
  cliBufferSize := 0
  screen2 := 0
  hasCopperCode := 0
  tilesScrConfig := fun _ => 0
  bigL2barPosY := 0
  reserved := fun _ => 0
  crc32c := 0

/-- The fields ahead of `hasChecksum`. -/
def v12Bytes (h : SNexHeader) : List Byte :=
  List.ofFn h.magicAndVersion ++ [h.ramReq, h.numBanks, h.screen, h.border] ++ le16 h.sp
    ++ le16 h.pc ++ le16 h.obsoleteNumfiles ++ List.ofFn h.banks
    ++ [h.loadbar, h.loadbarColour, h.loadDelay, h.startDelay, h.preserveNextRegs]
    ++ List.ofFn h.coreVersion ++ [h.hiResColour, h.entryBank] ++ le16 h.fileHandleCfg
    ++ [h.expBusDisable]

/-- The fields between `hasChecksum` and `crc32c`. -/
def v13Bytes (h : SNexHeader) : List Byte :=
  le32 h.banksOffset ++ le16 h.cliBuffer ++ le16 h.cliBufferSize ++ [h.screen2, h.hasCopperCode]
    ++ List.ofFn h.tilesScrConfig ++ [h.bigL2barPosY] ++ List.ofFn h.reserved

/-- The 508 bytes ahead of `crc32c`. -/
def checksummedBytes (h : SNexHeader) : List Byte := h.v12Bytes ++ h.hasChecksum :: h.v13Bytes

/-- The packed structure in its little endian binary form. -/
def bytes (h : SNexHeader) : List Byte := h.checksummedBytes ++ le32 h.crc32c

end SNexHeader

/-! ### The state -/

/-- `SNexFile`; an open file is its content. -/
structure SNexFile where
  h : SNexHeader
  reqFileVersion : Int
  minFileVersion : Int
  f : Option (List Byte)
  lastBankIndex : Int
  copper : Option (List Byte)
  palette : Option (List Byte)
  palDefined : Bool
  canAppend : Bool

/-- `SNexFile::init`: the file, the buffers and `canAppend` are left alone. -/
def SNexFile.init (n : SNexFile) : SNexFile :=
  { n with
    h := .init, lastBankIndex := -1, palDefined := false, reqFileVersion := 0, minFileVersion := 2 }

/-- `nex`, with the files that were closed and the messages so far. -/
structure NexState where
  nex : SNexFile
  closed : List (List Byte)
  log : List Event
  /-- The assembler has ended. -/
  exited : Bool

/-- A source file in an argument: its name as written, and the path it stands for. -/
structure InputFile where
  str : Text
  full : Text

/-- `std::filesystem::path::has_filename`. -/
def InputFile.hasFilename (file : InputFile) : Bool :=
  file.full ≠ [] && file.full.getLast? ≠ some '/'

/-- What a command reads besides its arguments and the state of the NEX file. -/
structure NexEnv where
  pass : Nat
  deviceID : Option String
  startAddress : Aint
  /-- `Device->Memory`, and what lies around it. -/
  memory : Int → Byte
  isBigEndian : Bool
  /-- Where a new buffer is allocated. -/
  bufferAddress : Nat
  /-- The text of the line. -/
  bp : Text
  canCreate : Text → Bool
  readFile : Text → Option (List Byte)

/-- The integers of an argument list, up to the first that does not parse; behind the last of them
there may be one more comma. -/
structure ArgumentList where
  values : List Aint
  trailingComma : Bool

/-- `getIntArguments` accepts the list. -/
def ArgumentList.accepted (given : ArgumentList) (argOptional : List Bool) : Bool :=
  let count := given.values.length
  if count = 0 then argOptional.getD 0 false
  else if count < argOptional.length then !given.trailingComma && argOptional.getD count false
  else count = argOptional.length && !given.trailingComma

/-- `getIntArguments`: the values, with defaults for those that were left out. -/
def getIntArguments (args : List Aint) (argOptional : List Bool) (given : ArgumentList) :
    Option (Nat → Aint) :=
  if given.accepted argOptional then some fun i => given.values.getD i (args.getD i 0) else none

/-- The value is outside `low..high`. -/
def Aint.outside (a : Aint) (low high : Int) : Bool := a.toInt < low || high < a.toInt

/-- A program over the state of the NEX file. -/
abbrev NexProgram := Program NexState

namespace Nex

open Program

def report (l : List Event) : NexProgram Unit := modify fun s => { s with log := s.log ++ l }

/-- `Error`: a fatal error ends the program. -/
def error (message : String) (badValueMessage : Option Text) (type : EStatus) :
    NexProgram Unit := do
  report [.error message badValueMessage type]
  when (type = .fatal) Program.exit

def warning (message : String) (badValueMessage : Option Text) : NexProgram Unit :=
  report [.warning message badValueMessage .pass3]

def updateNex (g : SNexFile → SNexFile) : NexProgram Unit :=
  modify fun s => { s with nex := g s.nex }

def updateHeader (g : SNexHeader → SNexHeader) : NexProgram Unit :=
  updateNex fun n => { n with h := g n.h }

/-- `fwrite` at the end of the NEX file. -/
def append (data : List Byte) : NexProgram Unit :=
  updateNex fun n => { n with f := n.f.map (· ++ data) }

/-! ### `SNexFile` -/

/-- `updateIfAheadFirstBankSave`. -/
def updateIfAheadFirstBankSave : NexProgram Unit := do
  let s ← get
  if s.nex.h.banksOffset ≠ 0 ∨ ¬s.nex.canAppend then pure ()
  else
    when (s.nex.lastBankIndex ≠ -1) <| error "[SAVENEX] V1.3?!" none .fatal
    when (s.nex.palDefined ∧ s.nex.h.screen = 0) <|
      warning "[SAVENEX] some palette was defined, but without screen it is ignored." none
    -- the copper code is the last block ahead of the first bank
    when (s.nex.h.hasCopperCode ≠ 0) <| append (s.nex.copper.getD [])
    let s ← get
    updateHeader fun h => { h with banksOffset := BitVec.ofNat 32 (s.nex.f.getD []).length }

/-- `writeHeader`. -/
def writeHeader : NexProgram Unit :=
  updateNex fun n => match n.f with
    | none => n
    | some file => { n with canAppend := false, f := some (n.h.bytes ++ file.drop 512) }

/-- `writePalette`. -/
def writePalette : NexProgram Unit := do
  let s ← get
  if ¬s.nex.canAppend then pure ()
  else match s.nex.palDefined, s.nex.palette with
    | true, some palette => append palette
    | _, _ => updateHeader fun h => { h with screen := SNexHeader.scrNopal }

/-- `BUFFER_SIZE` of `calculateCrc32C`. -/
def bufferSize : Nat := 128 * 1024

/-- The loop of `calculateCrc32C` over what is left of the file. -/
def crcLoop (bufferAddress : Nat) : Nat → BitVec 32 → List Byte → BitVec 32
  | 0, crc, _ => crc
  | fuel + 1, crc, rest =>
    let buffer := rest.take bufferSize
    if buffer.length = 0 then crc
    else
      let crc := Crc32c.appendSw bufferAddress crc buffer
      if buffer.length = bufferSize then crcLoop bufferAddress fuel crc (rest.drop bufferSize)
      else crc

/-- `calculateCrc32C`. -/
def calculateCrc32C (env : NexEnv) : NexProgram Unit := do
  let s ← get
  match s.nex.f with
  | none => pure ()
  | some file =>
    if s.nex.h.hasChecksum = 0 then pure ()
    else
      updateNex fun n => { n with canAppend := false }
      let rest := file.drop 512
      let crc := crcLoop env.bufferAddress (rest.length / bufferSize + 1) 0 rest
      -- the header part is read from the file, too
      let buffer := file.take 508
      if buffer.length = 508 then
        updateHeader fun h =>
          { h with hasChecksum := 1, crc32c := Crc32c.appendSw env.bufferAddress crc buffer }
      else
        updateHeader fun h => { h with hasChecksum := 0 }
        error "[SAVENEX] reading file for CRC calculation failed" none .pass3

/-- `fclose`, and the buffers are freed. -/
def closeFile : NexProgram Unit :=
  modify fun s =>
    { s with
      closed := s.closed ++ s.nex.f.toList
      nex := { s.nex with f := none, canAppend := false, copper := none, palette := none } }

/-- The version dependent part of `finalizeFile`. -/
def finalizeVersion (env : NexEnv) : NexProgram Unit := do
  let s ← get
  if s.nex.minFileVersion = 2 then
    updateHeader fun h => { h with banksOffset := 0, bigL2barPosY := 0 }
  else
    updateHeader fun h =>
      { h with magicAndVersion := Function.update h.magicAndVersion 7 SNexHeader.digit3 }
    calculateCrc32C env

/-- The check of `finalizeFile` for banks from 48 on. -/
def checkRamReq : NexProgram Unit := do
  let s ← get
  when (s.nex.h.ramReq = 0 ∧ ∃ i : Fin 112, 48 ≤ i.val ∧ s.nex.h.banks i ≠ 0) <|
    error "[SAVENEX] 2MB bank (48..111) stored without 2MbRamReq set in CFG" none .pass3

/-- `finalizeFile`. -/
def finalizeFile (env : NexEnv) : NexProgram Unit := do
  let s ← get
  if s.nex.f.isNone then pure ()
  else
    when (s.nex.minFileVersion = 3 ∧ s.nex.reqFileVersion = 2) <|
      error "[SAVENEX] V1.3?!" none .fatal
    updateIfAheadFirstBankSave
    finalizeVersion env
    writeHeader
    closeFile
    checkRamReq

/-! ### BMP files -/

/-- `EBmpType`. -/
inductive EBmpType
  | other | layer2 | loRes | l2_320x256 | l2_640x256
deriving DecidableEq

/-- The little endian number of `size` bytes at an offset. -/
def leAt (content : List Byte) (offset size : Nat) : Nat :=
  ((content.drop offset).take size).foldr (fun byte n => byte.toNat + 256 * n) 0

/-- `SBmpFile`, with the content of the file. -/
structure SBmpFile where
  content : List Byte
  type : EBmpType
  width : Int
  height : Int
  upsideDown : Bool

/-- The type that `SBmpFile::open` reads off the size of the picture. -/
def bmpType (width height : Int) : EBmpType :=
  if height = 256 then
    if width = 320 then .l2_320x256 else if width = 640 then .l2_640x256 else .other
  else if width = 128 ∧ height = 96 then .loRes
  else if width = 256 ∧ height = 192 then .layer2
  else .other

/-- "BM", a 40-byte header, one plane of 8 bits a pixel and no compression; header and palette are
complete. -/
def bmpExpected (content : List Byte) : Bool :=
  0x36 + 4 * 0x100 ≤ content.length && content.getD 0 0 = 0x42 && content.getD 1 0 = 0x4d &&
    leAt content 14 4 = 40 && leAt content 26 2 = 1 && leAt content 28 2 = 8 &&
    leAt content 30 4 = 0

/-- `SBmpFile::open`. -/
def openBmp (env : NexEnv) (bmpIn : InputFile) : NexProgram (Option SBmpFile) :=
  match env.readFile bmpIn.full with
  | none => do
    error "[SAVENEX] Error opening file" (some bmpIn.str) .suppress
    pure none
  | some content =>
    if bmpExpected content then
      let width := (BitVec.ofNat 32 (leAt content 18 4)).toInt
      let height := (BitVec.ofNat 32 (leAt content 22 4)).toInt
      pure (some ⟨content, bmpType width |height|, width, |height|, 0 < height⟩)
    else do
      error "[SAVENEX] BMP file is not in expected format (uncompressed, 8bpp, 40B BITMAPINFOHEADER header)"
        (some bmpIn.str) .suppress
      pure none

namespace SBmpFile

/-- `getColor`. -/
def getColor (bmp : SBmpFile) (index : Nat) : BitVec 16 :=
  let channel (i : Nat) : BitVec 16 :=
    ((bmp.content.getD (0x36 + index * 4 + i) 0) >>> 5).setWidth 16
  ((channel 0 &&& 1) <<< 8) ||| (channel 0 >>> 1) ||| (channel 1 <<< 2) ||| (channel 2 <<< 5)

/-- A line of `loadPixelData`. -/
def pixelLine (bmp : SBmpFile) (y : Nat) : List Byte :=
  let w := bmp.width.toNat
  let fileY := if bmp.upsideDown then bmp.height.toNat - y - 1 else y
  (bmp.content.drop (leAt bmp.content 10 4 + w * fileY)).take w

/-- `loadPixelData`, unless the file is too short. -/
def loadPixelData (bmp : SBmpFile) : Option (List Byte) :=
  let lines := (List.range bmp.height.toNat).map bmp.pixelLine
  if lines.all (·.length = bmp.width.toNat) then some lines.flatten else none

/-- The columns of a picture of 256 lines, two pixels in a byte for the width of 640. -/
def transposed (bmp : SBmpFile) (buffer : List Byte) : List Byte :=
  let src (x y : Nat) := buffer.getD (x + y * bmp.width.toNat) 0
  (List.range 320).flatMap fun x =>
    (List.range 256).map fun y =>
      if bmp.type = .l2_640x256 then (src (2 * x) y <<< 4) ||| (src (2 * x + 1) y &&& 0x0F)
      else src x y

end SBmpFile

/-! ### Banks and memory -/

/-- Banks in the file are in this order. -/
def nexBankOrder : List Nat := [5, 2, 0, 1, 3, 4, 6, 7]

/-- `getNexBankIndex`. -/
def getNexBankIndex (bank16kNum : Aint) : Int :=
  if ¬bank16kNum.outside 8 111 then bank16kNum.toInt
  else match nexBankOrder.findIdx? (fun (bank : Nat) => (bank : Int) = bank16kNum.toInt) with
    | some i => i
    | none => -2

/-- `getNexBankNum`. -/
def getNexBankNum (bankIndex : Int) : Int :=
  if 0 ≤ bankIndex ∧ bankIndex < 8 then nexBankOrder.getD bankIndex.toNat 0
  else if 8 ≤ bankIndex ∧ bankIndex < SNexHeader.maxBank then bankIndex
  else -1

/-- `CDevice::GetMemoryOffset`; the pages of the device have 8 kiB. -/
def getMemoryOffset (page offset : Aint) : Int := (offset + page * 0x2000).toInt

/-- The size of the memory of the device, 224 pages. -/
def totalRam : Int := 224 * 0x2000

/-- The range does not lie in the memory of the device, computed with `size_t`. -/
def outsideRam (address : Int) (size : Nat) : Bool :=
  address + size < 0 || totalRam < address + size

/-- The bytes from an address of the device memory. -/
def readMemory (env : NexEnv) (address : Int) (size : Nat) : List Byte :=
  (List.range size).map fun i => env.memory (address + i)

/-- The page that `checkStackPointer` expects at an address. -/
def stackPage (entryBank : Byte) (address : BitVec 16) : Nat :=
  [0, 0, 10, 11, 4, 5, entryBank.toNat * 2, entryBank.toNat * 2 + 1].getD
    (address.toNat / 0x2000) 0

/-- `checkStackPointer`: below the stack pointer there should be ten zeros. -/
def checkStackPointer (env : NexEnv) : NexProgram Unit := do
  let s ← get
  let sp := s.nex.h.sp
  let isZero (i : Nat) : Bool :=
    let address := sp - BitVec.ofNat 16 (10 - i)
    env.memory (stackPage s.nex.h.entryBank address * 0x2000 + (address &&& 0x1FFF).toNat) = 0
  if 0 < sp.toNat ∧ sp.toNat < 0x4000 + 10 then
    warning "[SAVENEX] stackAddress is too close to ROM area" none
  else if (List.range 10).all isZero then pure ()
  else report [.warningById .nexStack none .pass3]

/-! ### The commands ahead of the banks -/

def notOpen : NexProgram Unit := error "[SAVENEX] NEX file is not open" none .suppress

/-- The end of `dirNexOpen`: the file is new, and gets its first header. -/
def createFile (env : NexEnv) (openArgs : Nat → Aint) : NexProgram Unit := do
  updateNex fun n =>
    { n with
      f := some []
      h := { n.h with
        pc := (openArgs 0).setWidth 16
        sp := (openArgs 1).setWidth 16
        entryBank := (openArgs 2).setWidth 8 }
      reqFileVersion := (openArgs 3).toInt
      minFileVersion := if openArgs 3 = 3 then 3 else 2 }
  writeHeader
  updateNex fun n => { n with canAppend := true }
  checkStackPointer env

/-- `dirNexOpen`. -/
def dirNexOpen (env : NexEnv) (fname : Text) (given : Option ArgumentList) : NexProgram Unit := do
  let s ← get
  if s.nex.f.isSome then error "[SAVENEX] NEX file is already open" (some env.bp) .suppress
  else
    updateNex SNexFile.init
    let defaults := [if env.startAddress = -1 then 0 else env.startAddress, 0xFFFE, 0, 0]
    match getIntArguments defaults [false, true, true, true] (given.getD ⟨defaults, false⟩) with
    | none =>
      error "[SAVENEX] expected syntax is OPEN <filename>[,<startAddress>[,<stackAddress>[,<entryBank 0..111>[,<fileVersion 2..3>]]]]"
        (some env.bp) .suppress
    | some openArgs =>
      when (env.startAddress ≠ -1 ∧ env.startAddress ≠ openArgs 0) <|
        warning "[SAVENEX] Start address was also defined by END, OPEN argument used instead" none
      report (check16 (openArgs 0))
      report (check16 (openArgs 1))
      if (openArgs 2).outside 0 111 then
        report [errorInt "[SAVENEX] entry bank can be 0..111 value only" (openArgs 2).toInt .suppress]
      else if openArgs 3 ≠ 0 ∧ (openArgs 3).outside 2 3 then
        report [errorInt "[SAVENEX] only file version 2 (V1.2) or 3 (V1.3) can be enforced"
          (openArgs 3).toInt .suppress]
      else if ¬env.canCreate fname then
        error "[SAVENEX] Error opening file for write" (some fname) .suppress
      else
        createFile env openArgs

/-- `dirNexCore`. -/
def dirNexCore (env : NexEnv) (given : ArgumentList) : NexProgram Unit := do
  let s ← get
  if s.nex.f.isNone then notOpen
  else match getIntArguments [0, 0, 0] [false, false, false] given with
    | none =>
      error "[SAVENEX] expected syntax is CORE <major 0..15>,<minor 0..15>,<subminor 0..255>"
        (some env.bp) .suppress
    | some coreArgs =>
      when ((coreArgs 0).outside 0 15 ∨ (coreArgs 1).outside 0 15 ∨ (coreArgs 2).outside 0 255) <|
        warning "[SAVENEX] values are not within 0..15,0..15,0..255 ranges" none
      updateHeader fun h => { h with coreVersion := fun i => (coreArgs i).setWidth 8 }

/-- `!!`. -/
def flag (a : Aint) : Byte := if a = 0 then 0 else 1

/-- The condition of the warning of `dirNexCfg3`. -/
def badCfg3 (a : Nat → Aint) : Bool :=
  (a 0).outside 0 1 || (a 1).outside 0 1 ||
    ((a 2 ≠ 0 || a 3 ≠ 0) &&
      ((a 2).toInt < 0x4000 || 0x10000 < (a 2 + a 3).toInt || (a 3).outside 1 0x0800))

/-- `dirNexCfg3`. -/
def dirNexCfg3 (env : NexEnv) (given : ArgumentList) : NexProgram Unit := do
  let s ← get
  if s.nex.f.isNone then notOpen
  else if s.nex.reqFileVersion = 2 then
    error "[SAVENEX] V1.2 was requested with OPEN, but CFG3 is V1.3 feature." none .suppress
  else
    updateNex fun n => { n with minFileVersion := 3 }
    match getIntArguments [1, 0, 0, 0] [false, true, true, false] given with
    | none =>
      error "[SAVENEX] expected syntax is CFG3 <DoCRC 0/1>[,<PreserveExpansionBus 0/1>[,<CLIbufferAdr>,<CLIbufferSize>]]"
        (some env.bp) .suppress
    | some cfgArgs =>
      when (badCfg3 cfgArgs) <|
        warning "[SAVENEX] crc/preserve values are not 0/1 or CLI buffer doesn't fit into $4000..$FFFF range (size can be 2048 max)" none
      updateHeader fun h =>
        { h with
          hasChecksum := flag (cfgArgs 0)
          expBusDisable := flag (cfgArgs 1)
          cliBuffer := (cfgArgs 2).setWidth 16
          cliBufferSize := (cfgArgs 3).setWidth 16 }
      if cfgArgs 0 ≠ 0 ∧ env.isBigEndian then
        error "[SAVENEX] CRC feature is not available at big-endian host machine (wrong CRC implementation in sjasmplus, sorry)" none .pass3
        updateHeader fun h => { h with hasChecksum := 0 }
      else pure ()

/-- `dirNexCfg`. -/
def dirNexCfg (env : NexEnv) (given : ArgumentList) : NexProgram Unit := do
  let s ← get
  if s.nex.f.isNone then notOpen
  else match getIntArguments [0, 0, 0, 0] [false, true, true, true] given with
    | none =>
      error "[SAVENEX] expected syntax is CFG <border 0..7>[,<fileHandle 0/1/$4000+>[,<PreserveNextRegs 0/1>[,<2MbRamReq 0/1>]]]"
        (some env.bp) .suppress
    | some cfgArgs =>
      when ((cfgArgs 0).outside 0 7 ∨ (cfgArgs 1).outside 0 0xFFFE ∨ (cfgArgs 2).outside 0 1 ∨
          (cfgArgs 3).outside 0 1) <|
        warning "[SAVENEX] values are not within 0..7,0..65534,0/1,0/1 ranges" none
      updateHeader fun h =>
        { h with
          border := (cfgArgs 0 &&& 7).setWidth 8
          fileHandleCfg := (cfgArgs 1).setWidth 16
          preserveNextRegs := (cfgArgs 2).setWidth 8
          ramReq := (cfgArgs 3).setWidth 8 }

/-- `dirNexBar`. -/
def dirNexBar (env : NexEnv) (given : ArgumentList) : NexProgram Unit := do
  let s ← get
  if s.nex.f.isNone then notOpen
  else match getIntArguments [0, 0, 0, 0, 254] [false, false, true, true, true] given with
    | none =>
      error "[SAVENEX] expected syntax is BAR <loadBar 0/1>,<barColour 0..255>[,<startDelay 0..255>[,<bankDelay 0..255>[,<posY 0..255>]]]"
        (some env.bp) .suppress
    | some barArgs =>
      when ((barArgs 0).outside 0 1 ∨ (barArgs 1).outside 0 255 ∨ (barArgs 2).outside 0 255 ∨
          (barArgs 3).outside 0 255 ∨ (barArgs 4).outside 0 255) <|
        warning "[SAVENEX] values are not within 0/1 or 0..255 ranges" none
      updateHeader fun h =>
        { h with
          loadbar := (barArgs 0).setWidth 8
          loadbarColour := (barArgs 1).setWidth 8
          startDelay := (barArgs 2).setWidth 8
          loadDelay := (barArgs 3).setWidth 8
          bigL2barPosY := (barArgs 4).setWidth 8 }

/-! ### Palettes -/

/-- The first `dirNexPaletteDefault`: a palette of all colours. -/
def defaultPalette : List Byte :=
  (List.range 256).flatMap fun i => [BitVec.ofNat 8 i, if i % 4 = 0 then 0 else 1]

def setPalette (palette : List Byte) : NexProgram Unit :=
  updateNex fun n => { n with palDefined := true, palette := some palette }

def noPalette : NexProgram Unit := updateNex fun n => { n with palDefined := true }

/-- `dirNexPaletteMem` with the place of the data. -/
def dirNexPaletteMemAt (env : NexEnv) (page8kNum palOffset : Aint) : NexProgram Bool := do
  let s ← get
  let adrPalData := getMemoryOffset page8kNum palOffset
  if s.nex.palDefined then pure true
  else if page8kNum = -1 then do
    noPalette
    pure true
  else if adrPalData < 0 ∨ totalRam < adrPalData + SNexHeader.palSize then do
    error "[SAVENEX] palette data address range is outside of Next memory" (some env.bp) .suppress
    pure false
  else do
    setPalette (readMemory env adrPalData SNexHeader.palSize)
    pure true

/-- The first `dirNexPaletteBmp`. -/
def dirNexPaletteOfBmp (bmp : SBmpFile) : NexProgram Unit := do
  let s ← get
  if s.nex.palDefined then pure ()
  else
    setPalette ((List.range 256).flatMap fun i => le16 (bmp.getColor i))

/-- `dirNexPaletteMem`. -/
def dirNexPaletteMem (env : NexEnv) (given : ArgumentList) : NexProgram Unit :=
  let syntaxError :=
    error "[SAVENEX] expected syntax is MEM <palPage8kNum 0..223>,<palOffset 0+>" (some env.bp)
      .suppress
  match getIntArguments [0, 0] [false, false] given with
  | none => syntaxError
  | some palArgs =>
    if (palArgs 0).outside 0 223 ∨ (palArgs 1).toInt < 0 then syntaxError
    else do
      let _ ← dirNexPaletteMemAt env (palArgs 0) (palArgs 1)

/-- `dirNexPaletteBmp`; a comma may follow the file. -/
def dirNexPaletteBmp (env : NexEnv) (bmpIn : InputFile) (comma : Bool) : NexProgram Unit :=
  if bmpIn.full = [] ∨ comma then
    error "[SAVENEX] expected syntax is BMP <filename>" (some env.bp) .suppress
  else do
    match ← openBmp env bmpIn with
    | none => pure ()
    | some bmp => dirNexPaletteOfBmp bmp

/-- The forms of `PALETTE`. -/
inductive PaletteCommand
  | none
  | default
  | mem (given : ArgumentList)
  | bmp (bmpIn : InputFile) (comma : Bool)
  | unknown (lp : Text)

/-- `dirNexPalette`. -/
def dirNexPalette (env : NexEnv) (command : PaletteCommand) : NexProgram Unit := do
  let s ← get
  if s.nex.f.isNone then notOpen
  else if s.nex.palDefined ∨ s.nex.h.screen ≠ 0 then
    error "[SAVENEX] some palette/screen was already defined (define palette once and ahead)" none
      .suppress
  else if s.nex.lastBankIndex ≠ -1 then
    error "[SAVENEX] some bank was already stored (define palette ahead)" none .suppress
  else match command with
    | .none => noPalette
    | .default => setPalette defaultPalette
    | .mem given => dirNexPaletteMem env given
    | .bmp bmpIn comma => dirNexPaletteBmp env bmpIn comma
    | .unknown lp =>
      error "[SAVENEX] unknown palette command (commands: NONE, DEFAULT, MEM, BMP)" (some lp)
        .suppress

/-! ### Banks -/

/-- The body of `saveBank` for a bank in range. -/
def storeBank (env : NexEnv) (bankIndex : Int) (bank : Fin 112) (onlyNonZero : Bool) :
    NexProgram Bool := do
  updateIfAheadFirstBankSave
  let data := readMemory env (bank.val * 2 * 0x2000) 0x4000
  updateNex fun n => { n with lastBankIndex := bankIndex }
  if onlyNonZero ∧ data.all (· = 0) then pure true
  else
    updateHeader fun h =>
      { h with banks := Function.update h.banks bank 1, numBanks := h.numBanks + 1 }
    append data
    pure true

/-- `saveBank`. -/
def saveBank (env : NexEnv) (bankIndex bankNum : Int) (onlyNonZero : Bool) : NexProgram Bool := do
  let s ← get
  if h : 0 ≤ bankNum ∧ bankNum < 112 then
    if bankIndex ≤ s.nex.lastBankIndex then
      report [errorInt "[SAVENEX] it's too late to save this bank (correct order: 5, 2, 0, 1, 3, 4, 6, ...)"
        bankNum .suppress]
      pure false
    else storeBank env bankIndex ⟨bankNum.toNat, by omega⟩ onlyNonZero
  else pure false

/-! ### Screens -/

/-- The flags that a screen sets in the header. -/
def setScreen (type : EBmpType) (hiResColour : SNexHeader → Byte) (h : SNexHeader) : SNexHeader :=
  match type with
  | .layer2 => { h with screen := h.screen ||| SNexHeader.scrLayer2 }
  | .loRes => { h with screen := h.screen ||| SNexHeader.scrLores }
  | .l2_320x256 =>
    { h with
      screen := h.screen ||| SNexHeader.scrExt2
      screen2 := SNexHeader.scr2_320x256
      hiResColour := hiResColour h }
  | .l2_640x256 =>
    { h with
      screen := h.screen ||| SNexHeader.scrExt2
      screen2 := SNexHeader.scr2_640x256
      hiResColour := hiResColour h }
  | .other => h

/-- The number of bytes of a picture. -/
def pixelDataSize : EBmpType → Nat
  | .layer2 => 0xC000
  | .loRes => 0x3000
  | _ => 0x14000

/-- The end of `dirNexScreenLayer2andLowRes`: `page` is -1 for the default position. -/
def writePixelData (env : NexEnv) (type : EBmpType) (page : Aint) (adrPixelData : Int) :
    NexProgram Unit :=
  if page = -1 then
    if type = .loRes then do
      append (readMemory env (getMemoryOffset 10 0) 0x1800)
      append (readMemory env (getMemoryOffset 10 0 + 0x2000) 0x1800)
    else append (readMemory env (getMemoryOffset 18 0) (pixelDataSize type))
  else append (readMemory env adrPixelData (pixelDataSize type))

/-- `dirNexScreenLayer2andLowRes`. -/
def dirNexScreenLayer2andLowRes (env : NexEnv) (type : EBmpType) (given : ArgumentList) :
    NexProgram Unit := do
  let s ← get
  let isV13 : Bool := type = .l2_320x256 || type = .l2_640x256
  let syntaxError :=
    error "[SAVENEX] expected syntax is ... [<Page8kNum 0..223>,<offset>[,<palPage8kNum 0..223>,<palOffset>]]"
      (some env.bp) .suppress
  if isV13 ∧ s.nex.reqFileVersion = 2 then
    error "[SAVENEX] V1.2 was requested with OPEN, but 320x256 or 640x256 screen is V1.3 feature."
      none .suppress
  else
    when isV13 <|
      updateNex fun n => { n with minFileVersion := 3, h := { n.h with hiResColour := 0 } }
    match getIntArguments [-1, 0, -1, 0] [true, false, true, false] given with
    | none => syntaxError
    | some screenArgs =>
      if (screenArgs 0).outside (-1) 223 ∨ (screenArgs 2).outside (-1) 223 then syntaxError
      else
        let adrPixelData :=
          if screenArgs 0 = -1 then 0 else getMemoryOffset (screenArgs 0) (screenArgs 1)
        if outsideRam adrPixelData (pixelDataSize type) then
          error "[SAVENEX] pixel data address range is outside of Next memory" (some env.bp)
            .suppress
        else
          let palette ← dirNexPaletteMemAt env (screenArgs 2) (screenArgs 3)
          if palette then
            writePalette
            updateHeader (setScreen type SNexHeader.hiResColour)
            writePixelData env type (screenArgs 0) adrPixelData
          else pure ()

/-- The part of `dirNexScreenBmp` behind the checks. -/
def storeBmp (bmp : SBmpFile) (savePalette : Bool) (paletteOffset : Aint) : NexProgram Unit := do
  when savePalette <| dirNexPaletteOfBmp bmp
  writePalette
  updateHeader (setScreen bmp.type fun _ => paletteOffset.setWidth 8)
  match bmp.loadPixelData with
  | none => error "[SAVENEX] reading BMP pixel data failed" none .fatal
  | some buffer =>
    append (if bmp.type = .layer2 ∨ bmp.type = .loRes then buffer else bmp.transposed buffer)

/-- `dirNexScreenBmp`. -/
def dirNexScreenBmp (env : NexEnv) (bmpIn : InputFile) (given : Option ArgumentList) :
    NexProgram Unit :=
  match getIntArguments [1, -1] [false, true] (given.getD ⟨[1, -1], false⟩) with
  | none =>
    error "[SAVENEX] expected syntax is BMP <filename>[,<savePalette 0/1>[,<paletteOffset 0..15>]]"
      (some env.bp) .suppress
  | some bmpArgs => do
    when ((bmpArgs 0).outside 0 1) <|
      warning "[SAVENEX] savePalette should be 0 or 1 (defaulting to 1)" none
    when ((bmpArgs 1).outside (-1) 15) <|
      warning "[SAVENEX] paletteOffset should be in 0..15 range" none
    match ← openBmp env bmpIn with
    | none => pure ()
    | some bmp =>
      if bmp.type = .other then
        error "[SAVENEX] BMP file is not 256x192, 128x96, 320x256 or 640x256" (some bmpIn.str)
          .suppress
      else
        let isV12 : Bool := bmp.type = .layer2 || bmp.type = .loRes
        when (bmpArgs 1 ≠ -1 ∧ isV12) <|
          warning "[SAVENEX] BMP paletteOffset is available only for new V1.3 images (320 or 640 x256)" none
        let paletteOffset := if isV12 then -1 else if bmpArgs 1 = -1 then 0 else bmpArgs 1
        let s ← get
        if bmp.height = 256 ∧ s.nex.reqFileVersion = 2 then
          error "[SAVENEX] V1.2 was requested with OPEN, but 320x256 or 640x256 BMP is V1.3 feature."
            none .suppress
        else
          when (bmp.height = 256) <| updateNex fun n => { n with minFileVersion := 3 }
          storeBmp bmp (bmpArgs 0 ≠ 0) paletteOffset

/-- The colour argument of `dirNexScreenUlaTimex`. -/
def setHiResColour (env : NexEnv) : Option Aint → NexProgram Unit
  | none => pure ()
  | some colour => do
    when (colour.outside 0 7) <| warning "[SAVENEX] value is not in 0..7 range" (some env.bp)
    updateHeader fun h => { h with hiResColour := ((colour &&& 7) <<< 3).setWidth 8 }

/-- `dirNexScreenUlaTimex`; the colour is read for the screen type `SCR_HIRES` only. -/
def dirNexScreenUlaTimex (env : NexEnv) (scrType : Byte) (hiResColor : Option Aint) :
    NexProgram Unit := do
  when (scrType = SNexHeader.scrHires) <| setHiResColour env hiResColor
  updateHeader fun h => { h with screen := scrType }
  let adrPixelData := getMemoryOffset 10 0
  if scrType = SNexHeader.scrUla then append (readMemory env adrPixelData 0x1B00)
  else
    append (readMemory env adrPixelData 0x1800)
    append (readMemory env (adrPixelData + 0x2000) 0x1800)

/-- `dirNexScreenTile`. -/
def dirNexScreenTile (env : NexEnv) (given : ArgumentList) : NexProgram Unit := do
  let s ← get
  let syntaxError :=
    error "[SAVENEX] expected syntax is TILE <NextReg $6B>,<NextReg $6C>,<NextReg $6E>,<NextReg $6F>[,<AlsoStoreBank5 0/1 = 1>]"
      (some env.bp) .suppress
  match getIntArguments [0, 0, 0, 0, 1] [false, false, false, false, true] given with
  | none => syntaxError
  | some tileArgs =>
    if (tileArgs 0).outside 0 255 ∨ (tileArgs 1).outside 0 255 ∨ (tileArgs 2).outside 0 255 ∨
        (tileArgs 3).outside 0 255 ∨ (tileArgs 4).outside 0 1 then syntaxError
    else if s.nex.reqFileVersion = 2 then
      error "[SAVENEX] V1.2 was requested with OPEN, but tilemap screen is V1.3 feature." none
        .suppress
    else
      updateNex fun n => { n with minFileVersion := 3 }
      writePalette
      updateHeader fun h =>
        { h with
          screen := h.screen ||| SNexHeader.scrExt2
          screen2 := SNexHeader.scr2_tilemap
          tilesScrConfig := fun i => (tileArgs i).setWidth 8 }
      if tileArgs 4 = 0 then pure ()
      else
        let _ ← saveBank env (getNexBankIndex 5) 5 false

/-- The types of pictures in memory that `SCREEN` knows. -/
abbrev ScreenType := { type : EBmpType // type ≠ .other }

/-- The forms of `SCREEN`. -/
inductive ScreenCommand
  | layer2andLowRes (type : ScreenType) (given : ArgumentList)
  | bmp (bmpIn : InputFile) (given : Option ArgumentList)
  | scr
  | shc
  | shr (hiResColor : Option Aint)
  | tile (given : ArgumentList)
  | unknown (lp : Text)

/-- `dirNexScreen`. -/
def dirNexScreen (env : NexEnv) (command : ScreenCommand) : NexProgram Unit := do
  let s ← get
  if ¬s.nex.canAppend then notOpen
  else if s.nex.h.screen ≠ 0 then
    error "[SAVENEX] screen for this NEX file was already stored" none .suppress
  else if s.nex.lastBankIndex ≠ -1 then
    error "[SAVENEX] some bank was already stored (store screen ahead)" none .suppress
  else match command with
    | .layer2andLowRes type given => dirNexScreenLayer2andLowRes env type given
    | .bmp bmpIn given => dirNexScreenBmp env bmpIn given
    | .scr => dirNexScreenUlaTimex env SNexHeader.scrUla none
    | .shc => dirNexScreenUlaTimex env SNexHeader.scrHicol none
    | .shr hiResColor => dirNexScreenUlaTimex env SNexHeader.scrHires hiResColor
    | .tile given => dirNexScreenTile env given
    | .unknown lp =>
      error "[SAVENEX] unknown screen type (types: BMP, L2, L2_320, L2_640, LR, SCR, SHC, SHR, TILE)"
        (some lp) .suppress

/-! ### Copper code, banks and closing -/

/-- `dirNexCopper`. -/
def dirNexCopper (env : NexEnv) (given : ArgumentList) : NexProgram Unit := do
  let s ← get
  let syntaxError :=
    error "[SAVENEX] expected syntax is COPPER <Page8kNum 0..223>,<offset>" (some env.bp) .suppress
  if ¬s.nex.canAppend then notOpen
  else if s.nex.reqFileVersion = 2 then
    error "[SAVENEX] V1.2 was requested with OPEN, but COPPER is V1.3 feature." none .suppress
  else if s.nex.lastBankIndex ≠ -1 then
    error "[SAVENEX] some bank was already stored (store copper ahead)" none .suppress
  else
    updateNex fun n => { n with minFileVersion := 3 }
    match getIntArguments [0, 0] [false, false] given with
    | none => syntaxError
    | some screenArgs =>
      let adrCopperData := getMemoryOffset (screenArgs 0) (screenArgs 1)
      if (screenArgs 0).outside 0 223 then syntaxError
      else if outsideRam adrCopperData SNexHeader.copperSize then
        error "[SAVENEX] copper data address range is outside of Next memory" (some env.bp)
          .suppress
      else
        updateNex fun n =>
          { n with
            h := { n.h with hasCopperCode := 1 }
            copper := some (readMemory env adrCopperData SNexHeader.copperSize) }

/-- The items of `BANK`: where each one starts, and its value if it is an expression. -/
abbrev BankItem := Text × Option Aint

/-- The loop of `dirNexBank`. -/
def saveBanks (env : NexEnv) : List BankItem → NexProgram Unit
  | [] => pure ()
  | (nextLp, item) :: rest => do
    let bankNum := item.getD (-1)
    if getNexBankIndex bankNum < 0 then
      error "[SAVENEX] expected bank number 0..111" (some nextLp) .suppress
    else
      let saved ← saveBank env (getNexBankIndex bankNum) bankNum.toInt false
      if saved then saveBanks env rest else pure ()

/-- `dirNexBank`. -/
def dirNexBank (env : NexEnv) (items : List BankItem) : NexProgram Unit := do
  let s ← get
  if ¬s.nex.canAppend then notOpen else saveBanks env items

/-- The loop of `dirNexAuto` over `count` more banks. -/
def saveNonZeroBanks (env : NexEnv) (fromI : Int) : Nat → NexProgram Unit
  | 0 => pure ()
  | count + 1 => do
    let saved ← saveBank env fromI (getNexBankNum fromI) true
    if saved then saveNonZeroBanks env (fromI + 1) count else pure ()

/-- `dirNexAuto`. -/
def dirNexAuto (env : NexEnv) (given : ArgumentList) : NexProgram Unit := do
  let s ← get
  let syntaxError :=
    error "[SAVENEX] expected syntax is AUTO [<fromBank 0..111>[,<toBank 0..111>]]" (some env.bp)
      .suppress
  if ¬s.nex.canAppend then notOpen
  else if s.nex.lastBankIndex = 111 then
    error "[SAVENEX] all banks are already stored" none .suppress
  else
    match getIntArguments [BitVec.ofInt 32 (getNexBankNum (s.nex.lastBankIndex + 1)), 111]
      [true, true] given with
    | none => syntaxError
    | some autoArgs =>
      let fromI := getNexBankIndex (autoArgs 0)
      let toI := getNexBankIndex (autoArgs 1)
      if (autoArgs 0).outside 0 111 ∨ (autoArgs 1).outside 0 111 then syntaxError
      else if toI < fromI then
        error "[SAVENEX] 'toBank' is less than 'fromBank'" (some env.bp) .suppress
      else saveNonZeroBanks env fromI (toI - fromI + 1).toNat

/-- Copy a file to the end of the NEX file. -/
def appendFile (env : NexEnv) (appendIn : InputFile) : NexProgram Unit :=
  match env.readFile appendIn.full with
  | none => error "[SAVENEX] Error opening append file" (some appendIn.str) .suppress
  | some content => append content

/-- The loop of `dirNexClose` over the files to append. -/
def appendFiles (env : NexEnv) : List InputFile → NexProgram Unit
  | [] => pure ()
  | appendIn :: rest => do
    when appendIn.hasFilename <| appendFile env appendIn
    appendFiles env rest

/-- `dirNexClose` up to the call of `finalizeFile`. -/
def prepareClose (env : NexEnv) (files : List InputFile) : NexProgram Unit := do
  updateIfAheadFirstBankSave
  appendFiles env files

/-- `dirNexClose`. -/
def dirNexClose (env : NexEnv) (files : List InputFile) : NexProgram Unit := do
  let s ← get
  if ¬s.nex.canAppend then notOpen
  else
    prepareClose env files
    finalizeFile env

/-! ### Runs -/

/-- The commands of `SAVENEX`, with their arguments. -/
inductive NexCommand
  | openFile (fname : Text) (given : Option ArgumentList)
  | core (given : ArgumentList)
  | cfg3 (given : ArgumentList)
  | cfg (given : ArgumentList)
  | bar (given : ArgumentList)
  | palette (command : PaletteCommand)
  | screen (command : ScreenCommand)
  | copper (given : ArgumentList)
  | bank (items : List BankItem)
  | auto (given : ArgumentList)
  | close (files : List InputFile)
  | unknown (lp : Text)

/-- `dirSAVENEX`. -/
def dirSAVENEX (env : NexEnv) (command : NexCommand) : NexProgram Unit :=
  if env.pass ≠ lastPass then pure ()
  else if env.deviceID ≠ some "ZXSPECTRUMNEXT" then
    error "[SAVENEX] is allowed only in ZXSPECTRUMNEXT device mode" none .suppress
  else match command with
    | .openFile fname given => dirNexOpen env fname given
    | .core given => dirNexCore env given
    | .cfg3 given => dirNexCfg3 env given
    | .cfg given => dirNexCfg env given
    | .bar given => dirNexBar env given
    | .palette command => dirNexPalette env command
    | .screen command => dirNexScreen env command
    | .copper given => dirNexCopper env given
    | .bank items => dirNexBank env items
    | .auto given => dirNexAuto env given
    | .close files => dirNexClose env files
    | .unknown lp =>
      error "[SAVENEX] unknown command (commands: OPEN, CORE, CFG, BAR, SCREEN, BANK, AUTO, CLOSE)"
        (some lp) .suppress

/-- A command of the source, or the end of the assembler, where the destructor of `nex` runs. -/
inductive NexStep
  | command (env : NexEnv) (command : NexCommand)
  | exit (env : NexEnv)

end Nex

namespace NexState

/-- Before the first command. -/
def initial : NexState where
  nex :=
    { h := .init, reqFileVersion := 0, minFileVersion := 2, f := none, lastBankIndex := -1,
      copper := none, palette := none, palDefined := false, canAppend := false }
  closed := []
  log := []
  exited := false

/-- The assembler ends, and the destructor of `nex` runs. -/
def exit (env : NexEnv) (s : NexState) : NexState :=
  { (Nex.finalizeFile env).final s with exited := true }

/-- One step; a fatal error ends the assembler. -/
def step (s : NexState) (step : Nex.NexStep) : NexState :=
  if s.exited then s
  else match step with
    | .command env command =>
      match (Nex.dirSAVENEX env command).exec s with
      | (some _, s') => s'
      | (none, s') => s'.exit env
    | .exit env => s.exit env

/-- The state in which a step calls `finalizeFile`: `CLOSE` has appended its files then; any other
command only does so when a fatal error ends the assembler. -/
def beforeFinalize (s : NexState) : Nex.NexStep → NexState
  | .exit _ => s
  | .command env (.close files) => (Nex.prepareClose env files).final s
  | .command env command => (Nex.dirSAVENEX env command).final s

/-- The state behind a run. -/
def run (steps : List Nex.NexStep) : NexState := steps.foldl step initial

end NexState

end Sjasmplus
