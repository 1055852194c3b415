import Sjasmplus.Device
import Sjasmplus.Expression

/-!
# Emitting machine code (`sjio.cpp`, `DISP` and `ENT` of `directives.cpp`)

Every emitted byte goes to the output files in the last pass and, with a device, to the memory behind
`MemoryPointer`.  There are two address counters: `curAddress` is what labels and `$` see, and inside
`DISP` `adrdisp` is where the bytes go.

Addresses are integers: they stay far below the end of the 32-bit range.  The listing and the tracing
data are not part of the model, and the HEX file is written by `Sjasmplus.HexOutput`.
-/

namespace Sjasmplus

/-- The globals that emitting code reads and writes. -/
structure EmitState (n m : Nat) where
  pass : Nat
  isLongPtr : Bool
  device : Option (Device n m)
  curAddress : Int
  adrdisp : Int
  pseudoORG : DispMode
  dispPageNum : Page
  relocationType : Relocation.EType
  notWarnedCurAdr : Bool
  notWarnedDisp : Bool
  /-- The bytes that went through `WriteBuffer`. -/
  output : List Byte
  log : List Event

namespace EmitState

variable {n m : Nat}

/-- `DISP_NONE != PseudoORG`. -/
def displaced (s : EmitState n m) : Bool := s.pseudoORG ≠ .none

/-- The address where the next byte goes. -/
def emitAddress (s : EmitState n m) : Int := if s.displaced then s.adrdisp else s.curAddress

def report (l : List Event) (s : EmitState n m) : EmitState n m := { s with log := s.log ++ l }

/-- "RAM limit exceeded", in the last pass. -/
def ramLimitWarning (s : EmitState n m) (address : Int) (by' : String) : List Event :=
  if s.pass = lastPass then
    [.warning ("RAM limit exceeded 0x" ++ hexUpper address.toNat ++ " by " ++ by') none .pass3]
  else []

/-- The first half of `CheckRamLimitExceeded`, about `CurAddress`. -/
def checkCurAddress (s : EmitState n m) : EmitState n m :=
  if 0x10000 ≤ s.curAddress then
    { s with
      log := s.log ++ if s.notWarnedCurAdr then
          s.ramLimitWarning s.curAddress (if s.displaced then "DISP" else "ORG")
        else []
      notWarnedCurAdr := s.notWarnedCurAdr && s.pass ≠ lastPass
      -- fake DISP address gets auto-wrapped FFFF->0
      curAddress := if s.displaced then s.curAddress % 0x10000 else s.curAddress }
  else { s with notWarnedCurAdr := true }

/-- The second half of `CheckRamLimitExceeded`, about `adrdisp`. -/
def checkAdrdisp (s : EmitState n m) : EmitState n m :=
  if s.displaced ∧ 0x10000 ≤ s.adrdisp then
    { s with
      log := s.log ++ if s.notWarnedDisp then s.ramLimitWarning s.adrdisp "ORG" else []
      notWarnedDisp := s.notWarnedDisp && s.pass ≠ lastPass }
  else { s with notWarnedDisp := true }

/-- `CheckRamLimitExceeded`. -/
def checkRamLimitExceeded (s : EmitState n m) : EmitState n m :=
  if s.isLongPtr then s else s.checkCurAddress.checkAdrdisp

/-- The first lines of `CDevice::CheckPage`: the displaced address wraps around before an emit. -/
def wrapDisplaced (level : CheckPageLevel) (s : EmitState n m) : EmitState n m :=
  if s.displaced ∧ level ≠ .noEmit ∧ 0x10000 ≤ s.curAddress then
    { s.report (s.ramLimitWarning s.curAddress "DISP") with curAddress := s.curAddress % 0x10000 }
  else s

/-- Move both counters, as an emitted byte and `EmitBlock` do. -/
def advance (len : Int) (s : EmitState n m) : EmitState n m :=
  { s with
    curAddress := s.curAddress + len
    adrdisp := if s.displaced then s.adrdisp + len else s.adrdisp }

/-- `CDevice::CheckPage`. -/
def checkPage (level : CheckPageLevel) (device : Device n m) (s : EmitState n m) : EmitState n m :=
  let s := s.wrapDisplaced level
  let r := device.check (s.pass = lastPass) level s.emitAddress
  { s.report r.log with
    device := some r.device
    adrdisp := if s.displaced then s.adrdisp - r.back else s.adrdisp
    curAddress := if s.displaced then s.curAddress else s.curAddress - r.back }

/-- The write through `MemoryPointer` of `EmitByteNoListing`. -/
def writeMemory (byte : Byte) (preserveDeviceMemory lastPass : Bool) (device : Device n m) :
    Device n m :=
  match device.memoryPointer with
  | none => device
  | some p =>
    let device := if lastPass && !preserveDeviceMemory then device.store p byte else device
    { device with memoryPointer := some (p + 1) }

/-- The middle of `EmitByteNoListing`: the check of the address and the device memory. -/
def placeByte (byte : Byte) (preserveDeviceMemory : Bool) (s : EmitState n m) : EmitState n m :=
  match s.device with
  | some device =>
    let s := s.checkPage .emit device
    { s with device := s.device.map (writeMemory byte preserveDeviceMemory (s.pass = lastPass)) }
  | none => s.checkRamLimitExceeded

/-- `EmitByteNoListing`. -/
def emitByteNoListing (byte : Byte) (preserveDeviceMemory : Bool) (s : EmitState n m) :
    EmitState n m :=
  let s := if s.pass = lastPass then { s with output := s.output ++ [byte] } else s
  (s.placeByte byte preserveDeviceMemory).advance 1

/-- `EmitByte`. -/
def emitByte (byte : Aint) (s : EmitState n m) : EmitState n m :=
  s.emitByteNoListing (byte.setWidth 8) false

/-- `EmitWord`. -/
def emitWord (word : Aint) (s : EmitState n m) : EmitState n m :=
  (s.emitByte (word &&& 0xFF)).emitByte (word.sshiftRight 8 &&& 0xFF)

/-- `EmitBytes`. -/
def emitBytes (bytes : List Aint) (s : EmitState n m) : EmitState n m :=
  bytes.foldl (fun s byte => s.emitByte byte)
    (if bytes = [] then s.report [.error "Illegal instruction" none .ifFirst] else s)

/-- `EmitWords`. -/
def emitWords (words : List Aint) (s : EmitState n m) : EmitState n m :=
  words.foldl (fun s word => s.emitWord word) s

/-- `EmitBlock`. -/
def emitBlock (byte : Aint) (len : Int) (preserveDeviceMemory : Bool) (s : EmitState n m) :
    EmitState n m :=
  if len ≤ 0 then
    let s := s.advance len
    match s.device with
    | some device => s.checkPage .noEmit device
    | none => s.checkRamLimitExceeded
  else (emitByteNoListing (byte.setWidth 8) preserveDeviceMemory)^[len.toNat] s

/-- What `PrepareLine` does to the addresses before every statement. -/
def prepareLine (s : EmitState n m) : EmitState n m :=
  match s.device with
  | some device => s.checkPage .noEmit device
  | none => s

/-- The end of `dirDISP`: the address is cropped with a warning, and the counters change roles. -/
def enterDisplacement (valAdr : Aint) (dispPageNum : Page) (s : EmitState n m) : EmitState n m :=
  let crop : Bool := s.device.isSome || !s.isLongPtr
  { s.report (if crop then check16u valAdr else []) with
    adrdisp := s.curAddress
    curAddress := (if crop && check16u valAdr ≠ [] then valAdr &&& 0xFFFF else valAdr).toInt
    dispPageNum := dispPageNum
    pseudoORG := if s.relocationType ≠ .off then .insideRelocate else .active }

/-- `dirDISP` behind its operands: `valAdr` is missing when it has a syntax error, and `valPageNum`
is there when a comma follows, its value missing when that has a syntax error. -/
def dirDISP (valAdr : Option Aint) (isResultAffected : Bool) (valPageNum : Option (Option Aint))
    (s : EmitState n m) : EmitState n m :=
  if s.displaced then
    s.report [.warning "[DISP] displacement inside another displacement block, ignoring it." none
      .pass3]
  else
    match valAdr with
    | none => s.report [.error "[DISP] Syntax error in <address>" none .suppress]
    | some valAdr =>
      if isResultAffected then
        s.report [.error ("Relocation makes one of the expressions unstable, " ++
          "use non-relocatable values only") none .pass3]
      else
        match valPageNum with
        | none => s.enterDisplacement valAdr labelPageUndefined
        | some none => s.report [.error "[DISP] Syntax error in <page number>" none .pass3]
        | some (some valPageNum) =>
          if s.device.isNone then
            s.report [.error "[DISP] <page number> is accepted only in device mode" none .pass3]
          else if valPageNum.toInt < 0 ∨ (m : Int) ≤ valPageNum.toInt then
            s.report [errorInt "[DISP] <page number> is out of range" valPageNum.toInt .pass3]
          else s.enterDisplacement valAdr valPageNum.toInt

/-- `dirENT`. -/
def dirENT (s : EmitState n m) : EmitState n m :=
  if !s.displaced then s.report [.error "ENT should be after DISP" none .pass3]
  else if s.pseudoORG = .active ∧ s.relocationType ≠ .off then
    s.report [.error ("The DISP block did start outside of relocation block, " ++
      "can't end inside it") none .pass3]
  else if s.pseudoORG = .insideRelocate ∧ s.relocationType = .off then
    s.report [.error ("The DISP block did start inside of relocation block, " ++
      "can't end outside of it") none .pass3]
  else { s with curAddress := s.adrdisp, pseudoORG := .none, dispPageNum := labelPageUndefined }

end EmitState

/-! ### Statements that emit -/

/-- One call of an emitting function. -/
inductive Emission
  | byte (byte : Aint)
  | word (word : Aint)
  | bytes (bytes : List Aint)
  | words (words : List Aint)
  | block (byte : Aint) (len : Int) (preserveDeviceMemory : Bool)
deriving DecidableEq, Repr

def Emission.run {n m : Nat} (s : EmitState n m) : Emission → EmitState n m
  | byte b => s.emitByte b
  | word w => s.emitWord w
  | bytes bs => s.emitBytes bs
  | words ws => s.emitWords ws
  | block b len preserveDeviceMemory => s.emitBlock b len preserveDeviceMemory

/-- A statement prepares its line and emits. -/
def runStatement {n m : Nat} (s : EmitState n m) (emissions : List Emission) : EmitState n m :=
  emissions.foldl Emission.run s.prepareLine

def runStatements {n m : Nat} (s : EmitState n m) (statements : List (List Emission)) :
    EmitState n m :=
  statements.foldl runStatement s

end Sjasmplus
