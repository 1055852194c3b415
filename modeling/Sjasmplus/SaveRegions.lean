import Sjasmplus.DeviceLayout
import Sjasmplus.Statements

/-!
# Regions of the save directives (`SAVEDEV`, `SAVE3DOS`, `SAVEAMSDOS`, `SAVEHEX`, `SAVECDT BASIC`)

The directives check which part of the memory they are asked for, and then call the function that writes
the file.  The model of a directive ends with this call: `SaveOutcome.request` has its arguments, and is
missing when no file is written.

* `save_regions` — as long as start and length do not add up to 2^31 or more, a file is only written for
  a region of the memory, and otherwise an error is reported; a `SAVEDEV` of no bytes only gets a warning.
-/

namespace Sjasmplus

open Parsing ParseFn

variable {n m : Nat}

/-- What a save directive does: the arguments for the function that writes, and the messages. -/
structure SaveOutcome (α : Type) where
  request : Option α
  log : List Event

namespace SaveOutcome

variable {α : Type}

/-- No file is written, and an error is counted. -/
def Refused (o : SaveOutcome α) : Prop :=
  o.request = none ∧ ∃ e ∈ o.log, e.isError lastPass = true

/-- An error ends the directive. -/
def error (message : String) (badValueMessage : Option Text) (type : EStatus := .pass3) :
    SaveOutcome α :=
  ⟨none, [.error message badValueMessage type]⟩

theorem refused_error {message : String} {badValueMessage : Option Text} {type : EStatus}
    (h : type.active lastPass = true) : (error message badValueMessage type : SaveOutcome α).Refused :=
  ⟨rfl, _, List.mem_singleton_self _, h⟩

end SaveOutcome

/-! ### `SAVEDEV` -/

namespace Device

variable (device : Device n m)

/-- The size of `Pages[0]`. -/
def pageSize : Nat := (device.pages ⟨0, device.pages_pos⟩).size

/-- `GetMemoryOffset`. -/
def getMemoryOffset (page offset : Aint) : Aint := offset + page * BitVec.ofNat 32 device.pageSize

/-- The limits of `AddPage` and of `DEFDEVICE`. -/
structure MemoryLimits : Prop where
  pages : m ≤ 4096
  pageSize : device.pageSize ≤ 0x10000

end Device

/-- The arguments of `SAVEDEV`. -/
structure SaveDevArguments where
  page : Aint
  offset : Aint
  length : Aint
deriving DecidableEq, Repr

/-- The checks of `dirSAVEDEV` behind the one of the page; `SaveDeviceMemory` gets start and length. -/
def saveDeviceRegion (device : Device n m) (args : SaveDevArguments) : SaveOutcome (Aint × Aint) :=
  let start := device.getMemoryOffset args.page args.offset
  let totalRam := device.getMemoryOffset (BitVec.ofNat 32 m) 0
  if start.toInt < 0 ∨ totalRam.toInt ≤ start.toInt then
    ⟨none, [errorInt "[SAVEDEV] calculated start address is out of range" start.toInt .pass3]⟩
  else if args.length.toInt ≤ 0 ∨ totalRam.toInt < (start + args.length).toInt then
    ⟨none, if args.length ≠ 0 then
        [errorInt "[SAVEDEV] invalid end address (bad length?)" (start + args.length).toInt .pass3]
      else [.warning "[SAVEDEV] zero length requested" none .pass3]⟩
  else ⟨some (start, args.length), []⟩

/-- `dirSAVEDEV`, with its arguments unless they have a syntax error. -/
def dirSAVEDEV (s : AsmState n m) (bp : Text) (args : Option SaveDevArguments) :
    SaveOutcome (Aint × Aint) :=
  let exec := s.device.isSome && s.pass = lastPass
  let deviceLog : List Event := if !exec && s.pass = lastPass then
      [.error "SAVEDEV only allowed in real device emulation mode (See DEVICE)" none .pass3]
    else []
  match args with
  | none =>
    ⟨none, deviceLog ++ [.error ("Expected syntax SAVEDEV " ++
      "<filename>,<startPage>,<startOffset>,<length>") (some bp) .suppress]⟩
  | some args =>
    match s.device with
    | none => ⟨none, deviceLog⟩
    | some device =>
      if !exec then ⟨none, deviceLog⟩
      else if args.page.toInt < 0 ∨ m ≤ args.page.toInt then
        ⟨none, deviceLog ++ [errorInt "[SAVEDEV] page number is out of range" args.page.toInt .pass3]⟩
      else saveDeviceRegion device args

/-! ### Regions of the address space -/

/-- The test of `SAVE3DOS`, `SAVEAMSDOS` and `SAVEHEX`. -/
def outsideOf64ki (address size : Aint) : Bool :=
  address.toInt < 0 || size.toInt < 1 || 0x10000 < (address + size).toInt

/-- The arguments of `SAVE3DOS`, with -1 for those that are missing at the end. -/
structure Save3DosArguments where
  address : Aint
  size : Aint
  type : Aint := 3
  w2_line : Aint := -1
  w3 : Aint := -1
deriving DecidableEq, Repr

/-- The end of a directive that writes in the last pass only. -/
def AsmState.request {α : Type} (s : AsmState n m) (a : α) (log : List Event := []) :
    SaveOutcome α :=
  ⟨if s.pass = lastPass then some a else none, log⟩

/-- `dirSAVE3DOS`. -/
def dirSAVE3DOS (s : AsmState n m) (bp : Text) (args : Option Save3DosArguments) :
    SaveOutcome Save3DosArguments :=
  if s.device.isNone then
    .error "SAVE3DOS works in real device emulation mode (See DEVICE)" none
  else
    match args with
    | none =>
      .error "[SAVE3DOS] expected syntax is <filename>,<address>,<size>[,<type>[,<w2_line>[,<w3>]]]"
        (some bp) .suppress
    | some args =>
      if outsideOf64ki args.address args.size then
        .error "[SAVE3DOS] [address, size] region outside of 64ki" (some bp)
      else
        let args := { args with w3 := if args.w3 = -1 then args.size else args.w3 }
        if args.type = 0 then
          s.request { args with w2_line := if args.w2_line = -1 then 0x8000 else args.w2_line }
        else if args.type = 1 ∨ args.type = 2 then s.request args
        else if args.type = 3 then
          s.request { args with w2_line := if args.w2_line = -1 then args.address else args.w2_line }
        else .error "[SAVE3DOS] expected type 0..3" (some bp)

/-- The arguments of `SAVEAMSDOS`. -/
structure SaveAmsdosArguments where
  address : Aint
  size : Aint
  start : Aint := 0
  type : Aint := 2
deriving DecidableEq, Repr

/-- `dirSAVEAMSDOS`. -/
def dirSAVEAMSDOS (s : AsmState n m) (bp : Text) (args : Option SaveAmsdosArguments) :
    SaveOutcome SaveAmsdosArguments :=
  if s.device.isNone then
    .error "SAVEAMSDOS works in real device emulation mode (See DEVICE)" none
  else
    match args with
    | none =>
      .error "[SAVEAMSDOS] expected syntax is <filename>,<address>,<size>[,<start = 0>[,<type = 2>]"
        (some bp) .suppress
    | some args =>
      if outsideOf64ki args.address args.size then
        .error "[SAVEAMSDOS] [address, size] region outside of 64ki" (some bp)
      else
        -- check8 works for -256..+255 values, in this case just 0..255 is valid
        let type := if args.type.toInt < 0 then -0x1000 else args.type
        s.request { args with type := type } (check16u args.start ++ check8 type)

/-- The arguments of `SAVEHEX`. -/
structure SaveHexArguments where
  address : Aint
  size : Aint
  start : Aint := -1
deriving DecidableEq, Repr

/-- `dirSAVEHEX`. -/
def dirSAVEHEX (s : AsmState n m) (bp : Text) (args : Option SaveHexArguments) :
    SaveOutcome SaveHexArguments :=
  if s.device.isNone then
    .error "SAVEHEX works in real device emulation mode (See DEVICE)" none
  else
    match args with
    | none =>
      .error "[SAVEHEX] expected syntax is <filename>,<address>,<size>[,<start = -1>]" (some bp)
        .suppress
    | some args =>
      if outsideOf64ki args.address args.size then
        .error "[SAVEHEX] [address, size] region outside of 64ki" (some bp)
      else if args.start.toInt < -1 ∨ 0xFFFF < args.start.toInt then
        s.request { args with start := -1 }
          [errorInt "[SAVEHEX] start should be -1 as OFF or uint16" args.start.toInt .pass3]
      else s.request args

/-- `dirSAVECDTBasic` behind its name, which only the last pass calls. -/
def dirSAVECDTBasic (lp : Text) (args : Option (Aint × Aint)) : SaveOutcome (Aint × Aint) :=
  let argerr := "[SAVECDT] Invalid args. SAVECDT BASIC <cdtname>,<name>,<start>,<length>"
  match args with
  | none => .error argerr (some lp) .suppress
  | some (start, length) =>
    if start.toInt < 0 ∨ length.toInt < 1 ∨ 0x10000 ≤ length.toInt ∨
        0x10000 < (start + length).toInt then
      .error argerr (some lp) .suppress
    else ⟨some (start, length), []⟩

/-! ### Which regions are accepted -/

/-- The region lies in the address space. -/
def Inside64ki (address size : Aint) : Prop :=
  0 ≤ address.toInt ∧ 1 ≤ size.toInt ∧ address.toInt + size.toInt ≤ 0x10000

/-- Start and length have a sum of 32 bits. -/
def SumFits (start length : Aint) : Prop := start.toInt + length.toInt < 2 ^ 31

/-- The test for the address space is exact as long as the sum fits. -/
theorem outsideOf64ki_eq_false_iff {address size : Aint} (h : SumFits address size) :
    outsideOf64ki address size = false ↔ Inside64ki address size := by
  have hsum : 0 ≤ address.toInt → 1 ≤ size.toInt →
      (address + size).toInt = address.toInt + size.toInt := fun haddress hsize =>
    toInt_add_of_fits (by omega) h
  simp only [outsideOf64ki, Bool.or_eq_false_iff, decide_eq_false_iff_not, Inside64ki]
  constructor
  · rintro ⟨⟨haddress, hsize⟩, hend⟩
    rw [hsum (by omega) (by omega)] at hend
    omega
  · rintro ⟨haddress, hsize, hend⟩
    rw [hsum haddress hsize]
    omega

namespace SaveDevArguments

variable (args : SaveDevArguments) (device : Device n m)

/-- The start of the region in the memory of the device. -/
def start : Int := args.offset.toInt + args.page.toInt * device.pageSize

/-- The region that starts there lies in the memory of the device. -/
def InsideFrom : Prop :=
  0 ≤ args.start device ∧ 0 < args.length.toInt ∧
    args.start device + args.length.toInt ≤ m * device.pageSize

/-- The page is one of the device, and the region lies in its memory. -/
def Inside : Prop := 0 ≤ args.page.toInt ∧ args.page.toInt < m ∧ args.InsideFrom device

/-- With a start in the memory of the device, the end is a 32-bit number. -/
def Fits : Prop :=
  0 ≤ args.start device → args.start device < m * device.pageSize →
    args.start device + args.length.toInt < 2 ^ 31

variable {args device}

/-- `GetMemoryOffset` for a page of the device, which wraps around to a negative number only. -/
theorem toInt_getMemoryOffset (hlimits : device.MemoryLimits) (hpage : 0 ≤ args.page.toInt)
    (hpage' : args.page.toInt < m) :
    (device.getMemoryOffset args.page args.offset).toInt = args.start device ∨
      2 ^ 31 ≤ args.start device ∧ (device.getMemoryOffset args.page args.offset).toInt < 0 := by
  obtain ⟨hpages, hsize⟩ := hlimits
  have hsize' := toInt_ofNat_of_lt (show device.pageSize < 2 ^ 31 by omega)
  have hnonneg : 0 ≤ args.page.toInt * device.pageSize :=
    Int.mul_nonneg hpage (Int.natCast_nonneg _)
  -- the limits of a device keep the product in 31 bits, so that only the sum may wrap
  have hbound : args.page.toInt * device.pageSize ≤ 4096 * 0x10000 :=
    Int.mul_le_mul (by omega) (by omega) (Int.natCast_nonneg _) (by omega)
  have hoffset := args.offset.toInt_lt
  have hoffset' := args.offset.le_toInt
  rw [Device.getMemoryOffset, BitVec.toInt_add, BitVec.toInt_mul, hsize', Int.add_bmod_bmod, start,
    Int.bmod_def]
  split_ifs <;> omega

/-- The size of the memory. -/
theorem toInt_totalRam (hlimits : device.MemoryLimits) :
    (device.getMemoryOffset (BitVec.ofNat 32 m) 0).toInt = m * device.pageSize := by
  obtain ⟨hpages, hsize⟩ := hlimits
  have hbound : m * device.pageSize ≤ 4096 * 0x10000 := Nat.mul_le_mul hpages hsize
  have hzero (a : Aint) : 0 + a = a := BitVec.zero_add a
  rw [Device.getMemoryOffset, hzero, ← BitVec.ofNat_mul, toInt_ofNat_of_lt (by omega),
    Int.natCast_mul]

end SaveDevArguments

/-- The checks of `SAVEDEV` behind the one of the page. -/
theorem saveDeviceRegion_iff {device : Device n m} (hlimits : device.MemoryLimits)
    {args : SaveDevArguments} (hpage : 0 ≤ args.page.toInt) (hpage' : args.page.toInt < m)
    (hfits : args.Fits device) :
    ((saveDeviceRegion device args).request.isSome ↔ args.InsideFrom device) ∧
      (args.InsideFrom device → (saveDeviceRegion device args).request
        = some (device.getMemoryOffset args.page args.offset, args.length) ∧
        (device.getMemoryOffset args.page args.offset).toInt = args.start device) ∧
      (¬args.InsideFrom device → (saveDeviceRegion device args).Refused ∨
        args.length = 0 ∧ (saveDeviceRegion device args).request = none ∧
          ∃ e ∈ (saveDeviceRegion device args).log, e.isWarning lastPass = true) := by
  have hstart := SaveDevArguments.toInt_getMemoryOffset hlimits hpage hpage'
  have htotal := SaveDevArguments.toInt_totalRam hlimits
  have hbound : (m : Int) * device.pageSize < 2 ^ 31 := by
    have : m * device.pageSize ≤ 4096 * 0x10000 := Nat.mul_le_mul hlimits.pages hlimits.pageSize
    norm_cast
    omega
  rw [saveDeviceRegion]
  generalize device.getMemoryOffset args.page args.offset = start at hstart ⊢
  generalize device.getMemoryOffset (BitVec.ofNat 32 m) 0 = totalRam at htotal ⊢
  -- the start is tested first, and the end from it on, in 32 bits
  by_cases hrange : start.toInt < 0 ∨ totalRam.toInt ≤ start.toInt
  · have hinside : ¬args.InsideFrom device := by
      rintro ⟨hlow, hlength, hend⟩
      omega
    rw [if_pos hrange]
    exact ⟨by simp [hinside], fun h => absurd h hinside,
      fun _ => .inl ⟨rfl, _, List.mem_singleton_self _, rfl⟩⟩
  · have heq : start.toInt = args.start device := by omega
    have hsum := hfits (by omega) (by omega)
    rw [if_neg hrange]
    by_cases hlength : args.length.toInt ≤ 0 ∨ totalRam.toInt < (start + args.length).toInt
    · have hinside : ¬args.InsideFrom device := by
        rintro ⟨hlow, hpos, hend⟩
        rw [toInt_add_of_fits (by omega) (by omega)] at hlength
        omega
      rw [if_pos hlength]
      refine ⟨by simp [hinside], fun h => absurd h hinside, fun _ => ?_⟩
      by_cases hzero : args.length = 0
      · -- only a length of zero is no error
        rw [if_neg (not_not_intro hzero)]
        exact .inr ⟨hzero, rfl, _, List.mem_singleton_self _, rfl⟩
      · rw [if_pos hzero]
        exact .inl ⟨rfl, _, List.mem_singleton_self _, rfl⟩
    · rw [toInt_add_of_fits (by omega) (by omega)] at hlength
      have hinside : args.InsideFrom device := ⟨by omega, by omega, by omega⟩
      rw [if_neg (by rwa [toInt_add_of_fits (by omega) (by omega)])]
      exact ⟨by simp [hinside], fun _ => ⟨rfl, heq⟩, fun h => absurd hinside h⟩

/-- Which regions `SAVEDEV` accepts, and what happens to the others. -/
theorem saveDevice_region {device : Device n m} (hlimits : device.MemoryLimits) {s : AsmState n m}
    (hpass : s.pass = lastPass) (hdevice : s.device = some device) (bp : Text)
    {args : SaveDevArguments} (hfits : args.Fits device) :
    ((dirSAVEDEV s bp (some args)).request.isSome ↔ args.Inside device) ∧
      (args.Inside device → (dirSAVEDEV s bp (some args)).request
        = some (device.getMemoryOffset args.page args.offset, args.length) ∧
        (device.getMemoryOffset args.page args.offset).toInt = args.start device) ∧
      (¬args.Inside device → (dirSAVEDEV s bp (some args)).Refused ∨
        args.length = 0 ∧ (dirSAVEDEV s bp (some args)).request = none ∧
          ∃ e ∈ (dirSAVEDEV s bp (some args)).log, e.isWarning lastPass = true) := by
  have hexec : (s.device.isSome && s.pass = lastPass) = true := by
    rw [hdevice, hpass]
    rfl
  rw [dirSAVEDEV, hexec, hdevice]
  simp only [Bool.not_true, Bool.false_and, Bool.false_eq_true, if_false, List.nil_append]
  -- the page is one of the device, or the directive is refused
  by_cases hpage : args.page.toInt < 0 ∨ m ≤ args.page.toInt
  · have hinside : ¬args.Inside device := by
      rintro ⟨h, h', -⟩
      omega
    rw [if_pos hpage]
    exact ⟨by simp [hinside], fun h => absurd h hinside, fun _ => .inl ⟨rfl, _,
      List.mem_singleton_self _, rfl⟩⟩
  · rw [if_neg hpage]
    obtain ⟨hpage, hpage'⟩ := not_or.mp hpage
    have hregion := saveDeviceRegion_iff hlimits (by omega) (by omega) hfits
    have hinside : args.Inside device ↔ args.InsideFrom device := by
      constructor
      · rintro ⟨-, -, h⟩
        exact h
      · intro h
        exact ⟨by omega, by omega, h⟩
    rwa [hinside]

/-- `SAVE3DOS`: the region, and a type that there is. -/
theorem save3dos_region {s : AsmState n m} (hpass : s.pass = lastPass)
    (hdevice : s.device.isSome = true) (bp : Text) {args : Save3DosArguments}
    (hfits : SumFits args.address args.size) :
    ((dirSAVE3DOS s bp (some args)).request.isSome
        ↔ Inside64ki args.address args.size ∧ args.type.toNat < 4) ∧
      (¬Inside64ki args.address args.size → (dirSAVE3DOS s bp (some args)).Refused) ∧
      ∀ r, (dirSAVE3DOS s bp (some args)).request = some r →
        r.address = args.address ∧ r.size = args.size := by
  have htype : args.type.toNat < 4 ↔
      args.type = 0 ∨ (args.type = 1 ∨ args.type = 2) ∨ args.type = 3 := by
    simp only [← BitVec.toNat_inj, BitVec.reduceToNat]
    omega
  have hrequest : ∀ r : Save3DosArguments, (s.request r).request = some r := fun r => if_pos hpass
  have hsome : s.device.isNone = false := by
    rw [← Option.not_isSome, hdevice]
    rfl
  rw [dirSAVE3DOS, hsome, htype, ← outsideOf64ki_eq_false_iff hfits]
  dsimp only
  rw [if_neg Bool.false_ne_true]
  cases houtside : outsideOf64ki args.address args.size with
  | true =>
    rw [if_pos rfl]
    exact ⟨by simp [SaveOutcome.error], fun _ => SaveOutcome.refused_error rfl,
      by simp [SaveOutcome.error]⟩
  | false =>
    rw [if_neg Bool.false_ne_true]
    have hsame : ∀ a r : Save3DosArguments, (s.request a).request = some r →
        a.address = args.address ∧ a.size = args.size → r.address = args.address ∧ r.size = args.size := by
      intro a r hr ha
      rw [hrequest, Option.some.injEq] at hr
      exact hr ▸ ha
    -- behind the region, the type decides: there are four of them
    by_cases h0 : args.type = 0
    · rw [if_pos h0]
      exact ⟨iff_of_true (by simp [hrequest]) ⟨rfl, .inl h0⟩, by simp, fun r hr => hsame _ r hr ⟨rfl, rfl⟩⟩
    · rw [if_neg h0]
      by_cases h12 : args.type = 1 ∨ args.type = 2
      · rw [if_pos h12]
        exact ⟨iff_of_true (by simp [hrequest]) ⟨rfl, .inr (.inl h12)⟩, by simp,
          fun r hr => hsame _ r hr ⟨rfl, rfl⟩⟩
      · rw [if_neg h12]
        by_cases h3 : args.type = 3
        · rw [if_pos h3]
          exact ⟨iff_of_true (by simp [hrequest]) ⟨rfl, .inr (.inr h3)⟩, by simp,
            fun r hr => hsame _ r hr ⟨rfl, rfl⟩⟩
        · rw [if_neg h3]
          have hnone : ¬(args.type = 0 ∨ (args.type = 1 ∨ args.type = 2) ∨ args.type = 3) := by
            rintro (h | h | h)
            · exact h0 h
            · exact h12 h
            · exact h3 h
          exact ⟨iff_of_false (by simp [SaveOutcome.error]) fun h => hnone h.2, by simp,
            by simp [SaveOutcome.error]⟩

/-- `SAVEAMSDOS`. -/
theorem saveAmsdos_region {s : AsmState n m} (hpass : s.pass = lastPass)
    (hdevice : s.device.isSome = true) (bp : Text) {args : SaveAmsdosArguments}
    (hfits : SumFits args.address args.size) :
    ((dirSAVEAMSDOS s bp (some args)).request.isSome ↔ Inside64ki args.address args.size) ∧
      (¬Inside64ki args.address args.size → (dirSAVEAMSDOS s bp (some args)).Refused) ∧
      ∀ r, (dirSAVEAMSDOS s bp (some args)).request = some r →
        r.address = args.address ∧ r.size = args.size := by
  have hsome : s.device.isNone = false := by
    rw [← Option.not_isSome, hdevice]
    rfl
  rw [dirSAVEAMSDOS, hsome, ← outsideOf64ki_eq_false_iff hfits]
  dsimp only
  rw [if_neg Bool.false_ne_true]
  cases houtside : outsideOf64ki args.address args.size with
  | true =>
    rw [if_pos rfl]
    exact ⟨by simp [SaveOutcome.error], fun _ => SaveOutcome.refused_error rfl,
      by simp [SaveOutcome.error]⟩
  | false =>
    rw [if_neg Bool.false_ne_true]
    refine ⟨by simp [AsmState.request, hpass], by simp, fun r hr => ?_⟩
    rw [AsmState.request, if_pos hpass, Option.some.injEq] at hr
    exact hr ▸ ⟨rfl, rfl⟩

/-- `SAVEHEX`. -/
theorem saveHex_region {s : AsmState n m} (hpass : s.pass = lastPass)
    (hdevice : s.device.isSome = true) (bp : Text) {args : SaveHexArguments}
    (hfits : SumFits args.address args.size) :
    ((dirSAVEHEX s bp (some args)).request.isSome ↔ Inside64ki args.address args.size) ∧
      (¬Inside64ki args.address args.size → (dirSAVEHEX s bp (some args)).Refused) ∧
      ∀ r, (dirSAVEHEX s bp (some args)).request = some r →
        r.address = args.address ∧ r.size = args.size := by
  have hsome : s.device.isNone = false := by
    rw [← Option.not_isSome, hdevice]
    rfl
  rw [dirSAVEHEX, hsome, ← outsideOf64ki_eq_false_iff hfits]
  rw [if_neg Bool.false_ne_true]
  cases houtside : outsideOf64ki args.address args.size with
  | true =>
    rw [if_pos rfl]
    exact ⟨by simp [SaveOutcome.error], fun _ => SaveOutcome.refused_error rfl,
      by simp [SaveOutcome.error]⟩
  | false =>
    rw [if_neg Bool.false_ne_true]
    refine ⟨?_, by simp, fun r hr => ?_⟩
    · split_ifs <;> simp [AsmState.request, hpass]
    · split_ifs at hr <;> rw [AsmState.request, if_pos hpass, Option.some.injEq] at hr <;>
        exact hr ▸ ⟨rfl, rfl⟩

/-- `SAVECDT BASIC`, whose length has 16 bits. -/
theorem saveCdtBasic_region (lp : Text) {start length : Aint}
    (hfits : length.toInt < 0x10000 → SumFits start length) :
    ((dirSAVECDTBasic lp (some (start, length))).request.isSome
        ↔ Inside64ki start length ∧ length.toInt < 0x10000) ∧
      (¬Inside64ki start length → (dirSAVECDTBasic lp (some (start, length))).Refused) ∧
      ∀ r, (dirSAVECDTBasic lp (some (start, length))).request = some r → r = (start, length) := by
  -- the test of the source, which also bounds the length
  have htest : (start.toInt < 0 ∨ length.toInt < 1 ∨ 0x10000 ≤ length.toInt ∨
      0x10000 < (start + length).toInt) ↔
      ¬(Inside64ki start length ∧ length.toInt < 0x10000) := by
    by_cases hlength : length.toInt < 0x10000
    · have houtside := outsideOf64ki_eq_false_iff (hfits hlength)
      rw [← houtside]
      simp only [outsideOf64ki, Bool.or_eq_false_iff, decide_eq_false_iff_not]
      omega
    · exact iff_of_true (by omega) fun h => hlength h.2
  rw [dirSAVECDTBasic]
  by_cases hinside : Inside64ki start length ∧ length.toInt < 0x10000
  · rw [if_neg (fun h => htest.mp h hinside)]
    exact ⟨by simp [hinside], fun h => absurd hinside.1 h, by simp⟩
  · rw [if_pos (htest.mpr hinside)]
    exact ⟨by simp [SaveOutcome.error, hinside], fun _ => SaveOutcome.refused_error rfl,
      by simp [SaveOutcome.error]⟩

/-! ### All directives -/

/-- A file is written exactly for a region of the memory, and for any other an error is counted, except
for a `SAVEDEV` of length 0, which is warned about; as long as the sums of the checks fit. -/
theorem save_regions {device : Device n m} (hlimits : device.MemoryLimits) {s : AsmState n m}
    (hpass : s.pass = lastPass) (hdevice : s.device = some device) (bp lp : Text) :
    (∀ args : SaveDevArguments, args.Fits device →
      ((dirSAVEDEV s bp (some args)).request.isSome ↔ args.Inside device) ∧
      (args.Inside device → (dirSAVEDEV s bp (some args)).request
        = some (device.getMemoryOffset args.page args.offset, args.length) ∧
        (device.getMemoryOffset args.page args.offset).toInt = args.start device) ∧
      (¬args.Inside device → (dirSAVEDEV s bp (some args)).Refused ∨
        args.length = 0 ∧ (dirSAVEDEV s bp (some args)).request = none ∧
          ∃ e ∈ (dirSAVEDEV s bp (some args)).log, e.isWarning lastPass = true)) ∧
    (∀ args : Save3DosArguments, SumFits args.address args.size →
      ((dirSAVE3DOS s bp (some args)).request.isSome
        ↔ Inside64ki args.address args.size ∧ args.type.toNat < 4) ∧
      (¬Inside64ki args.address args.size → (dirSAVE3DOS s bp (some args)).Refused) ∧
      ∀ r, (dirSAVE3DOS s bp (some args)).request = some r →
        r.address = args.address ∧ r.size = args.size) ∧
    (∀ args : SaveAmsdosArguments, SumFits args.address args.size →
      ((dirSAVEAMSDOS s bp (some args)).request.isSome ↔ Inside64ki args.address args.size) ∧
      (¬Inside64ki args.address args.size → (dirSAVEAMSDOS s bp (some args)).Refused) ∧
      ∀ r, (dirSAVEAMSDOS s bp (some args)).request = some r →
        r.address = args.address ∧ r.size = args.size) ∧
    (∀ args : SaveHexArguments, SumFits args.address args.size →
      ((dirSAVEHEX s bp (some args)).request.isSome ↔ Inside64ki args.address args.size) ∧
      (¬Inside64ki args.address args.size → (dirSAVEHEX s bp (some args)).Refused) ∧
      ∀ r, (dirSAVEHEX s bp (some args)).request = some r →
        r.address = args.address ∧ r.size = args.size) ∧
    (∀ start length : Aint, (length.toInt < 0x10000 → SumFits start length) →
      ((dirSAVECDTBasic lp (some (start, length))).request.isSome
        ↔ Inside64ki start length ∧ length.toInt < 0x10000) ∧
      (¬Inside64ki start length → (dirSAVECDTBasic lp (some (start, length))).Refused) ∧
      ∀ r, (dirSAVECDTBasic lp (some (start, length))).request = some r → r = (start, length)) := by
  have hsome : s.device.isSome = true := by
    rw [hdevice]
    rfl
  exact ⟨fun args hfits => saveDevice_region hlimits hpass hdevice bp hfits,
    fun args hfits => save3dos_region hpass hsome bp hfits,
    fun args hfits => saveAmsdos_region hpass hsome bp hfits,
    fun args hfits => saveHex_region hpass hsome bp hfits,
    fun start length hfits => saveCdtBasic_region lp hfits⟩

/-! ### Examples -/

/-- The last pass with a ZX Spectrum 128. -/
def exampleSave : AsmState 4 8 :=
  { AsmState.start 4 8 with pass := lastPass, device := some (zxSpectrum128 0), currentSlot := some 3 }

/-- `SAVE3DOS` of the last 256 bytes. -/
theorem save_regions_exampleSave :
    (dirSAVE3DOS exampleSave [] (some { address := 0xFF00, size := 0x100 })).request.isSome = true :=
  (((save_regions ⟨by decide, by decide⟩ rfl rfl [] []).2.1 { address := 0xFF00, size := 0x100 }
    (by unfold SumFits; decide)).1).mpr ⟨by unfold Inside64ki; decide, by decide⟩

/-- A `SAVEDEV` of no bytes is no error; and the checks miss a sum that wraps around. -/
theorem save_regions_exceptions :
    (¬(dirSAVEDEV exampleSave [] (some ⟨0, 0, 0⟩)).Refused) ∧
      (dirSAVEDEV exampleSave [] (some ⟨0, 1, 0x7FFFFFFF⟩)).request = some (1, 0x7FFFFFFF) ∧
      (dirSAVECDTBasic [] (some (0x7FFFFFFF, 1))).request = some (0x7FFFFFFF, 1) := by
  refine ⟨?_, by decide, by decide⟩
  rintro ⟨-, e, he, herror⟩
  have hlog : (dirSAVEDEV exampleSave [] (some ⟨0, 0, 0⟩)).log
      = [.warning "[SAVEDEV] zero length requested" none .pass3] := by decide
  rw [hlog, List.mem_singleton] at he
  rw [he] at herror
  exact absurd herror (by decide)

end Sjasmplus
