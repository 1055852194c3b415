import Sjasmplus.Emit

/-!
# `DISP` is transparent for the memory image

`MemoryImage` is the abstract machine behind the emitting functions: the device, one address where
the next byte goes, and the output.  It knows nothing of displacement.  Every emitting function
refines its operation on the image, whatever the displacement mode (`image_run`), so a run inside
`DISP` and the same run outside it leave the same image.

The lines of `DISP` and `ENT` are two more lines, and each line starts with a check of the emit
address that may map the next page.  That check has nothing left to do a second time
(`prepare_idem`), so `DISP` is transparent up to it: `runDisplaced_transparent` compares the state
behind `ENT` with the one in which the next line starts without the pair.
-/

namespace Sjasmplus

/-- The memory image: what the emitted bytes have become. -/
structure MemoryImage (n m : Nat) where
  lastPass : Bool
  device : Option (Device n m)
  address : Int
  output : List Byte
  errors : List Event

namespace MemoryImage

variable {n m : Nat}

/-- The check of the address: it may map the next page, and report an error. -/
def checkPage (level : CheckPageLevel) (device : Device n m) (im : MemoryImage n m) :
    MemoryImage n m :=
  let r := device.check im.lastPass level im.address
  { im with
    device := some r.device
    address := im.address - r.back
    errors := im.errors ++ r.log.filter Event.isErrorCall }

/-- A byte goes to the memory and to the output. -/
def placeByte (byte : Byte) (preserveDeviceMemory : Bool) (im : MemoryImage n m) :
    MemoryImage n m :=
  match im.device with
  | some device =>
    let im := im.checkPage .emit device
    { im with
      device := im.device.map (EmitState.writeMemory byte preserveDeviceMemory im.lastPass) }
  | none => im

def advance (len : Int) (im : MemoryImage n m) : MemoryImage n m :=
  { im with address := im.address + len }

def emitByte (byte : Byte) (preserveDeviceMemory : Bool) (im : MemoryImage n m) :
    MemoryImage n m :=
  let im := if im.lastPass then { im with output := im.output ++ [byte] } else im
  (im.placeByte byte preserveDeviceMemory).advance 1

/-- The check in front of a line. -/
def prepare (im : MemoryImage n m) : MemoryImage n m :=
  match im.device with
  | some device => im.checkPage .noEmit device
  | none => im

/-- A block of one byte, with a check in front of each. -/
def emitBlock (byte : Byte) (len : Int) (preserveDeviceMemory : Bool) (im : MemoryImage n m) :
    MemoryImage n m :=
  if len ≤ 0 then (im.advance len).prepare
  else (emitByte byte preserveDeviceMemory)^[len.toNat] im

def emitBytes (bytes : List Byte) (im : MemoryImage n m) : MemoryImage n m :=
  bytes.foldl (fun im byte => im.emitByte byte false) im

end MemoryImage

/-- The bytes of a word, the low one first. -/
def wordBytes (word : Aint) : List Byte :=
  [(word &&& 0xFF).setWidth 8, (word.sshiftRight 8 &&& 0xFF).setWidth 8]

namespace Emission

variable {n m : Nat}

/-- The effect of an emission on the memory image. -/
def onImage (im : MemoryImage n m) : Emission → MemoryImage n m
  | byte b => im.emitByte (b.setWidth 8) false
  | word w => im.emitBytes (wordBytes w)
  | bytes bs =>
    MemoryImage.emitBytes (bs.map (BitVec.setWidth 8))
      (if bs = [] then
        { im with errors := im.errors ++ [.error "Illegal instruction" none .ifFirst] }
      else im)
  | words ws => im.emitBytes (ws.flatMap wordBytes)
  | block b len preserveDeviceMemory => im.emitBlock (b.setWidth 8) len preserveDeviceMemory

end Emission

/-- The effect of a statement on the memory image. -/
def statementOnImage {n m : Nat} (im : MemoryImage n m) (emissions : List Emission) :
    MemoryImage n m :=
  emissions.foldl Emission.onImage im.prepare

/-! ### The emitting functions refine the image -/

namespace EmitState

variable {n m : Nat} (s : EmitState n m)

/-- The memory image of a state. -/
def image : MemoryImage n m :=
  ⟨s.pass = lastPass, s.device, s.emitAddress, s.output, s.log.filter Event.isErrorCall⟩

variable {s}

/-- Two states with the same device, emit address and output have the same image. -/
theorem image_eq {t : EmitState n m} (hpass : s.pass = t.pass) (hdevice : s.device = t.device)
    (haddress : s.emitAddress = t.emitAddress) (houtput : s.output = t.output)
    (hlog : s.log.filter Event.isErrorCall = t.log.filter Event.isErrorCall) :
    s.image = t.image := by
  unfold image
  rw [hdevice, haddress, houtput, hlog]
  simp only [hpass]

variable (s)

theorem image_report (l : List Event) : (s.report l).image
    = { s.image with errors := s.image.errors ++ l.filter Event.isErrorCall } := by
  unfold image report
  rw [List.filter_append]
  rfl

/-- The warning about the limit is no error. -/
theorem filter_ramLimitWarning (address : Int) (by' : String) :
    (s.ramLimitWarning address by').filter Event.isErrorCall = [] := by
  unfold ramLimitWarning
  split_ifs <;> rfl

theorem filter_log_append {c : Prop} [Decidable c] (address : Int) (by' : String) :
    (s.log ++ if c then s.ramLimitWarning address by' else []).filter Event.isErrorCall
      = s.log.filter Event.isErrorCall := by
  split_ifs
  · rw [List.filter_append, filter_ramLimitWarning, List.append_nil]
  · rw [List.append_nil]

/-- The limit checks touch the displaced address and the warnings only. -/
theorem image_checkCurAddress : s.checkCurAddress.image = s.image := by
  unfold checkCurAddress
  by_cases h : 0x10000 ≤ s.curAddress
  · rw [if_pos h]
    refine image_eq rfl rfl ?_ rfl (filter_log_append s _ _)
    unfold emitAddress displaced
    by_cases hdisp : s.pseudoORG = .none <;> simp [hdisp]
  · rw [if_neg h]
    rfl

theorem image_checkAdrdisp : s.checkAdrdisp.image = s.image := by
  unfold checkAdrdisp
  by_cases h : s.displaced ∧ 0x10000 ≤ s.adrdisp
  · rw [if_pos h]
    exact image_eq rfl rfl rfl rfl (filter_log_append s _ _)
  · rw [if_neg h]
    rfl

/-- So the check of the limit is not seen in the image. -/
theorem image_checkRamLimitExceeded : s.checkRamLimitExceeded.image = s.image := by
  unfold checkRamLimitExceeded
  split_ifs
  · rfl
  · rw [image_checkAdrdisp, image_checkCurAddress]

/-- Nor is the displaced address, which wraps on its own. -/
theorem image_wrapDisplaced (level : CheckPageLevel) : (s.wrapDisplaced level).image = s.image := by
  unfold wrapDisplaced
  split_ifs with h
  · refine image_eq rfl rfl ?_ rfl ?_
    · have hdisp : s.displaced = true := h.1
      show (if s.displaced then s.adrdisp else _) = if s.displaced then s.adrdisp else _
      rw [if_pos hdisp, if_pos hdisp]
    · show (s.log ++ s.ramLimitWarning _ _).filter _ = _
      rw [List.filter_append, filter_ramLimitWarning, List.append_nil]
  · rfl

theorem image_advance (len : Int) :
    (s.advance len).image = s.image.advance len := by
  unfold advance MemoryImage.advance image emitAddress displaced
  by_cases hdisp : s.pseudoORG = .none <;> simp [hdisp]

theorem image_checkPage (level : CheckPageLevel) (device : Device n m) :
    (s.checkPage level device).image = s.image.checkPage level device := by
  have hwrap := s.image_wrapDisplaced level
  unfold checkPage
  generalize s.wrapDisplaced level = t at hwrap ⊢
  rw [← hwrap]
  unfold MemoryImage.checkPage image emitAddress displaced report
  by_cases hdisp : t.pseudoORG = .none <;> simp [hdisp]

theorem image_placeByte (byte : Byte) (preserveDeviceMemory : Bool) :
    (s.placeByte byte preserveDeviceMemory).image
      = s.image.placeByte byte preserveDeviceMemory := by
  unfold placeByte MemoryImage.placeByte
  rcases hdevice : s.device with _ | device
  · have hnone : s.image.device = none := hdevice
    simp only [hnone]
    exact s.image_checkRamLimitExceeded
  · have hsome : s.image.device = some device := hdevice
    simp only [hsome, ← s.image_checkPage .emit device]
    rfl

/-- A byte, in any mode, is a byte of the image. -/
theorem image_emitByteNoListing (byte : Byte) (preserveDeviceMemory : Bool) :
    (s.emitByteNoListing byte preserveDeviceMemory).image
      = s.image.emitByte byte preserveDeviceMemory := by
  unfold emitByteNoListing MemoryImage.emitByte
  rw [image_advance, image_placeByte]
  congr 2
  by_cases hpass : s.pass = lastPass <;> simp [image, hpass, emitAddress, displaced]

/-- The start of a line is the check of the emit address. -/
theorem image_prepareLine : s.prepareLine.image = s.image.prepare := by
  unfold prepareLine MemoryImage.prepare
  rcases hdevice : s.device with _ | device
  · have hnone : s.image.device = none := hdevice
    simp only [hnone]
  · have hsome : s.image.device = some device := hdevice
    simp only [hsome]
    exact s.image_checkPage .noEmit device

theorem image_emitByte (byte : Aint) :
    (s.emitByte byte).image = s.image.emitByte (byte.setWidth 8) false :=
  s.image_emitByteNoListing _ _

theorem image_emitWord (word : Aint) :
    (s.emitWord word).image = s.image.emitBytes (wordBytes word) := by
  unfold emitWord
  rw [image_emitByte, image_emitByte]
  rfl

/-- A fold of an emitting function refines the fold of its effect. -/
theorem image_foldl {α : Type} {f : EmitState n m → α → EmitState n m}
    {g : MemoryImage n m → α → MemoryImage n m} (h : ∀ s a, (f s a).image = g s.image a)
    (l : List α) : (l.foldl f s).image = l.foldl g s.image :=
  (List.foldl_hom image fun s a => (h s a).symm).symm

/-- A list of bytes; an empty one is an error of the caller. -/
theorem image_emitBytes (bytes : List Aint) :
    (s.emitBytes bytes).image = MemoryImage.emitBytes (bytes.map (BitVec.setWidth 8))
      (if bytes = [] then
        { s.image with errors := s.image.errors ++ [.error "Illegal instruction" none .ifFirst] }
      else s.image) := by
  have himage : (if bytes = [] then
        s.report [.error "Illegal instruction" none .ifFirst] else s).image
      = if bytes = [] then
        { s.image with errors := s.image.errors ++ [.error "Illegal instruction" none .ifFirst] }
      else s.image := by
    split_ifs
    · exact s.image_report _
    · rfl
  unfold emitBytes MemoryImage.emitBytes
  rw [List.foldl_map, ← himage]
  exact image_foldl _ image_emitByte bytes

theorem image_emitWords (words : List Aint) :
    (s.emitWords words).image = s.image.emitBytes (words.flatMap wordBytes) := by
  unfold emitWords MemoryImage.emitBytes
  rw [List.foldl_flatMap]
  exact image_foldl s image_emitWord words

theorem image_emitBlock (byte : Aint) (len : Int) (preserveDeviceMemory : Bool) :
    (s.emitBlock byte len preserveDeviceMemory).image
      = s.image.emitBlock (byte.setWidth 8) len preserveDeviceMemory := by
  unfold emitBlock MemoryImage.emitBlock
  -- an empty block only moves the address and is checked; a longer one is its bytes
  by_cases hlen : len ≤ 0
  · rw [if_pos hlen, if_pos hlen, ← image_advance]
    dsimp only
    generalize s.advance len = t
    unfold MemoryImage.prepare
    rcases hdevice : t.device with _ | device
    · have hnone : t.image.device = none := hdevice
      simp only [hnone]
      exact t.image_checkRamLimitExceeded
    · have hsome : t.image.device = some device := hdevice
      simp only [hsome]
      exact t.image_checkPage .noEmit device
  · rw [if_neg hlen, if_neg hlen]
    have hsemi : Function.Semiconj image
        (emitByteNoListing (n := n) (m := m) (byte.setWidth 8) preserveDeviceMemory)
        (MemoryImage.emitByte (byte.setWidth 8) preserveDeviceMemory) := fun s =>
      s.image_emitByteNoListing _ _
    exact hsemi.iterate_right len.toNat s

end EmitState

section Refinement

variable {n m : Nat} (s : EmitState n m)

/-- An emission refines its effect on the memory image, displaced or not. -/
theorem image_run (e : Emission) : (e.run s).image = e.onImage s.image := by
  cases e with
  | byte b => exact s.image_emitByte b
  | word w => exact s.image_emitWord w
  | bytes bs => exact s.image_emitBytes bs
  | words ws => exact s.image_emitWords ws
  | block b len preserveDeviceMemory => exact s.image_emitBlock _ _ _

/-- A statement is its emissions, behind the check of its line. -/
theorem image_runStatement (emissions : List Emission) :
    (runStatement s emissions).image = statementOnImage s.image emissions := by
  unfold runStatement statementOnImage
  rw [EmitState.image_foldl _ image_run, EmitState.image_prepareLine]

/-- **Refinement**: a run of statements leaves the memory image that their effects leave, whatever
the displacement mode. -/
theorem image_runStatements (statements : List (List Emission)) :
    (runStatements s statements).image = statements.foldl statementOnImage s.image :=
  EmitState.image_foldl s image_runStatement statements

end Refinement

/-! ### Errors only accumulate -/

namespace MemoryImage

variable {n m : Nat}

/-- The operation keeps the errors reported so far. -/
def KeepsErrors (f : MemoryImage n m → MemoryImage n m) : Prop :=
  ∀ im, im.errors <+: (f im).errors

theorem KeepsErrors.comp {f g : MemoryImage n m → MemoryImage n m} (hf : KeepsErrors f)
    (hg : KeepsErrors g) : KeepsErrors fun im => g (f im) :=
  fun im => (hf im).trans (hg (f im))

/-- Steps that keep the errors, one behind the other. -/
theorem KeepsErrors.foldl {α : Type} {f : MemoryImage n m → α → MemoryImage n m}
    (hf : ∀ a, KeepsErrors fun im => f im a) (l : List α) : KeepsErrors fun im => l.foldl f im := by
  induction l with
  | nil => exact fun im => List.prefix_refl _
  | cons a l ih => exact (hf a).comp ih

theorem checkPage_keepsErrors (level : CheckPageLevel) (device : Device n m) :
    KeepsErrors (checkPage level device) :=
  fun im => List.prefix_append im.errors _

theorem prepare_keepsErrors : KeepsErrors (prepare (n := n) (m := m)) := by
  intro im
  unfold prepare
  split
  · exact checkPage_keepsErrors _ _ im
  · exact List.prefix_refl _

theorem emitByte_keepsErrors (byte : Byte) (preserveDeviceMemory : Bool) :
    KeepsErrors (emitByte (n := n) (m := m) byte preserveDeviceMemory) := by
  intro im
  have hplace : ∀ im : MemoryImage n m,
      im.errors <+: (im.placeByte byte preserveDeviceMemory).errors := by
    intro im
    unfold placeByte
    split
    · exact checkPage_keepsErrors _ _ im
    · exact List.prefix_refl _
  unfold emitByte
  split_ifs
  · exact hplace { im with output := im.output ++ [byte] }
  · exact hplace im

theorem emitBytes_keepsErrors (bytes : List Byte) :
    KeepsErrors (emitBytes (n := n) (m := m) bytes) :=
  KeepsErrors.foldl (fun byte => emitByte_keepsErrors byte false) bytes

theorem emitBlock_keepsErrors (byte : Byte) (len : Int) (preserveDeviceMemory : Bool) :
    KeepsErrors (emitBlock (n := n) (m := m) byte len preserveDeviceMemory) := by
  intro im
  unfold emitBlock
  split_ifs
  · exact prepare_keepsErrors (im.advance len)
  · generalize len.toNat = k
    induction k generalizing im with
    | zero => exact List.prefix_refl _
    | succ k ih =>
      rw [Function.iterate_succ_apply]
      exact (emitByte_keepsErrors byte preserveDeviceMemory im).trans (ih _)

end MemoryImage

theorem Emission.onImage_keepsErrors {n m : Nat} (e : Emission) :
    MemoryImage.KeepsErrors fun im : MemoryImage n m => e.onImage im := by
  cases e with
  | byte b => exact MemoryImage.emitByte_keepsErrors _ _
  | word w => exact MemoryImage.emitBytes_keepsErrors _
  | bytes bs =>
    intro im
    refine List.IsPrefix.trans ?_ (MemoryImage.emitBytes_keepsErrors (bs.map (BitVec.setWidth 8)) _)
    split_ifs
    · exact List.prefix_append _ _
    · exact List.prefix_refl _
  | words ws => exact MemoryImage.emitBytes_keepsErrors _
  | block b len preserveDeviceMemory => exact MemoryImage.emitBlock_keepsErrors _ _ _

theorem statements_keepsErrors {n m : Nat} (statements : List (List Emission)) :
    MemoryImage.KeepsErrors fun im : MemoryImage n m => statements.foldl statementOnImage im :=
  MemoryImage.KeepsErrors.foldl
    (fun emissions => MemoryImage.prepare_keepsErrors.comp
      (MemoryImage.KeepsErrors.foldl Emission.onImage_keepsErrors emissions)) statements

/-! ### Emitting keeps the displacement mode -/

namespace EmitState

variable {n m : Nat}

/-- The displacement stays as it is. -/
def KeepsMode (f : EmitState n m → EmitState n m) : Prop := ∀ s, (f s).pseudoORG = s.pseudoORG

theorem KeepsMode.foldl {α : Type} {f : EmitState n m → α → EmitState n m}
    (hf : ∀ a, KeepsMode fun s => f s a) (l : List α) : KeepsMode fun s => l.foldl f s := by
  induction l with
  | nil => exact fun s => rfl
  | cons a l ih => exact fun s => (ih (f s a)).trans (hf a s)

theorem checkRamLimitExceeded_keepsMode : KeepsMode (checkRamLimitExceeded (n := n) (m := m)) := by
  intro s
  unfold checkRamLimitExceeded checkCurAddress checkAdrdisp
  split_ifs <;> rfl

theorem checkPage_keepsMode (level : CheckPageLevel) (device : Device n m) :
    KeepsMode (checkPage level device) := by
  intro s
  have hwrap : (s.wrapDisplaced level).pseudoORG = s.pseudoORG := by
    unfold wrapDisplaced
    split_ifs <;> rfl
  exact hwrap

theorem prepareLine_keepsMode : KeepsMode (prepareLine (n := n) (m := m)) := by
  intro s
  unfold prepareLine
  split
  · exact checkPage_keepsMode _ _ s
  · rfl

theorem emitByteNoListing_keepsMode (byte : Byte) (preserveDeviceMemory : Bool) :
    KeepsMode (emitByteNoListing (n := n) (m := m) byte preserveDeviceMemory) := by
  intro s
  have hplace : ∀ s : EmitState n m,
      (s.placeByte byte preserveDeviceMemory).pseudoORG = s.pseudoORG := by
    intro s
    unfold placeByte
    split
    · rename_i device _
      exact checkPage_keepsMode .emit device s
    · exact checkRamLimitExceeded_keepsMode s
  refine (hplace _).trans ?_
  split_ifs <;> rfl

theorem emitBlock_keepsMode (byte : Aint) (len : Int) (preserveDeviceMemory : Bool) :
    KeepsMode (emitBlock (n := n) (m := m) byte len preserveDeviceMemory) := by
  intro s
  unfold emitBlock
  split_ifs
  · dsimp only
    split
    · exact checkPage_keepsMode _ _ _
    · exact checkRamLimitExceeded_keepsMode _
  · generalize len.toNat = k
    induction k generalizing s with
    | zero => rfl
    | succ k ih =>
      rw [Function.iterate_succ_apply]
      exact (ih _).trans (emitByteNoListing_keepsMode _ _ s)

end EmitState

theorem Emission.run_keepsMode {n m : Nat} (e : Emission) :
    EmitState.KeepsMode fun s : EmitState n m => e.run s := by
  have hword : ∀ w, EmitState.KeepsMode (EmitState.emitWord (n := n) (m := m) w) := fun w s =>
    (EmitState.emitByteNoListing_keepsMode _ _ _).trans
      (EmitState.emitByteNoListing_keepsMode _ _ s)
  cases e with
  | byte b => exact EmitState.emitByteNoListing_keepsMode _ _
  | word w => exact hword w
  | bytes bs =>
    intro s
    refine (EmitState.KeepsMode.foldl
      (fun b => EmitState.emitByteNoListing_keepsMode (b.setWidth 8) false) bs _).trans ?_
    split_ifs <;> rfl
  | words ws => exact EmitState.KeepsMode.foldl hword ws
  | block b len preserveDeviceMemory => exact EmitState.emitBlock_keepsMode _ _ _

theorem runStatements_keepsMode {n m : Nat} (statements : List (List Emission)) :
    EmitState.KeepsMode fun s : EmitState n m => runStatements s statements :=
  EmitState.KeepsMode.foldl (fun emissions s =>
    (EmitState.KeepsMode.foldl Emission.run_keepsMode emissions _).trans
      (EmitState.prepareLine_keepsMode s)) statements

/-! ### `DISP` and `ENT` -/

/-- Preparing a line without an error leaves nothing to prepare for the next one. -/
theorem MemoryImage.prepare_idem {n m : Nat} {im : MemoryImage n m}
    (hok : im.prepare.errors = im.errors) : im.prepare.prepare = im.prepare := by
  rcases hdevice : im.device with _ | device
  · have hprepare : im.prepare = im := by simp only [prepare, hdevice]
    rw [hprepare, hprepare]
  · have hprepare : im.prepare = im.checkPage .noEmit device := by simp only [prepare, hdevice]
    rw [hprepare] at hok ⊢
    have hlog : (device.check im.lastPass .noEmit im.address).log = [] := by
      have hfilter : (device.check im.lastPass .noEmit im.address).log.filter Event.isErrorCall
          = [] := List.append_cancel_left (hok.trans (List.append_nil _).symm)
      rwa [List.filter_eq_self.mpr (device.isErrorCall_of_mem_check_noEmit _ _)] at hfilter
    have hidem := device.check_noEmit_idem im.lastPass hlog
    show (im.checkPage .noEmit device).checkPage .noEmit
      (device.check im.lastPass .noEmit im.address).device = im.checkPage .noEmit device
    unfold checkPage
    dsimp only
    rw [hidem]
    simp

/-- A line prepared once more in front of statements changes nothing. -/
theorem prepare_statements_prepare {n m : Nat} {im : MemoryImage n m}
    (hok : im.prepare.errors = im.errors) (statements : List (List Emission)) :
    (statements.foldl statementOnImage im.prepare).prepare
      = (statements.foldl statementOnImage im).prepare := by
  have hidem := MemoryImage.prepare_idem hok
  cases statements with
  | nil => exact hidem
  | cons emissions statements =>
    have hfirst : statementOnImage im.prepare emissions = statementOnImage im emissions := by
      unfold statementOnImage
      rw [hidem]
    rw [List.foldl_cons, List.foldl_cons, hfirst]

section DispEnt

variable {n m : Nat} {s : EmitState n m}

/-- The directive was refused: it reports an error and does nothing. -/
def Refused (s t : EmitState n m) : Prop := ∃ e : Event, e.isErrorCall = true ∧ t = s.report [e]

/-- A directive that is refused has reported an error, so a run without errors has none. -/
theorem Refused.errors {t : EmitState n m} (h : Refused s t) :
    s.image.errors <+: t.image.errors ∧ t.image.errors ≠ s.image.errors := by
  obtain ⟨e, he, rfl⟩ := h
  rw [EmitState.image_report]
  refine ⟨List.prefix_append _ _, fun h => ?_⟩
  simp [he] at h

theorem image_enterDisplacement (hmode : s.pseudoORG = .none) (valAdr : Aint) (dispPageNum : Page) :
    (s.enterDisplacement valAdr dispPageNum).image = s.image := by
  have hcheck : (check16u valAdr).filter Event.isErrorCall = [] := by
    unfold check16u checkRange
    split_ifs <;> rfl
  have hlog : (s.log ++ if (s.device.isSome || !s.isLongPtr) = true then check16u valAdr
      else []).filter Event.isErrorCall = s.log.filter Event.isErrorCall := by
    split_ifs
    · rw [List.filter_append, hcheck, List.append_nil]
    · rw [List.append_nil]
  refine EmitState.image_eq rfl rfl ?_ rfl hlog
  unfold EmitState.emitAddress EmitState.displaced
  simp only [EmitState.enterDisplacement, hmode]
  split_ifs <;> simp_all

/-- `DISP` leaves the image alone, or it is refused. -/
theorem image_dirDISP (valAdr : Option Aint) (isResultAffected : Bool)
    (valPageNum : Option (Option Aint)) (hmode : s.pseudoORG = .none) :
    (s.dirDISP valAdr isResultAffected valPageNum).image = s.image ∨
      Refused s (s.dirDISP valAdr isResultAffected valPageNum) := by
  have hdisplaced : s.displaced = false := by simp [EmitState.displaced, hmode]
  unfold EmitState.dirDISP
  rw [hdisplaced, if_neg (by decide)]
  -- every refusal is an error and changes nothing else
  rcases valAdr with _ | valAdr
  · exact Or.inr ⟨_, rfl, rfl⟩
  cases isResultAffected with
  | true => exact Or.inr ⟨_, rfl, rfl⟩
  | false =>
    rcases valPageNum with _ | _ | valPageNum
    · exact Or.inl (image_enterDisplacement hmode valAdr _)
    · exact Or.inr ⟨_, rfl, rfl⟩
    · dsimp only
      rw [if_neg (by decide)]
      split_ifs
      · exact Or.inr ⟨_, rfl, rfl⟩
      · exact Or.inr ⟨_, rfl, rfl⟩
      · exact Or.inl (image_enterDisplacement hmode valAdr _)

variable (s)

/-- `ENT` leaves the image alone and goes on at the emit address, or it is refused. -/
theorem image_dirENT :
    s.dirENT.image = s.image ∧ s.dirENT.curAddress = s.image.address ∨ Refused s s.dirENT := by
  unfold EmitState.dirENT
  split_ifs with hdisplaced
  · exact Or.inr ⟨_, rfl, rfl⟩
  · exact Or.inr ⟨_, rfl, rfl⟩
  · exact Or.inr ⟨_, rfl, rfl⟩
  · have haddress : s.emitAddress = s.adrdisp := if_pos (by simpa using hdisplaced)
    exact Or.inl ⟨EmitState.image_eq rfl rfl haddress.symm rfl rfl, haddress.symm⟩

end DispEnt

/-- The statements between `DISP` and `ENT`, from the line of `DISP` to that of `ENT`. -/
def runDisplaced {n m : Nat} (s : EmitState n m) (valAdr : Option Aint) (isResultAffected : Bool)
    (valPageNum : Option (Option Aint)) (statements : List (List Emission)) : EmitState n m :=
  (runStatements (s.prepareLine.dirDISP valAdr isResultAffected valPageNum)
    statements).prepareLine.dirENT

/-- **`DISP` is transparent**: when `DISP`, the statements and `ENT` report no error, the device (with
its memory and the mapping of its slots), the address counter and the output behind `ENT` are those
with which the next line starts after the same statements without the pair. -/
theorem runDisplaced_transparent {n m : Nat} (s : EmitState n m) (hmode : s.pseudoORG = .none)
    (valAdr : Option Aint) (isResultAffected : Bool) (valPageNum : Option (Option Aint))
    (statements : List (List Emission))
    (hok : (runDisplaced s valAdr isResultAffected valPageNum statements).log.filter
      Event.isErrorCall = s.log.filter Event.isErrorCall) :
    let displaced := runDisplaced s valAdr isResultAffected valPageNum statements
    let plain := (runStatements s statements).prepareLine
    displaced.device = plain.device ∧ displaced.curAddress = plain.curAddress ∧
      displaced.output = plain.output := by
  intro displaced plain
  let start := s.prepareLine
  let entered := start.dirDISP valAdr isResultAffected valPageNum
  let last := (runStatements entered statements).prepareLine
  have hstart : start.image = s.image.prepare := s.image_prepareLine
  have hlast : last.image = (statements.foldl statementOnImage entered.image).prepare := by
    rw [← image_runStatements, ← EmitState.image_prepareLine]
  have hplain : plain.image = (statements.foldl statementOnImage s.image).prepare := by
    rw [← image_runStatements, ← EmitState.image_prepareLine]
  have hmodeStart : start.pseudoORG = .none := (EmitState.prepareLine_keepsMode s).trans hmode
  have hmodePlain : plain.pseudoORG = .none :=
    (EmitState.prepareLine_keepsMode _).trans ((runStatements_keepsMode statements s).trans hmode)
  have hDISP := image_dirDISP valAdr isResultAffected valPageNum hmodeStart
  have hENT := image_dirENT last
  -- no step between reported an error
  have h₁ : s.image.errors <+: start.image.errors := by
    rw [hstart]
    exact MemoryImage.prepare_keepsErrors _
  have h₂ : start.image.errors <+: entered.image.errors := by
    rcases hDISP with h | h
    · rw [h]
    · exact h.errors.1
  have h₃ : entered.image.errors <+: last.image.errors := by
    rw [hlast]
    exact (statements_keepsErrors statements _).trans (MemoryImage.prepare_keepsErrors _)
  have h₄ : last.image.errors <+: displaced.image.errors := by
    rcases hENT with h | h
    · exact h.1 ▸ List.prefix_refl _
    · exact h.errors.1
  have hok : displaced.image.errors = s.image.errors := hok
  have hlength := congrArg List.length hok
  have hle₁ := h₁.length_le
  have hle₂ := h₂.length_le
  have hle₃ := h₃.length_le
  have hle₄ := h₄.length_le
  have heq₁ := h₁.eq_of_length (by omega)
  have heq₂ := h₂.eq_of_length (by omega)
  have heq₄ := h₄.eq_of_length (by omega)
  have hentered : entered.image = start.image :=
    hDISP.resolve_right fun h => h.errors.2 heq₂.symm
  obtain ⟨hleft, haddress⟩ := hENT.resolve_right fun h => h.errors.2 heq₄.symm
  have himage : last.image = plain.image := by
    rw [hlast, hplain, hentered, hstart]
    exact prepare_statements_prepare (by rw [← hstart]; exact heq₁.symm) statements
  have hcur : plain.image.address = plain.curAddress := by
    simp [EmitState.image, EmitState.emitAddress, EmitState.displaced, hmodePlain]
  have hdisplaced : displaced.image = plain.image := hleft.trans himage
  exact ⟨congrArg MemoryImage.device hdisplaced, by rw [← hcur, ← himage]; exact haddress,
    congrArg MemoryImage.output hdisplaced⟩

/-- A device with four slots and eight pages of 16 KiB, the last slot wrapping around, as behind
`ORG 0xFFFF`. -/
def exampleDevice : Device 4 8 where
  slots i := ⟨0x4000 * i.val, 0x4000, slotSize_pos, ⟨i.val, by omega⟩, if i = 3 then .next else .none⟩
  pages i := ⟨0x4000 * i.val, 0x4000⟩
  memory _ := 0
  previousSlotI := 3
  previousSlotOpt := .next
  limitExceeded := false
  page := 3
  memoryPointer := some 0xFFFF

def exampleState : EmitState 4 8 where
  pass := lastPass
  isLongPtr := false
  device := some exampleDevice
  curAddress := 0xFFFF
  adrdisp := 0
  pseudoORG := .none
  dispPageNum := labelPageUndefined
  relocationType := .off
  notWarnedCurAdr := true
  notWarnedDisp := true
  output := []
  log := []

theorem runDisplaced_exampleState :
    let displaced := runDisplaced exampleState (some 0x8000) false none [[.bytes [1, 2]], [.word 3]]
    let plain := (runStatements exampleState [[.bytes [1, 2]], [.word 3]]).prepareLine
    displaced.device = plain.device ∧ displaced.curAddress = plain.curAddress ∧
      displaced.output = plain.output :=
  runDisplaced_transparent exampleState rfl (some 0x8000) false none [[.bytes [1, 2]], [.word 3]]
    (by decide)

/-- A byte that fills the wrapping slot: the line of `ENT` maps the next page, without the pair the
next line does. -/
theorem runDisplaced_border :
    (runDisplaced exampleState (some 0x8000) false none [[.bytes [1]]]).log = [] ∧
      (runDisplaced exampleState (some 0x8000) false none [[.bytes [1]]]).curAddress = 0xC000 ∧
      (runStatements exampleState [[.bytes [1]]]).curAddress = 0x10000 := by
  decide

end Sjasmplus
