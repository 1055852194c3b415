import Sjasmplus.DeviceLayout
import Sjasmplus.Evaluation
import Sjasmplus.Statements

/-!
# Mapping pages into slots (`dirMMU` of `directives.cpp`)

`MMU` names a slot, or a range of slots, either by number or by the exact address where the slot
starts, and a page.  The slots get consecutive pages and one option, which is `none` for a range; a
third argument moves the address as `ORG` does.

* `Device.mapSlots_eq` — the loop over the slots is one update of the slots of the range;
* `mmu_exact_iff` — exactly those slots are mapped, or an error is reported and nothing changes,
  unless the number of the last page passes the end of the 32-bit range.
-/

namespace Sjasmplus

open Parsing ParseFn

variable {n m : Nat}

/-- `CDeviceDef::MAX_SLOT_N`. -/
def maxSlotN : Nat := 256

/-- `CDeviceDef::MAX_PAGE_N`. -/
def maxPageN : Nat := 4096

/-- The slots that `MMU` names: one, perhaps with an option, or a range. -/
inductive MmuSlots
  | one (slot1 : Aint) (slotOpt : SlotOption)
  | range (slot1 slot2 : Aint)
deriving DecidableEq, Repr

namespace MmuSlots

def slot1 : MmuSlots → Aint
  | one slot1 _ => slot1
  | range slot1 _ => slot1

def slot2 : MmuSlots → Aint
  | one slot1 _ => slot1
  | range _ slot2 => slot2

/-- The option for the mapped slots: a range resets it. -/
def slotOpt : MmuSlots → SlotOption
  | one _ slotOpt => slotOpt
  | range _ _ => .none

end MmuSlots

/-- The arguments of `MMU`. -/
structure MmuArguments where
  slots : MmuSlots
  pageN : Aint
  address : Option Aint
deriving DecidableEq, Repr

namespace Device

variable (device : Device n m)

/-- `SlotNumberFromPreciseAddress`. -/
def slotNumberFromPreciseAddress (address : Aint) : Aint :=
  if address.toInt < n then address
  else
    match device.getSlotOfA16 address.toInt with
    | none => address
    | some i => if address.toInt ≠ (device.slots i).address then address else BitVec.ofNat 32 i.val

/-- `GetPage`: missing where it reads outside of its table. -/
def getPage (lp : Text) (num : Aint) : Reported (Option (Fin m)) :=
  if h : num.toNat < m then (some ⟨num.toNat, h⟩, [])
  else if num.toNat < maxPageN then
    (some ⟨0, device.pages_pos⟩, [.error "Wrong page number" (some lp) .pass3])
  else (none, [.undefined "page read outside of the table of pages"])

/-- One turn of the loop of `dirMMU`. -/
def mapSlot (slotOpt : SlotOption) (slotN : Fin n) (page : Fin m) : Device n m :=
  device.setSlot slotN { device.slots slotN with page := page, option := slotOpt }

/-- The loop of `dirMMU` over the slots of a range: missing where it has no defined effect. -/
def mapSlots (lp : Text) (slotOpt : SlotOption) :
    List (Fin n) → Aint → Device n m → Reported (Option (Device n m))
  | [], _, device => (some device, [])
  | slotN :: slots, pageN, device =>
    match device.getPage lp pageN with
    | (none, log) => (none, log)
    | (some page, log) =>
      let rest := mapSlots lp slotOpt slots (pageN + 1) (device.mapSlot slotOpt slotN page)
      (rest.1, log ++ rest.2)

end Device

/-- The slots from one number to another. -/
def slotRange (n slot1 slot2 : Nat) : List (Fin n) :=
  ((List.finRange n).drop slot1).take (slot2 + 1 - slot1)

namespace EmitState

/-- The emit address goes back into the address space of the processor. -/
def wrapEmitAddress (s : EmitState n m) : EmitState n m :=
  if s.displaced then { s with adrdisp := s.adrdisp % 0x10000 }
  else { s with curAddress := s.curAddress % 0x10000 }

/-- The third argument of `MMU`, a 16-bit address. -/
def mmuAddress (s : EmitState n m) (device : Device n m) (address : Int) (slot1 slot2 : Fin n) :
    EmitState n m :=
  let check_s1 := device.slots slot1
  let check_s2 := device.slots slot2
  { s with
    curAddress := address
    log := s.log ++ (if s.displaced then [.warningById .displacedOrg none .all] else []) ++
      if address < check_s1.address ∨ check_s2.address + check_s2.size ≤ address then
        [.warning ("[MMU] Requested ORG address 0x" ++ hexPadded 4 address.toNat ++
          " is out of range 0x" ++ hexPadded 4 check_s1.address.toNat ++ "..0x" ++
          hexPadded 4 (check_s2.address + check_s2.size - 1).toNat) none .pass3]
      else [] }

end EmitState

namespace AsmProgram

/-- The end of `dirMMU`, with all slots mapped: the addresses, and the new mapping is checked. -/
def mmuFinish (device : Device n m) (address : Option Aint) (slot1 slot2 : Fin n) :
    AsmProgram n m Unit := do
  emit fun s => { s.wrapEmitAddress with device := some device }
  match address with
  | none => pure ()
  | some address => emit fun s => s.mmuAddress device (address &&& 0xFFFF).toInt slot1 slot2
  emit fun s => s.checkPage .reset device

/-- Slots in their range. -/
theorem mmuSlots_lt {slot1 slot2 : Aint}
    (h : ¬(slot1.toInt < 0 ∨ slot2.toInt < slot1.toInt ∨ n ≤ slot2.toInt)) :
    slot1.toInt.toNat < n ∧ slot2.toInt.toNat < n := by
  omega

/-- `dirMMU` behind its arguments. -/
def mmu (args : MmuArguments) : AsmProgram n m Unit := do
  match (← get).device with
  | none => pure ()
  | some device =>
    report (args.address.elim [] check16)
    -- convert slot entered as addresses into slot numbering
    let slot1 := device.slotNumberFromPreciseAddress args.slots.slot1
    let slot2 := device.slotNumberFromPreciseAddress args.slots.slot2
    if h : slot1.toInt < 0 ∨ slot2.toInt < slot1.toInt ∨ n ≤ slot2.toInt then
      error ("[MMU] Slot number(s) must be in range 0.." ++ toString (n - 1) ++
        " (or exact starting address of slot) and form a range") none .suppress
    else if args.pageN.toInt < 0 ∨ m ≤ (args.pageN + (slot2 - slot1)).toInt then
      error ("[MMU] Requested page(s) must be in range 0.." ++ toString (m - 1)) none .suppress
    else
      let mapped := device.mapSlots (← get).lp args.slots.slotOpt
        (slotRange n slot1.toInt.toNat slot2.toInt.toNat) args.pageN
      report mapped.2
      match mapped.1 with
      | none => Program.exit
      | some device =>
        mmuFinish device args.address ⟨slot1.toInt.toNat, (mmuSlots_lt h).1⟩
          ⟨slot2.toInt.toNat, (mmuSlots_lt h).2⟩

/-- The slots of `MMU`, with the comma behind them. -/
def mmuSlots (bp : Text) : AsmProgram n m (Option MmuSlots) := do
  match ← parseExpression with
  | none =>
    error "[MMU] First slot number parsing failed" (some bp) .suppress
    pure none
  | some slot1 =>
    if ← comma then pure (some (.one slot1 .none))
    else
      let lp := (← get).lp
      let slotOptChar := (cur lp).toLower
      let slots ←
        if (cur lp).isAlpha ∧ (cur lp.tail = ',' ∨ white (cur lp.tail)) then do
          Program.when (slotOptChar ≠ 'e' ∧ slotOptChar ≠ 'w' ∧ slotOptChar ≠ 'n') <|
            warning "[MMU] Unknown slot option (legal: e, w, n)" (some lp)
          modify fun s => { s with lp := s.lp.tail }
          pure (some (.one slot1
            (if slotOptChar = 'e' then .error else if slotOptChar = 'w' then .warning
              else if slotOptChar = 'n' then .next else .none)))
        else
          match ← parseExpression with
          | none =>
            error "[MMU] Second slot number parsing failed" (some bp) .suppress
            pure none
          | some slot2 => pure (some (.range slot1 slot2))
      if slots.isNone then pure none
      else if ← comma then pure slots
      else
        error "[MMU] Comma and page number expected after slot info" (some bp) .suppress
        pure none

/-- The arguments of `MMU`, missing behind an error. -/
def mmuArguments (bp : Text) : AsmProgram n m (Option MmuArguments) := do
  match ← mmuSlots bp with
  | none => pure none
  | some slots =>
    match ← parseExpression with
    | none =>
      error "[MMU] Page number parsing failed" (some bp) .suppress
      pure none
    | some pageN =>
      if ← comma then
        match ← parseExpressionNoSyntaxError with
        | none =>
          error "[MMU] address parsing failed" (some bp) .suppress
          pure none
        | some address => pure (some ⟨slots, pageN, some address⟩)
      else pure (some ⟨slots, pageN, none⟩)

/-- `dirMMU`, at the directive `bp`. -/
def dirMMU (bp : Text) : AsmProgram n m Unit := do
  if (← get).device.isNone then
    warning "MMU is allowed only in real device emulation mode (See DEVICE)"
    modify fun s => { s with lp := [] }
  else
    match ← mmuArguments bp with
    | none => pure ()
    | some args => mmu args

end AsmProgram

/-! ### The loop over the slots -/

theorem map_val_slotRange {slot1 slot2 : Nat} (h : slot2 < n) :
    (slotRange n slot1 slot2).map Fin.val = List.range' slot1 (slot2 + 1 - slot1) := by
  refine List.ext_getElem (by simp [slotRange]; omega) fun k hk hk' => ?_
  simp [slotRange]

namespace Device

variable (device : Device n m)

/-- The device with consecutive pages in `count` slots from `slot1` on. -/
def mapRange (slotOpt : SlotOption) (slot1 page count : Nat) (hpage : page + count ≤ m) :
    Device n m :=
  { device with
    slots := fun i =>
      if h : slot1 ≤ i.val ∧ i.val < slot1 + count then
        { device.slots i with page := ⟨page + (i.val - slot1), by omega⟩, option := slotOpt }
      else device.slots i }

/-- One slot and the range behind it are a range. -/
theorem mapRange_mapSlot (slotOpt : SlotOption) (slotN : Fin n) {page count : Nat}
    (hpage : page + 1 + count ≤ m) :
    (device.mapSlot slotOpt slotN ⟨page, by omega⟩).mapRange slotOpt (slotN.val + 1) (page + 1) count
        hpage
      = device.mapRange slotOpt slotN.val page (count + 1) (by omega) := by
  unfold mapRange mapSlot setSlot
  congr 1
  funext i
  -- the first slot, a slot of the range behind it, or none of them
  by_cases hfirst : i = slotN
  · subst hfirst
    rw [dif_neg (by omega), dif_pos (by omega)]
    simp
  · have hval : i.val ≠ slotN.val := fun h => hfirst (Fin.ext h)
    dsimp only
    rw [Function.update_of_ne hfirst]
    by_cases hin : slotN.val + 1 ≤ i.val ∧ i.val < slotN.val + 1 + count
    · rw [dif_pos hin, dif_pos (by omega)]
      congr 2
      omega
    · rw [dif_neg hin, dif_neg (by omega)]

/-- The loop maps its slots to consecutive pages when there are enough of them. -/
theorem mapSlots_eq (lp : Text) (slotOpt : SlotOption) (hm : m ≤ maxPageN) :
    ∀ (slots : List (Fin n)) (slot1 : Nat) (pageN : Aint) (device : Device n m)
      (hpage : pageN.toNat + slots.length ≤ m),
      slots.map Fin.val = List.range' slot1 slots.length →
      device.mapSlots lp slotOpt slots pageN
        = (some (device.mapRange slotOpt slot1 pageN.toNat slots.length hpage), []) := by
  intro slots
  -- by induction on the slots: the page number does not wrap below 4096 pages
  induction slots with
  | nil =>
    intro slot1 pageN device hpage _
    have hrange : device.mapRange slotOpt slot1 pageN.toNat 0 hpage = device := by
      unfold mapRange
      congr 1
      funext i
      rw [dif_neg (by omega)]
    show (some device, []) = _
    simp only [List.length_nil, hrange]
  | cons slotN slots ih =>
    intro slot1 pageN device hpage hslots
    rw [List.length_cons] at hpage
    have hm : m ≤ 4096 := hm
    have hnext : (pageN + 1).toNat = pageN.toNat + 1 := by
      rw [BitVec.toNat_add]
      simp only [BitVec.reduceToNat]
      omega
    rw [List.map_cons, List.length_cons, List.range'_succ] at hslots
    obtain ⟨rfl, hrest⟩ := List.cons.inj hslots
    have hget : device.getPage lp pageN = (some ⟨pageN.toNat, by omega⟩, []) := dif_pos (by omega)
    have hloop := ih (slotN.val + 1) (pageN + 1)
      (device.mapSlot slotOpt slotN ⟨pageN.toNat, by omega⟩) (by omega) hrest
    unfold mapSlots
    rw [hget]
    simp only [hloop, List.append_nil, Prod.mk.injEq, and_true, Option.some.injEq, hnext]
    exact device.mapRange_mapSlot slotOpt slotN (by omega)


/-- The slots `first` to `last` show consecutive pages from `pageN` on and have the option; all other
slots, and the memory, are as they were. -/
structure Mapped (device device' : Device n m) (slotOpt : SlotOption) (first last : Fin n)
    (pageN : Int) : Prop where
  pages : device'.pages = device.pages
  memory : device'.memory = device.memory
  address (i : Fin n) : (device'.slots i).address = (device.slots i).address
  size (i : Fin n) : (device'.slots i).size = (device.slots i).size
  page (i : Fin n) : first ≤ i → i ≤ last → ((device'.slots i).page.val : Int) = pageN + (i - first)
  option (i : Fin n) : first ≤ i → i ≤ last → (device'.slots i).option = slotOpt
  other (i : Fin n) : ¬(first ≤ i ∧ i ≤ last) → device'.slots i = device.slots i

theorem mapped_mapRange (slotOpt : SlotOption) {first last : Fin n} {page count : Nat}
    (hpage : page + count ≤ m) (hcount : count = last.val + 1 - first.val) :
    device.Mapped (device.mapRange slotOpt first.val page count hpage) slotOpt first last page where
  pages := rfl
  memory := rfl
  address i := by
    unfold mapRange
    dsimp only
    split <;> rfl
  size i := by
    unfold mapRange
    dsimp only
    split <;> rfl
  page i hfirst hlast := by
    rw [Fin.le_def] at hfirst hlast
    unfold mapRange
    dsimp only
    rw [dif_pos (by omega)]
    dsimp only
    omega
  option i hfirst hlast := by
    rw [Fin.le_def] at hfirst hlast
    unfold mapRange
    dsimp only
    rw [dif_pos (by omega)]
  other i hother := by
    rw [Fin.le_def, Fin.le_def] at hother
    unfold mapRange
    dsimp only
    rw [dif_neg (by omega)]

/-- What only looks the mapping up keeps it. -/
theorem Mapped.of_eq {device device' device'' : Device n m} {slotOpt : SlotOption}
    {first last : Fin n} {pageN : Int} (h : device.Mapped device' slotOpt first last pageN)
    (hslots : device''.slots = device'.slots) (hpages : device''.pages = device'.pages)
    (hmemory : device''.memory = device'.memory) :
    device.Mapped device'' slotOpt first last pageN where
  pages := hpages.trans h.pages
  memory := hmemory.trans h.memory
  address i := hslots ▸ h.address i
  size i := hslots ▸ h.size i
  page i := hslots ▸ h.page i
  option i := hslots ▸ h.option i
  other i := hslots ▸ h.other i

end Device

/-! ### What `MMU` does -/

namespace MmuArguments

variable (args : MmuArguments) (device : Device n m)

/-- The arguments name the range of slots from `first` to `last`. -/
structure NamesRange (first last : Fin n) : Prop where
  first_eq : (device.slotNumberFromPreciseAddress args.slots.slot1).toInt = first.val
  last_eq : (device.slotNumberFromPreciseAddress args.slots.slot2).toInt = last.val
  le : first ≤ last

/-- The arguments name a range of slots, and all the pages for it exist. -/
structure Valid (first last : Fin n) : Prop extends args.NamesRange device first last where
  page_nonneg : 0 ≤ args.pageN.toInt
  page_lt : args.pageN.toInt + (last - first) < m

/-- The number of the last page is a 32-bit number. -/
def LastPageFits : Prop :=
  ∀ first last, args.NamesRange device first last → args.pageN.toInt + (last - first) < 2 ^ 31

end MmuArguments

namespace AsmState

/-- Between the states an error was reported. -/
def ReportsError (s t : AsmState n m) : Prop :=
  ∃ l, t.log = s.log ++ l ∧ ∃ e ∈ l, e.isErrorCall = true

/-- The mapping and both addresses are the same. -/
structure SameMapping (s t : AsmState n m) : Prop where
  device : t.device = s.device
  curAddress : t.curAddress = s.curAddress
  adrdisp : t.adrdisp = s.adrdisp

/-- `MMU` maps what its valid arguments say, or reports an error and changes nothing. -/
def MmuExact (args : MmuArguments) (device : Device n m) (s t : AsmState n m) : Prop :=
  (∃ first last device', args.Valid device first last ∧ t.device = some device' ∧
    device.Mapped device' args.slots.slotOpt first last args.pageN.toInt) ∨
  ((¬∃ first last, args.Valid device first last) ∧ ReportsError s t ∧ SameMapping s t)

end AsmState

namespace AsmProgram

open AsmState Program

/-- The mapping behind `MMU` is the one that its loop made. -/
theorem device_mmuFinish (device : Device n m) (address : Option Aint) (slot1 slot2 : Fin n)
    (s : AsmState n m) :
    ∃ device', ((mmuFinish device address slot1 slot2).final s).device = some device' ∧
      device'.slots = device.slots ∧ device'.pages = device.pages ∧
      device'.memory = device.memory := by
  unfold mmuFinish
  rw [final_bind_of_some (p := emit _) (a := ()) rfl]
  cases address with
  | none => exact ⟨_, rfl, device.check_reset _ _⟩
  | some address =>
    rw [final_bind_of_some (p := emit _) (a := ()) rfl]
    exact ⟨_, rfl, device.check_reset _ _⟩

/-- An error behind nothing but warnings. -/
theorem reportsError_of_log {s t : AsmState n m} {warnings : List Event} {message : String}
    {badValueMessage : Option Text} {type : EStatus}
    (h : t.log = s.log ++ warnings ++ [.error message badValueMessage type]) : ReportsError s t :=
  ⟨warnings ++ [.error message badValueMessage type], by rw [h, List.append_assoc],
    .error message badValueMessage type, by simp, rfl⟩

/-- The number of the last page, as the source computes it. -/
theorem toInt_lastPage (pageN slot1 slot2 : Aint) :
    (pageN + (slot2 - slot1)).toInt
      = (pageN.toInt + (slot2.toInt - slot1.toInt)).bmod (2 ^ 32) := by
  rw [BitVec.toInt_add, BitVec.toInt_sub, Int.add_bmod_bmod]

/-- With valid arguments the pages are mapped. -/
theorem mmu_of_valid {args : MmuArguments} {device : Device n m} {first last : Fin n}
    {s : AsmState n m} (hm : m ≤ maxPageN) (hdevice : s.device = some device)
    (h : args.Valid device first last) :
    ∃ device', ((mmu args).final s).device = some device' ∧
      device.Mapped device' args.slots.slotOpt first last args.pageN.toInt := by
  obtain ⟨⟨hfirst, hlast, hle⟩, hpage, hlt⟩ := h
  have hm : m ≤ 4096 := hm
  have hle : first.val ≤ last.val := hle
  have hlastlt := last.isLt
  have hpageN : args.pageN.toInt = args.pageN.toNat := by
    rw [BitVec.toInt_eq_toNat_cond] at hpage ⊢
    split_ifs at hpage ⊢ <;> omega
  -- the last page does not wrap either, so that both checks pass
  have hsum := toInt_lastPage args.pageN
    (device.slotNumberFromPreciseAddress args.slots.slot1)
    (device.slotNumberFromPreciseAddress args.slots.slot2)
  rw [hfirst, hlast, Int.bmod_eq_of_le (by omega) (by omega)] at hsum
  have hcount : (slotRange n first.val last.val).length = last.val + 1 - first.val := by
    rw [← List.length_map Fin.val, map_val_slotRange hlastlt, List.length_range']
  have hmap := device.mapSlots_eq s.lp args.slots.slotOpt hm (slotRange n first.val last.val)
    first.val args.pageN (by omega) (by rw [hcount, map_val_slotRange hlastlt])
  unfold mmu
  rw [final_bind_of_some (exec_get s), hdevice, final_bind_of_some (p := report _) (a := ()) rfl]
  dsimp only
  rw [dif_neg (by omega), if_neg (by omega), final_bind_of_some (exec_get _)]
  dsimp only
  simp only [hfirst, hlast, Int.toNat_natCast]
  rw [hmap, final_bind_of_some (p := report _) (a := ()) rfl]
  dsimp only
  -- an address that is given comes behind the mapping and changes none of it
  obtain ⟨device', hdevice', hslots, hpages, hmemory⟩ := device_mmuFinish
    (device.mapRange args.slots.slotOpt first.val args.pageN.toNat
      (slotRange n first.val last.val).length (by omega)) args.address first last _
  refine ⟨device', hdevice', ?_⟩
  rw [hpageN]
  exact (device.mapped_mapRange _ _ hcount).of_eq hslots hpages hmemory

/-- The warnings about the third argument are no errors. -/
theorem isErrorCall_check16 {address : Option Aint} :
    ∀ e ∈ (address.elim [] check16 : List Event), e.isErrorCall = false := by
  cases address with
  | none => simp
  | some address =>
    intro e he
    simp only [Option.elim_some, check16, checkRange] at he
    split_ifs at he
    · rw [List.mem_singleton.mp he]
      rfl
    · simp at he

/-- A last page within the 32-bit range: without a valid range and its pages nothing changes. -/
theorem mmu_of_not_valid {args : MmuArguments} {device : Device n m} {s : AsmState n m}
    (hn : n ≤ maxSlotN) (hdevice : s.device = some device) (hfits : args.LastPageFits device)
    (h : ¬∃ first last, args.Valid device first last) :
    ReportsError s ((mmu args).final s) ∧ SameMapping s ((mmu args).final s) := by
  have hn : n ≤ 256 := hn
  unfold mmu
  rw [final_bind_of_some (exec_get s), hdevice, final_bind_of_some (p := report _) (a := ()) rfl]
  dsimp only
  -- the two checks of the source; a request that passes both is a valid one
  split_ifs with hslots hpages
  · exact ⟨reportsError_of_log rfl, rfl, rfl, rfl⟩
  · exact ⟨reportsError_of_log rfl, rfl, rfl, rfl⟩
  · exfalso
    obtain ⟨hfirst, hle, hlast⟩ : 0 ≤ (device.slotNumberFromPreciseAddress args.slots.slot1).toInt ∧
        (device.slotNumberFromPreciseAddress args.slots.slot1).toInt
          ≤ (device.slotNumberFromPreciseAddress args.slots.slot2).toInt ∧
        (device.slotNumberFromPreciseAddress args.slots.slot2).toInt < n := by omega
    have hsum := toInt_lastPage args.pageN
      (device.slotNumberFromPreciseAddress args.slots.slot1)
      (device.slotNumberFromPreciseAddress args.slots.slot2)
    rw [hsum] at hpages
    have hrange : args.NamesRange device
        ⟨(device.slotNumberFromPreciseAddress args.slots.slot1).toInt.toNat, by omega⟩
        ⟨(device.slotNumberFromPreciseAddress args.slots.slot2).toInt.toNat, by omega⟩ :=
      ⟨(Int.toNat_of_nonneg (by omega)).symm, (Int.toNat_of_nonneg (by omega)).symm,
        Fin.le_def.mpr (by dsimp only; omega)⟩
    have hlt := hfits _ _ hrange
    dsimp only at hlt
    rw [Int.bmod_eq_of_le (by omega) (by omega)] at hpages
    exact h ⟨_, _, hrange, by omega, by dsimp only; omega⟩

/-- A last page behind the 32-bit range is read outside of the table. -/
theorem mmu_of_not_fits {args : MmuArguments} {device : Device n m} {s : AsmState n m}
    (hn : n ≤ maxSlotN) (hm : m ≤ maxPageN) (hdevice : s.device = some device)
    (h : ¬args.LastPageFits device) : ¬MmuExact args device s ((mmu args).final s) := by
  have hn : n ≤ 256 := hn
  have hm : m ≤ 4096 := hm
  unfold MmuArguments.LastPageFits at h
  push Not at h
  obtain ⟨first, last, ⟨hfirst, hlast, hle⟩, hbehind⟩ := h
  have hle : first.val ≤ last.val := hle
  have hlastlt := last.isLt
  have hpage := args.pageN.toInt_lt
  have hsum := toInt_lastPage args.pageN
    (device.slotNumberFromPreciseAddress args.slots.slot1)
    (device.slotNumberFromPreciseAddress args.slots.slot2)
  -- the sum wraps around to a negative number
  have hwrap : (args.pageN.toInt + ((last.val : Int) - first.val)).bmod (2 ^ 32) < 0 := by
    rw [Int.bmod_def]
    split_ifs <;> omega
  rw [hfirst, hlast] at hsum
  -- so the loop starts, and reads a page that its table has no room for
  have hloop : device.mapSlots s.lp args.slots.slotOpt (slotRange n first.val last.val) args.pageN
      = (none, [.undefined "page read outside of the table of pages"]) := by
    obtain ⟨slotN, rest, hrest⟩ : ∃ slotN rest, slotRange n first.val last.val = slotN :: rest := by
      refine List.exists_cons_of_length_pos ?_
      rw [← List.length_map Fin.val, map_val_slotRange hlastlt, List.length_range']
      omega
    have hpageN : 4096 ≤ args.pageN.toNat := by
      have := args.pageN.toInt_eq_toNat_cond
      split_ifs at this <;> omega
    have hget : device.getPage s.lp args.pageN
        = (none, [.undefined "page read outside of the table of pages"]) := by
      unfold Device.getPage
      rw [dif_neg (by omega), if_neg (by unfold maxPageN; omega)]
    rw [hrest]
    unfold Device.mapSlots
    rw [hget]
  have hlog : ((mmu args).final s).log
      = s.log ++ args.address.elim [] check16 ++ [.undefined "page read outside of the table of pages"] := by
    unfold mmu
    rw [final_bind_of_some (exec_get s), hdevice, final_bind_of_some (p := report _) (a := ()) rfl]
    dsimp only
    rw [dif_neg (by omega), if_neg (by omega), final_bind_of_some (exec_get _)]
    dsimp only
    simp only [hfirst, hlast, Int.toNat_natCast]
    rw [hloop]
    rfl
  rintro (⟨first', last', -, h, -⟩ | ⟨-, ⟨l, hl, e, he, herror⟩, -⟩)
  · have hfirst' := h.first_eq
    have hlast' := h.last_eq
    have hlt := h.page_lt
    omega
  · rw [hlog, List.append_assoc, List.append_cancel_left_eq] at hl
    rw [← hl, List.mem_append, List.mem_singleton] at he
    rcases he with he | rfl
    · rw [isErrorCall_check16 e he] at herror
      exact absurd herror (by decide)
    · exact absurd herror (by decide)

/-- `MMU` maps exactly the slots of a valid range to its pages, and otherwise reports an error and
changes nothing, if and only if the number of the last page is a 32-bit number. -/
theorem mmu_exact_iff (args : MmuArguments) (device : Device n m) (s : AsmState n m)
    (hn : n ≤ maxSlotN) (hm : m ≤ maxPageN) (hdevice : s.device = some device) :
    MmuExact args device s ((mmu args).final s) ↔ args.LastPageFits device := by
  refine ⟨fun h => ?_, fun hfits => ?_⟩
  · by_contra hfits
    exact mmu_of_not_fits hn hm hdevice hfits h
  · by_cases hvalid : ∃ first last, args.Valid device first last
    · obtain ⟨first, last, h⟩ := hvalid
      obtain ⟨device', hdevice', hmapped⟩ := mmu_of_valid hm hdevice h
      exact .inl ⟨first, last, device', h, hdevice', hmapped⟩
    · exact .inr ⟨hvalid, mmu_of_not_valid hn hdevice hfits hvalid⟩

/-! ### The arguments -/

/-- Between the states nothing was emitted or mapped, only messages were added. -/
def OnlyReads (s t : AsmState n m) : Prop :=
  ∃ l, t.toEmitState = { s.toEmitState with log := s.log ++ l }

theorem OnlyReads.refl (s : AsmState n m) : OnlyReads s s := ⟨[], by rw [List.append_nil]⟩

theorem OnlyReads.trans {s t u : AsmState n m} (h : OnlyReads s t) (h' : OnlyReads t u) :
    OnlyReads s u := by
  obtain ⟨l, hl⟩ := h
  obtain ⟨l', hl'⟩ := h'
  exact ⟨l ++ l', by rw [hl', hl, List.append_assoc]⟩

instance : Std.Refl (OnlyReads (n := n) (m := m)) := ⟨OnlyReads.refl⟩

instance : IsTrans (AsmState n m) OnlyReads := ⟨fun _ _ _ => OnlyReads.trans⟩

theorem OnlyReads.sameMapping {s t : AsmState n m} (h : OnlyReads s t) : SameMapping s t := by
  obtain ⟨l, hl⟩ := h
  constructor <;> rw [hl]

/-- An error behind what was read. -/
theorem OnlyReads.reportsError {s t u : AsmState n m} (h : OnlyReads s t) (h' : ReportsError t u) :
    ReportsError s u := by
  obtain ⟨l, hl⟩ := h
  obtain ⟨l', hl', e, he, herror⟩ := h'
  refine ⟨l ++ l', ?_, e, List.mem_append_right _ he, herror⟩
  rw [hl', hl, List.append_assoc]

theorem onlyReads_parseExpression {synerr : Bool} :
    Keeps (OnlyReads (n := n) (m := m)) (parseExpression synerr) := by
  intro s
  have hfold : ∀ (l : List Event) (s : AsmState n m),
      (l.foldl AsmState.noteLookup s).toEmitState = s.toEmitState := by
    intro l
    induction l with
    | nil => exact fun _ => rfl
    | cons e l ih => exact fun s => (ih _).trans (s.toEmitState_noteLookup e)
  set l := (Sjasmplus.parseExpression (s.exprEnv synerr) s.flags s.lp).1.log with hl
  exact ⟨l, congrArg (fun e : EmitState n m => { e with log := s.log ++ l }) (hfold l s)⟩

theorem onlyReads_report {l : List Event} : Keeps (OnlyReads (n := n) (m := m)) (report l) :=
  fun _ => ⟨l, rfl⟩

theorem onlyReads_scan {α : Type} {f : Text → α × Text} :
    Keeps (OnlyReads (n := n) (m := m)) (scan f) := fun _ => ⟨[], by rw [List.append_nil]; rfl⟩

theorem onlyReads_skip {f : Text → Text} :
    Keeps (OnlyReads (n := n) (m := m)) (modify fun s => { s with lp := f s.lp }) :=
  fun _ => ⟨[], by rw [List.append_nil]; rfl⟩

/-- The arguments are only read, and where they are missing an error was reported. -/
def ReadsOrFails {α : Type} (s : AsmState n m) (result : Option α) (t : AsmState n m) : Prop :=
  OnlyReads s t ∧ (result = none → ReportsError s t)

section

variable {α : Type} {s t : AsmState n m}

theorem ReadsOrFails.behind {u : AsmState n m} {result : Option α} (hst : OnlyReads s t)
    (h : ReadsOrFails t result u) : ReadsOrFails s result u :=
  ⟨hst.trans h.1, fun hnone => hst.reportsError (h.2 hnone)⟩

theorem ensures_some (a : α) (hst : OnlyReads s t) :
    Ensures (pure (some a) : AsmProgram n m (Option α)) t (ReadsOrFails s) :=
  .pure ⟨hst, nofun⟩

/-- An error ends the arguments. -/
theorem ensures_rejected (message : String) (badValueMessage : Option Text) (type : EStatus)
    (hst : OnlyReads s t) :
    Ensures (do error message badValueMessage type; pure none : AsmProgram n m (Option α)) t
      (ReadsOrFails s) := by
  have hreports : ReportsError t { t with log := t.log ++ [.error message badValueMessage type] } :=
    by
    refine ⟨[.error message badValueMessage type], rfl, _, List.mem_singleton_self _, rfl⟩
  refine .of_exec rfl (.behind hst ⟨⟨_, rfl⟩, fun _ => hreports⟩)

/-- The next part of the arguments. -/
theorem ensures_part {β : Type} {p : AsmProgram n m β} {f : β → AsmProgram n m (Option α)}
    (hst : OnlyReads s t) (hp : Keeps OnlyReads p)
    (hf : ∀ b u, OnlyReads s u → Ensures (f b) u (ReadsOrFails s)) :
    Ensures (p >>= f) t (ReadsOrFails s) :=
  (Ensures.of_keeps hp).bind fun b u hu => hf b u (hst.trans hu)

theorem ensures_mmuSlots (bp : Text) (s : AsmState n m) : Ensures (mmuSlots bp) s (ReadsOrFails s) := by
  refine ensures_part (.refl s) onlyReads_parseExpression fun slot1 t ht => ?_
  cases slot1 with
  | none => exact ensures_rejected _ _ _ ht
  | some slot1 =>
    refine ensures_part ht onlyReads_scan fun found u hu => .ite (fun _ => ensures_some _ hu) fun _ => ?_
    -- the comma behind an option or a second slot
    have hend : ∀ (slots : Option MmuSlots) (v : AsmState n m), ReadsOrFails s slots v →
        Ensures (if slots.isNone then pure none else do
          if ← comma then pure slots
          else do
            error "[MMU] Comma and page number expected after slot info" (some bp) .suppress
            pure none : AsmProgram n m (Option MmuSlots)) v (ReadsOrFails s) := by
      intro slots v hv
      refine .ite (fun hnone => .pure ⟨hv.1, fun _ => ?_⟩) fun hsome => ?_
      · exact hv.2 (Option.isNone_iff_eq_none.mp hnone)
      · refine ensures_part hv.1 onlyReads_scan fun found w hw => .ite (fun _ => ?_) fun _ => ?_
        · exact .pure ⟨hw, fun hnone => absurd (by rw [hnone]; rfl) hsome⟩
        · exact ensures_rejected _ _ _ hw
    refine .get_bind (.ite (fun _ => ?_) fun _ => ?_)
    · refine ensures_part hu (.when onlyReads_report) fun _ v hv => ?_
      refine ensures_part hv onlyReads_skip fun _ w hw => ?_
      exact (ensures_some _ hw).bind fun slots w hw => hend slots w hw
    · refine ensures_part hu onlyReads_parseExpression fun slot2 v hv => ?_
      cases slot2 with
      | none => exact (ensures_rejected _ _ _ hv).bind fun slots w hw => hend slots w hw
      | some slot2 => exact (ensures_some _ hv).bind fun slots w hw => hend slots w hw

/-- The arguments of `MMU` are only read, and where they cannot be read an error is reported. -/
theorem ensures_mmuArguments (bp : Text) (s : AsmState n m) :
    Ensures (mmuArguments bp) s (ReadsOrFails s) := by
  refine (ensures_mmuSlots bp s).bind fun slots t ht => ?_
  cases slots with
  | none => exact .pure ⟨ht.1, fun _ => ht.2 rfl⟩
  | some slots =>
    refine ensures_part ht.1 onlyReads_parseExpression fun pageN u hu => ?_
    cases pageN with
    | none => exact ensures_rejected _ _ _ hu
    | some pageN =>
      refine ensures_part hu onlyReads_scan fun found v hv => .ite (fun _ => ?_) fun _ => ?_
      · refine ensures_part hv onlyReads_parseExpression fun address w hw => ?_
        cases address with
        | none => exact ensures_rejected _ _ _ hw
        | some address => exact ensures_some _ hw
      · exact ensures_some _ hv

/-- **A line with `MMU`** whose arguments cannot be read reports an error and maps nothing. -/
theorem dirMMU_of_rejected {bp : Text} {device : Device n m} (hdevice : s.device = some device)
    (hargs : (mmuArguments bp).exec s = (some none, t)) :
    (dirMMU bp).final s = t ∧ ReportsError s t ∧ SameMapping s t := by
  obtain ⟨hreads, hfails⟩ := ensures_mmuArguments bp s none t hargs
  refine ⟨?_, hfails rfl, hreads.sameMapping⟩
  unfold dirMMU
  rw [final_bind_of_some (exec_get s), hdevice, if_neg (by simp), final_bind_of_some hargs]
  rfl

/-- A line with `MMU` does exactly what its arguments say, when the number of the last page is a 32-bit
number. -/
theorem dirMMU_exact {bp : Text} {args : MmuArguments} {device : Device n m} (hn : n ≤ maxSlotN)
    (hm : m ≤ maxPageN) (hdevice : s.device = some device)
    (hargs : (mmuArguments bp).exec s = (some (some args), t)) (hfits : args.LastPageFits device) :
    SameMapping s t ∧ MmuExact args device t ((dirMMU bp).final s) := by
  obtain ⟨hreads, -⟩ := ensures_mmuArguments bp s (some args) t hargs
  have hsame := hreads.sameMapping
  have hdevice' : t.device = some device := hsame.device.trans hdevice
  have hfinal : (dirMMU bp).final s = (mmu args).final t := by
    unfold dirMMU
    rw [final_bind_of_some (exec_get s), hdevice, if_neg (by simp), final_bind_of_some hargs]
  rw [hfinal]
  refine ⟨hsame, ?_⟩
  by_cases hvalid : ∃ first last, args.Valid device first last
  · obtain ⟨first, last, h⟩ := hvalid
    obtain ⟨device', hmapping, hmapped⟩ := mmu_of_valid hm hdevice' h
    exact .inl ⟨first, last, device', h, hmapping, hmapped⟩
  · exact .inr ⟨hvalid, mmu_of_not_valid hn hdevice' hfits hvalid⟩

end

end AsmProgram

/-! ### An example -/

/-- The last pass, at address 0 of a ZX Spectrum 128. -/
def exampleMapping : AsmState 4 8 :=
  { AsmState.start 4 8 with pass := lastPass, device := some (zxSpectrum128 0), currentSlot := some 3 }

/-- `MMU 0x4000 2, 5`. -/
theorem mmu_exact_exampleMapping :
    AsmState.MmuExact ⟨.range 0x4000 2, 5, none⟩ (zxSpectrum128 0) exampleMapping
      ((AsmProgram.mmu ⟨.range 0x4000 2, 5, none⟩).final exampleMapping) :=
  (AsmProgram.mmu_exact_iff _ _ _ (by decide) (by decide) rfl).mpr fun first last _ => by
    have hpage : (5 : Aint).toInt = 5 := by decide
    rw [hpage]
    omega

/-- `MMU 0 1, 0x7FFFFFFF`: the test for the last page misses the sum that wraps around. -/
theorem not_mmuExact_exampleMapping :
    ¬AsmState.MmuExact ⟨.range 0 1, 0x7FFFFFFF, none⟩ (zxSpectrum128 0) exampleMapping
      ((AsmProgram.mmu ⟨.range 0 1, 0x7FFFFFFF, none⟩).final exampleMapping) := by
  refine AsmProgram.mmu_of_not_fits (by decide) (by decide) rfl fun h => ?_
  have hlast := h 0 1 ⟨by decide, by decide, by decide⟩
  exact absurd hlast (by decide)

end Sjasmplus
