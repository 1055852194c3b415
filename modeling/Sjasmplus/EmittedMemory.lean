import Sjasmplus.Lib.Stores
import Sjasmplus.PagePointer

/-!
# The memory behind emitted bytes

A byte is emitted through `MemoryPointer`, which `CheckPage` sets from the emit address.  While no next
page is mapped, this is the byte that the slots show at the address, so the memory behind emitting is
the memory in front with the bytes written to their addresses one after the other (`Lays`).  Two
addresses may show the same byte, when two slots show the same page.
-/

namespace Sjasmplus

open Program

variable {n m : Nat}

/-! ### Addresses and memory -/

namespace Device

variable (device : Device n m)

/-- Where the memory keeps the byte of an address. -/
def cellOf (address : Int) : Option Nat :=
  ((List.finRange n).find? fun i => (device.slots i).Contains address).map fun i =>
    device.ramPointer (device.slots i) address

/-- `MemGetByte` reads the byte of the address. -/
theorem memGetByte_of_cellOf {address p : Nat} (h : device.cellOf address = some p) :
    device.memGetByte address = ((device.memory p).toNat, []) := by
  unfold cellOf at h
  unfold memGetByte
  cases hfind : (List.finRange n).find? fun i => (device.slots i).Contains address with
  | none =>
    rw [hfind] at h
    cases h
  | some i =>
    rw [hfind] at h
    rw [← Option.some.inj h]

variable {device}

/-- In slots that follow each other an address shows the byte of any slot that contains it. -/
theorem SlotLayout.cellOf_eq (h : device.SlotLayout) {i : Fin n} {address : Int}
    (hi : (device.slots i).Contains address) :
    device.cellOf address = some (device.ramPointer (device.slots i) address) := by
  unfold cellOf
  cases hfind : (List.finRange n).find? fun i => (device.slots i).Contains address with
  | none => exact absurd hi (by simpa using List.find?_eq_none.mp hfind i (List.mem_finRange i))
  | some j =>
    have hj : (device.slots j).Contains address := by simpa using List.find?_some hfind
    rw [h.contains_unique hj hi, Option.map_some]

/-- The addresses of the other device show the same bytes of memory. -/
structure ViewedAlike (device device' : Device n m) : Prop where
  places : device.SamePlaces device'
  shown : device'.shownPages = device.shownPages
  pages : device'.pages = device.pages

theorem ViewedAlike.refl (device : Device n m) : device.ViewedAlike device :=
  ⟨fun _ => ⟨rfl, rfl⟩, rfl, rfl⟩

theorem ViewedAlike.trans {device device' device'' : Device n m} (h : device.ViewedAlike device')
    (h' : device'.ViewedAlike device'') : device.ViewedAlike device'' :=
  ⟨h.places.trans h'.places, h'.shown.trans h.shown, h'.pages.trans h.pages⟩

theorem ViewedAlike.cellOf {device device' : Device n m} (h : device.ViewedAlike device') :
    device'.cellOf = device.cellOf := by
  funext address
  have hcontains : ∀ i, (device'.slots i).Contains address ↔ (device.slots i).Contains address := by
    intro i
    obtain ⟨haddress, hsize⟩ := h.places i
    rw [DeviceSlot.Contains, DeviceSlot.Contains, haddress, hsize]
  have hpointer : ∀ i, device'.ramPointer (device'.slots i) address
      = device.ramPointer (device.slots i) address := by
    intro i
    have hpage : (device'.slots i).page = (device.slots i).page := congrFun h.shown i
    rw [ramPointer, ramPointer, h.pages, hpage, (h.places i).1]
  unfold Device.cellOf
  simp only [hcontains, hpointer]

/-- The memory, the pages and the places of the slots are the same. -/
structure KeepsMemory (device device' : Device n m) : Prop where
  memory : device'.memory = device.memory
  pages : device'.pages = device.pages
  places : device.SamePlaces device'

theorem KeepsMemory.of_slots {device device' : Device n m} (hmemory : device'.memory = device.memory)
    (hpages : device'.pages = device.pages) (hslots : device'.slots = device.slots) :
    device.KeepsMemory device' :=
  ⟨hmemory, hpages, samePlaces_of_slots hslots⟩

theorem KeepsMemory.refresh {device' : Device n m} (h : device.KeepsMemory device')
    (level : CheckPageLevel) (i : Fin n) : device.KeepsMemory (device'.refresh level i) := by
  unfold Device.refresh
  split_ifs
  · exact ⟨h.memory, h.pages, h.places⟩
  · exact h

theorem keepsMemory_nextPage (device : Device n m) (level : CheckPageLevel) (i : Fin n)
    (address : Int) : device.KeepsMemory (device.nextPage level i address).device := by
  unfold nextPage
  dsimp only
  split_ifs <;> dsimp only
  · exact (KeepsMemory.of_slots rfl rfl rfl).refresh level i
  · exact ⟨rfl, rfl, samePlaces_setSlot device _ _ rfl rfl⟩
  · refine KeepsMemory.refresh ?_ level i
    exact ⟨rfl, rfl, samePlaces_setSlot device device.previousSlotI
      { device.slots device.previousSlotI with option := .none } rfl rfl⟩

theorem keepsMemory_crossSlot (device : Device n m) (lastPass : Bool) (level : CheckPageLevel)
    (i : Fin n) (address : Int) :
    device.KeepsMemory (device.crossSlot lastPass level i address).device := by
  unfold crossSlot
  dsimp only
  split
  · split_ifs <;> refine KeepsMemory.refresh ?_ level i <;> exact .of_slots rfl rfl rfl
  · split_ifs <;> refine KeepsMemory.refresh ?_ level i <;> exact .of_slots rfl rfl rfl
  · exact device.keepsMemory_nextPage level i address
  · split_ifs <;> refine KeepsMemory.refresh ?_ level i <;> exact .of_slots rfl rfl rfl

/-- A check leaves the memory and the pages as they are. -/
theorem keepsMemory_check (device : Device n m) (lastPass : Bool) (level : CheckPageLevel)
    (address : Int) : device.KeepsMemory (device.check lastPass level address).device := by
  unfold check
  dsimp only
  by_cases hquick : level ≠ .reset ∧ (device.slots device.previousSlotI).Contains address
  · rw [if_pos hquick]
    exact .of_slots rfl rfl rfl
  · rw [if_neg hquick]
    cases device.findSlot address with
    | none => exact .of_slots rfl rfl rfl
    | some i =>
      dsimp only
      split_ifs
      · exact .of_slots rfl rfl rfl
      · exact .of_slots rfl rfl rfl
      · have hcross := keepsMemory_crossSlot (device.showSlot i address) lastPass level i address
        exact ⟨hcross.memory, hcross.pages, hcross.places⟩

/-- Unless it maps a next page, a check changes nothing that the addresses show. -/
theorem viewedAlike_check (device : Device n m) (lastPass : Bool) (level : CheckPageLevel)
    (address : Int) (hsum : (device.check lastPass level address).device.pageSum = device.pageSum) :
    (device.check lastPass level address).back = 0 ∧
      device.ViewedAlike (device.check lastPass level address).device := by
  have hkeeps := device.keepsMemory_check lastPass level address
  rcases device.shows_check lastPass level address with ⟨hback, hshown⟩ | hlt
  · exact ⟨hback, hkeeps.places, hshown, hkeeps.pages⟩
  · exact absurd hsum (Nat.ne_of_gt hlt)

/-- A byte written through the pointer goes to the address of the pointer. -/
theorem memory_writeMemory {address : Int} (h : device.memoryPointer = device.cellOf address)
    (byte : Byte) (preserveDeviceMemory lastPass : Bool) :
    device.ViewedAlike (EmitState.writeMemory byte preserveDeviceMemory lastPass device) ∧
      (EmitState.writeMemory byte preserveDeviceMemory lastPass device).memory
        = Stores.run device.cellOf device.memory
          (if lastPass then if preserveDeviceMemory then [] else [(address, byte)] else []) := by
  have hview : ∀ memory pointer,
      device.ViewedAlike { device with memory := memory, memoryPointer := pointer } :=
    fun _ _ => ⟨fun _ => ⟨rfl, rfl⟩, rfl, rfl⟩
  unfold EmitState.writeMemory
  -- without a pointer nothing is written, and no cell has the address either
  cases hpointer : device.memoryPointer with
  | none =>
    dsimp only
    refine ⟨.refl device, ?_⟩
    split_ifs
    · rfl
    · rw [Stores.run_singleton, Stores.store, ← h, hpointer]
    · rfl
  | some p =>
    dsimp only
    -- a byte is stored in the last pass, unless the memory is to stay
    by_cases hstored : (lastPass && !preserveDeviceMemory) = true
    · obtain ⟨rfl, hpreserve⟩ := (Bool.and_eq_true _ _).mp hstored
      rw [if_pos hstored, if_pos rfl, if_neg (by simpa using hpreserve)]
      refine ⟨hview _ _, ?_⟩
      rw [Stores.run_singleton, Stores.store, ← h, hpointer]
      rfl
    · rw [if_neg hstored]
      refine ⟨hview _ _, ?_⟩
      split_ifs with hlast hpreserve
      · rfl
      · simp [hlast, hpreserve] at hstored
      · rfl

theorem isSome_refresh {device : Device n m} (h : device.memoryPointer.isSome = true)
    (level : CheckPageLevel) (i : Fin n) : (device.refresh level i).memoryPointer.isSome = true := by
  unfold refresh
  split_ifs <;> exact h

/-- Leaving a slot does not lose the pointer. -/
theorem isSome_crossSlot {device : Device n m} (h : device.memoryPointer.isSome = true)
    (lastPass : Bool) (level : CheckPageLevel) (i : Fin n) (address : Int) :
    (device.crossSlot lastPass level i address).device.memoryPointer.isSome = true := by
  unfold crossSlot nextPage
  dsimp only
  split
  · split_ifs <;> refine isSome_refresh ?_ level i <;> exact h
  · split_ifs <;> refine isSome_refresh ?_ level i <;> exact h
  · split_ifs <;> dsimp only
    · exact isSome_refresh h level i
    · rfl
    · refine isSome_refresh ?_ level i
      exact h
  · split_ifs <;> refine isSome_refresh ?_ level i <;> exact h

/-- A check of an address of the processor finds its byte. -/
theorem isSome_check (hlayout : device.SlotLayout) (lastPass : Bool) (level : CheckPageLevel)
    {address : Int} (hlow : 0 ≤ address) (hhigh : address < 0x10000) :
    (device.check lastPass level address).device.memoryPointer.isSome = true := by
  obtain ⟨i, hfind, hcontains⟩ := hlayout.exists_findSlot address
  rw [Int.emod_eq_of_lt hlow hhigh] at hcontains
  have hshow : (device.showSlot i address).memoryPointer.isSome = true := isSome_showSlot hcontains
  unfold check
  dsimp only
  by_cases hquick : level ≠ .reset ∧ (device.slots device.previousSlotI).Contains address
  · rw [if_pos hquick]
    rfl
  · rw [if_neg hquick, hfind]
    dsimp only
    split_ifs
    · exact hshow
    · exact hshow
    · exact isSome_crossSlot hshow lastPass level i address

/-- Behind a check that maps no next page, `MemoryPointer` is the byte that the address shows. -/
theorem memoryPointer_check (hlayout : device.SlotLayout) (lastPass : Bool) (level : CheckPageLevel)
    {address : Int} (hlow : 0 ≤ address) (hhigh : address < 0x10000)
    (hsum : (device.check lastPass level address).device.pageSum = device.pageSum) :
    (device.check lastPass level address).device.memoryPointer = device.cellOf address := by
  obtain ⟨hback, hview⟩ := device.viewedAlike_check lastPass level address hsum
  obtain ⟨p, hp⟩ := Option.isSome_iff_exists.mp (isSome_check hlayout lastPass level hlow hhigh)
  obtain ⟨i, hcontains, hpointer⟩ := PointsRight.check hlayout lastPass level address p hp
  rw [hback, Int.natCast_zero, Int.sub_zero] at hcontains hpointer
  rw [hp, hpointer, ← hview.cellOf]
  exact ((hlayout.of_places hview.places).cellOf_eq hcontains).symm

end Device

/-! ### Emitting -/

/-- The bytes at the addresses from one on. -/
def bytesFrom : Int → List Byte → List (Int × Byte)
  | _, [] => []
  | address, byte :: bytes => (address, byte) :: bytesFrom (address + 1) bytes

theorem bytesFrom_append (address : Int) (bytes bytes' : List Byte) :
    bytesFrom address (bytes ++ bytes')
      = bytesFrom address bytes ++ bytesFrom (address + bytes.length) bytes' := by
  induction bytes generalizing address with
  | nil => simp [bytesFrom]
  | cons byte bytes ih =>
    rw [List.cons_append, bytesFrom, bytesFrom, ih, List.cons_append, List.length_cons]
    push_cast
    rw [show address + 1 + (bytes.length : Int) = address + (bytes.length + 1) by ring]

theorem mem_bytesFrom {address : Int} {bytes : List Byte} {w : Int × Byte}
    (h : w ∈ bytesFrom address bytes) : address ≤ w.1 ∧ w.1 < address + bytes.length := by
  induction bytes generalizing address with
  | nil => cases h
  | cons byte bytes ih =>
    rw [List.length_cons, Nat.cast_succ]
    rcases List.mem_cons.mp h with rfl | h
    · dsimp only
      omega
    · have := ih h
      omega

/-- **What an address reads behind writes** is the byte that was written there last. -/
theorem Device.memGetByte_run {device device' : Device n m} (hlayout : device.SlotLayout)
    (hview : device.ViewedAlike device') {before after : List (Int × Byte)} {address : Int} {byte : Byte}
    (hmemory : device'.memory
      = Stores.run device.cellOf device.memory (before ++ (address, byte) :: after))
    (hlow : 0 ≤ address) (hhigh : address < 0x10000)
    (hlater : ∀ w ∈ after, device.cellOf w.1 ≠ device.cellOf address) :
    device'.memGetByte address.toNat = (byte.toNat, []) := by
  obtain ⟨i, hcontains⟩ := hlayout.exists_contains hlow hhigh
  have hcell := hlayout.cellOf_eq hcontains
  rw [device'.memGetByte_of_cellOf (p := device.ramPointer (device.slots i) address), hmemory,
    Stores.run_last hcell (fun w hw => hcell ▸ hlater w hw)]
  rw [hview.cellOf, Int.toNat_of_nonneg hlow, hcell]

namespace MemoryImage

/-- The sum of the numbers of the pages that are shown. -/
def pageSum (im : MemoryImage n m) : Nat := (im.device.map Device.pageSum).getD 0

/-- The address is one of the processor, or the end of its address space. -/
def InSpace (address : Int) : Prop := 0 ≤ address ∧ address ≤ 0x10000

/-- The memory of the device behind the writes, which only the last pass makes.  The addresses show what
they showed. -/
structure Written (writes : List (Int × Byte)) (im im' : MemoryImage n m) (device device' : Device n m) :
    Prop where
  selected : im'.device = some device'
  view : device.ViewedAlike device'
  memory : device'.memory
    = Stores.run device.cellOf device.memory (if im.lastPass then writes else [])

theorem Written.trans {writes writes' : List (Int × Byte)} {im im' im'' : MemoryImage n m}
    {device device' device'' : Device n m} (h : Written writes im im' device device')
    (h' : Written writes' im' im'' device' device'') (hlast : im'.lastPass = im.lastPass) :
    Written (writes ++ writes') im im'' device device'' where
  selected := h'.selected
  view := h.view.trans h'.view
  memory := by
    rw [h'.memory, h.memory, h.view.cellOf, hlast, ← Stores.run_append]
    split_ifs <;> rfl

theorem Written.nothing {im im' : MemoryImage n m} {device device' : Device n m}
    (hdevice : im'.device = some device') (hview : device.ViewedAlike device')
    (hmemory : device'.memory = device.memory) : Written [] im im' device device' :=
  ⟨hdevice, hview, by rw [ite_self, hmemory]; rfl⟩

/-- Unless a next page is mapped, emitting moves the address by the length and makes the writes, which
depend on the address in front. -/
structure Lays (writes : Int → List (Int × Byte)) (len : Int) (im im' : MemoryImage n m) : Prop where
  lastPass : im'.lastPass = im.lastPass
  pages : im.pageSum ≤ im'.pageSum
  stored : im'.pageSum = im.pageSum → ∀ device, im.device = some device → device.SlotLayout →
    InSpace im.address → InSpace (im.address + len) → im'.address = im.address + len ∧
      ∃ device', Written (writes im.address) im im' device device'

namespace Lays

/-- Nothing that matters changes. -/
theorem nothing {im im' : MemoryImage n m} (hlast : im'.lastPass = im.lastPass)
    (hdevice : im'.device = im.device) (haddress : im'.address = im.address) :
    Lays (fun _ => []) 0 im im' where
  lastPass := hlast
  pages := by rw [pageSum, pageSum, hdevice]
  stored := fun _ device h _ _ _ => ⟨haddress.trans (Int.add_zero _).symm, device,
    .nothing (hdevice.trans h) (.refl device) rfl⟩

theorem trans {writes writes' : Int → List (Int × Byte)} {len len' : Int}
    {im im' im'' : MemoryImage n m} (h : Lays writes len im im') (h' : Lays writes' len' im' im'')
    (hlen : 0 ≤ len) (hlen' : 0 ≤ len') :
    Lays (fun address => writes address ++ writes' (address + len)) (len + len') im im'' where
  lastPass := h'.lastPass.trans h.lastPass
  pages := h.pages.trans h'.pages
  stored := by
    intro hsum device hdevice hlayout hstart hend
    have hpages := h.pages
    have hpages' := h'.pages
    -- the middle is inside of the address space, as both lengths are not negative
    have hmiddle : InSpace (im.address + len) := by
      unfold InSpace at *
      omega
    obtain ⟨haddress, device', hwritten⟩ :=
      h.stored (by omega) device hdevice hlayout hstart hmiddle
    rw [← add_assoc, ← haddress] at hend
    obtain ⟨haddress', device'', hwritten'⟩ := h'.stored (by omega) device' hwritten.selected
      (hlayout.of_places hwritten.view.places) (haddress ▸ hmiddle) hend
    refine ⟨by omega, device'', ?_⟩
    rw [← haddress]
    exact hwritten.trans hwritten' h.lastPass

/-- What follows writes nothing. -/
theorem trans_nothing {writes : Int → List (Int × Byte)} {len : Int} {im im' im'' : MemoryImage n m}
    (h : Lays writes len im im') (h' : Lays (fun _ => []) 0 im' im'') (hlen : 0 ≤ len) :
    Lays writes len im im'' := by
  have := h.trans h' hlen le_rfl
  simp only [List.append_nil, Int.add_zero] at this
  exact this

/-- What comes first writes nothing. -/
theorem nothing_trans {writes : Int → List (Int × Byte)} {len : Int} {im im' im'' : MemoryImage n m}
    (h : Lays (fun _ => []) 0 im im') (h' : Lays writes len im' im'') (hlen : 0 ≤ len) :
    Lays writes len im im'' := by
  have := h.trans h' le_rfl hlen
  simp only [List.nil_append, Int.zero_add, Int.add_zero] at this
  exact this

end Lays

/-- A check moves nothing and writes nothing, unless it maps a next page. -/
theorem lays_checkPage (im : MemoryImage n m) (level : CheckPageLevel) {device : Device n m}
    (hdevice : im.device = some device) : Lays (fun _ => []) 0 im (im.checkPage level device) := by
  have hsum : im.pageSum = device.pageSum := by rw [pageSum, hdevice]; rfl
  refine ⟨rfl, ?_, fun hpages device' hdevice' hlayout _ _ => ?_⟩
  · rw [hsum]
    show _ ≤ (device.check im.lastPass level im.address).device.pageSum
    rcases device.shows_check im.lastPass level im.address with ⟨-, hshown⟩ | hlt
    · exact (Device.pageSum_congr hshown).ge
    · exact hlt.le
  · obtain rfl := Option.some.inj (hdevice.symm.trans hdevice')
    obtain ⟨hback, hview⟩ :=
      device.viewedAlike_check im.lastPass level im.address (hpages.trans hsum)
    refine ⟨?_, _, .nothing rfl hview (device.keepsMemory_check im.lastPass level im.address).memory⟩
    show im.address - ((device.check im.lastPass level im.address).back : Int) = im.address + 0
    rw [hback]
    omega

theorem lays_prepare (im : MemoryImage n m) : Lays (fun _ => []) 0 im im.prepare := by
  unfold prepare
  cases hdevice : im.device with
  | none => exact .nothing rfl rfl rfl
  | some device => exact im.lays_checkPage .noEmit hdevice

/-- The byte goes to the memory behind the check of its address. -/
theorem lays_written (im : MemoryImage n m) {device : Device n m} (hdevice : im.device = some device)
    (byte : Byte) (preserveDeviceMemory : Bool) :
    Lays (fun address => if preserveDeviceMemory then [] else [(address, byte)]) 1 im
      (({ im.checkPage .emit device with
        device := (im.checkPage .emit device).device.map
          (EmitState.writeMemory byte preserveDeviceMemory im.lastPass) } : MemoryImage n m).advance
        1) := by
  have hcheck := im.lays_checkPage .emit hdevice
  have hsum := EmitState.pageSum_writeMemory byte preserveDeviceMemory im.lastPass
    (device.check im.lastPass .emit im.address).device
  refine ⟨rfl, hcheck.pages.trans_eq hsum.symm, fun hpages device' hdevice' hlayout hstart hend => ?_⟩
  obtain rfl := Option.some.inj (hdevice.symm.trans hdevice')
  -- no page was mapped by the check, as the sum of the pages has not grown
  have hkept : (device.check im.lastPass .emit im.address).device.pageSum = device.pageSum := by
    rw [← hsum]
    exact hpages.trans (by rw [pageSum, hdevice]; rfl)
  obtain ⟨hback, hview⟩ := device.viewedAlike_check im.lastPass .emit im.address hkept
  have hhigh : im.address < 0x10000 := by
    have := hend.2
    omega
  -- the pointer behind the check is the cell of the address
  have hpointer := Device.memoryPointer_check hlayout im.lastPass .emit hstart.1 hhigh hkept
  rw [← hview.cellOf] at hpointer
  obtain ⟨hwritten, hmemory⟩ :=
    Device.memory_writeMemory hpointer byte preserveDeviceMemory im.lastPass
  refine ⟨?_, _, rfl, hview.trans hwritten, hmemory.trans ?_⟩
  · show im.address - ((device.check im.lastPass .emit im.address).back : Int) + 1 = im.address + 1
    rw [hback]
    omega
  · rw [hview.cellOf, (device.keepsMemory_check im.lastPass .emit im.address).memory]

/-- An emitted byte is stored at its address, unless the memory is to stay. -/
theorem lays_emitByte (im : MemoryImage n m) (byte : Byte) (preserveDeviceMemory : Bool) :
    Lays (fun address => if preserveDeviceMemory then [] else [(address, byte)]) 1 im
      (im.emitByte byte preserveDeviceMemory) := by
  -- the preparation of the source leaves the pass, the device and the address
  have hplace : ∀ im' : MemoryImage n m, im'.lastPass = im.lastPass → im'.device = im.device →
      im'.address = im.address →
      Lays (fun address => if preserveDeviceMemory then [] else [(address, byte)]) 1 im
        ((im'.placeByte byte preserveDeviceMemory).advance 1) := by
    intro im' hlast hdevice haddress
    have hsame : Lays (fun _ => []) 0 im im' := .nothing hlast hdevice haddress
    unfold placeByte
    cases hselected : im'.device with
    | none =>
      have hnone : im.device = none := hdevice.symm.trans hselected
      exact ⟨hlast, hsame.pages, fun _ device hsome => absurd (hnone.symm.trans hsome) (by simp)⟩
    | some device =>
      exact hsame.nothing_trans (im'.lays_written hselected byte preserveDeviceMemory) (by decide)
  unfold emitByte
  by_cases hlast : im.lastPass = true
  · rw [if_pos hlast]
    exact hplace _ rfl rfl rfl
  · rw [if_neg hlast]
    exact hplace _ rfl rfl rfl

theorem lays_iterate (byte : Byte) (preserveDeviceMemory : Bool) (k : Nat) (im : MemoryImage n m) :
    Lays (fun address => if preserveDeviceMemory then [] else bytesFrom address (List.replicate k byte))
      k im ((emitByte byte preserveDeviceMemory)^[k] im) := by
  induction k generalizing im with
  | zero => simpa [bytesFrom] using Lays.nothing rfl rfl rfl
  | succ k ih =>
    rw [Function.iterate_succ_apply]
    have h := (im.lays_emitByte byte preserveDeviceMemory).trans
      (ih (im.emitByte byte preserveDeviceMemory)) (by decide) (Int.natCast_nonneg k)
    rw [add_comm] at h
    cases preserveDeviceMemory <;> exact h

/-- A block of any length. -/
theorem lays_emitBlock (byte : Byte) (len : Int) (preserveDeviceMemory : Bool) (im : MemoryImage n m) :
    Lays (fun address =>
        if preserveDeviceMemory then [] else bytesFrom address (List.replicate len.toNat byte))
      len im (im.emitBlock byte len preserveDeviceMemory) := by
  unfold emitBlock
  by_cases hlen : len ≤ 0
  · rw [if_pos hlen, Int.toNat_of_nonpos hlen]
    -- nothing is written, the address moves back
    have hprepare := (im.advance len).lays_prepare
    refine ⟨hprepare.lastPass, hprepare.pages, fun hpages device hdevice hlayout hstart hend => ?_⟩
    obtain ⟨haddress, device', hwritten⟩ := hprepare.stored hpages device hdevice hlayout hend
      (by rw [add_zero]; exact hend)
    refine ⟨haddress.trans (add_zero _), device', ?_⟩
    rw [List.replicate_zero, bytesFrom, ite_self]
    exact ⟨hwritten.selected, hwritten.view, hwritten.memory⟩
  · rw [if_neg hlen]
    have h := lays_iterate byte preserveDeviceMemory len.toNat im
    rw [Int.toNat_of_nonneg (by omega)] at h
    exact h

theorem lays_emitBytes (bytes : List Byte) (im : MemoryImage n m) :
    Lays (bytesFrom · bytes) bytes.length im (im.emitBytes bytes) := by
  induction bytes generalizing im with
  | nil => exact .nothing rfl rfl rfl
  | cons byte bytes ih =>
    have h := (im.lays_emitByte byte false).trans (ih (im.emitByte byte false)) (by decide)
      (Int.natCast_nonneg _)
    rw [List.length_cons, Nat.cast_succ, add_comm]
    exact h

end MemoryImage

end Sjasmplus
