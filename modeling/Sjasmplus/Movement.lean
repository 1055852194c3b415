import Mathlib.Algebra.Order.BigOperators.Group.Finset
import Mathlib.Data.Fintype.Basic
import Sjasmplus.Evaluation

/-!
# How emitting moves the address

An emitted byte moves the address by one.  Two things break that: a displaced address wraps around at
the end of the address space, and a slot with the option `next` maps its next page and moves the
address back by its size.  The second one is visible in the mapping: no check ever goes back to an
earlier page, so a mapping that is the same in the end was the same all the time (`pageSum`).
-/

namespace Sjasmplus

open Program

variable {n m : Nat}

namespace Device

variable (device : Device n m)

/-- The pages that the slots show. -/
def shownPages : Fin n → Fin m := fun i => (device.slots i).page

/-- The sum of the page numbers, which grows whenever a next page is mapped. -/
def pageSum : Nat := ∑ i, (device.shownPages i).val

theorem pageSum_congr {device device' : Device n m} (h : device'.shownPages = device.shownPages) :
    device'.pageSum = device.pageSum := by
  rw [pageSum, h, pageSum]

/-- Mapping the next page. -/
theorem pageSum_mapPage {page : Fin m}
    (h : page.val = (device.slots device.previousSlotI).page.val + 1) :
    device.pageSum < (device.mapPage page).pageSum := by
  have hpages : ∀ i, ((device.mapPage page).shownPages i).val
      = if i = device.previousSlotI then page.val else (device.shownPages i).val := by
    intro i
    by_cases hi : i = device.previousSlotI
    · subst hi
      simp [shownPages, mapPage, setSlot]
    · simp [shownPages, mapPage, setSlot, hi]
  refine Finset.sum_lt_sum (fun i _ => ?_) ⟨device.previousSlotI, Finset.mem_univ _, ?_⟩
  · rw [hpages]
    split_ifs with hi
    · subst hi
      exact (Nat.le_succ _).trans_eq h.symm
    · exact le_rfl
  · rw [hpages, if_pos rfl, h]
    exact Nat.lt_succ_self _

/-- A check that moves the address back maps a next page; otherwise it maps nothing. -/
def Shows (r : CheckResult n m) : Prop :=
  (r.back = 0 ∧ r.device.shownPages = device.shownPages) ∨ device.pageSum < r.device.pageSum

theorem shownPages_refresh (level : CheckPageLevel) (i : Fin n) :
    (device.refresh level i).shownPages = device.shownPages := by
  unfold refresh
  split_ifs <;> rfl

theorem shows_nextPage (level : CheckPageLevel) (i : Fin n) (longAddr : Int) :
    device.Shows (device.nextPage level i longAddr) := by
  unfold nextPage
  dsimp only
  split_ifs with h
  · exact .inl ⟨rfl, shownPages_refresh _ _ _⟩
  · exact .inr (device.pageSum_mapPage rfl)
  · refine .inl ⟨rfl, (shownPages_refresh _ _ _).trans (funext fun j => ?_)⟩
    by_cases hj : j = device.previousSlotI
    · subst hj
      simp [shownPages, setSlot]
    · simp [shownPages, setSlot, hj]

theorem shows_crossSlot (lastPass : Bool) (level : CheckPageLevel) (i : Fin n) (longAddr : Int) :
    device.Shows (device.crossSlot lastPass level i longAddr) := by
  unfold crossSlot
  dsimp only
  split
  · split_ifs <;> exact .inl ⟨rfl, shownPages_refresh _ _ _⟩
  · split_ifs <;> exact .inl ⟨rfl, shownPages_refresh _ _ _⟩
  · exact device.shows_nextPage level i longAddr
  · split_ifs <;> exact .inl ⟨rfl, shownPages_refresh _ _ _⟩

theorem shows_check (lastPass : Bool) (level : CheckPageLevel) (longAddr : Int) :
    device.Shows (device.check lastPass level longAddr) := by
  unfold check
  dsimp only
  -- the page moves only where a slot is crossed, and `NEXT` maps one
  by_cases hquick : level ≠ .reset ∧ (device.slots device.previousSlotI).Contains longAddr
  · rw [if_pos hquick]
    exact .inl ⟨rfl, rfl⟩
  · rw [if_neg hquick]
    cases device.findSlot longAddr with
    | none => exact .inl ⟨rfl, rfl⟩
    | some i =>
      dsimp only
      by_cases hreset : level = .reset
      · rw [if_pos hreset]
        exact .inl ⟨rfl, rfl⟩
      · rw [if_neg hreset]
        by_cases hsame : i = device.previousSlotI ∧ (device.slots i).Contains longAddr
        · rw [if_pos hsame]
          exact .inl ⟨rfl, rfl⟩
        · rw [if_neg hsame]
          exact (device.showSlot i longAddr).shows_crossSlot lastPass level i longAddr

/-- The address stands right behind the current slot, whose option is `next` and whose page is not the
last one. -/
structure MapsNextPage (longAddr : Int) : Prop where
  option : device.previousSlotOpt = .next
  border : longAddr
    = (device.slots device.previousSlotI).address + (device.slots device.previousSlotI).size
  next : (device.slots device.previousSlotI).page.val + 1 < m
  found : (device.findSlot longAddr).isSome

theorem back_crossSlot_of_not_mapsNextPage (lastPass : Bool) (level : CheckPageLevel) {i : Fin n}
    {longAddr : Int} (hfind : device.findSlot longAddr = some i)
    (h : ¬device.MapsNextPage longAddr) :
    ((device.showSlot i longAddr).crossSlot lastPass level i longAddr).back = 0 := by
  -- only the option for the next page moves the address back
  by_cases hopt : device.previousSlotOpt = .next
  · have hcross : (device.showSlot i longAddr).crossSlot lastPass level i longAddr
        = (device.showSlot i longAddr).nextPage level i longAddr := by
      simp only [crossSlot, showSlot, hopt]
    rw [hcross]
    unfold nextPage
    dsimp only
    split_ifs with hnext hborder
    · rfl
    · exact absurd ⟨hopt, not_not.mp hborder, hnext, by rw [hfind]; rfl⟩ h
    · rfl
  · unfold crossSlot
    dsimp only
    split
    · split_ifs <;> rfl
    · split_ifs <;> rfl
    · exact absurd ‹_› hopt
    · split_ifs <;> rfl

/-- A check moves the address back only where it maps the next page. -/
theorem back_check_of_not_mapsNextPage (lastPass : Bool) (level : CheckPageLevel) {longAddr : Int}
    (h : ¬device.MapsNextPage longAddr) : (device.check lastPass level longAddr).back = 0 := by
  unfold check
  dsimp only
  by_cases hquick : level ≠ .reset ∧ (device.slots device.previousSlotI).Contains longAddr
  · rw [if_pos hquick]
  · rw [if_neg hquick]
    cases hfind : device.findSlot longAddr with
    | none => rfl
    | some i =>
      dsimp only
      split_ifs
      · rfl
      · rfl
      · exact device.back_crossSlot_of_not_mapsNextPage lastPass level hfind h

/-- Mapping the next page moves the address back to the start of the slot. -/
theorem check_of_mapsNextPage (lastPass : Bool) {level : CheckPageLevel} (hlevel : level ≠ .reset)
    {longAddr : Int} (h : device.MapsNextPage longAddr) :
    ∃ i, device.findSlot longAddr = some i ∧
      device.check lastPass level longAddr
        = ⟨(device.showSlot i longAddr).mapPage
            ⟨(device.slots device.previousSlotI).page.val + 1, h.next⟩,
          (device.slots device.previousSlotI).size, []⟩ := by
  -- at the border of its slot the address is in none of the short ways
  have hprev : ¬(device.slots device.previousSlotI).Contains longAddr := by
    rintro ⟨-, hhigh⟩
    exact absurd h.border hhigh.ne
  obtain ⟨i, hfind⟩ := Option.isSome_iff_exists.mp h.found
  have hne : ¬(i = device.previousSlotI ∧ (device.slots i).Contains longAddr) := by
    rintro ⟨rfl, hcontains⟩
    exact hprev hcontains
  refine ⟨i, hfind, ?_⟩
  unfold check
  rw [if_neg (fun hquick => hprev hquick.2), hfind]
  dsimp only
  rw [if_neg hlevel, if_neg hne]
  unfold crossSlot nextPage
  simp only [showSlot, h.option, h.next, h.border, dite_true, ne_eq, not_true_eq_false, if_false]

end Device

/-! ### Moving the address -/

namespace EmitState

/-- The pages that the slots of the device show. -/
def shownPages (s : EmitState n m) : Option (Fin n → Fin m) := s.device.map Device.shownPages

def pageSum (s : EmitState n m) : Nat := (s.device.map Device.pageSum).getD 0

theorem pageSum_of_shownPages {s t : EmitState n m} (h : t.shownPages = s.shownPages) :
    t.pageSum = s.pageSum := by
  have hsum : ∀ s : EmitState n m,
      s.pageSum = (s.shownPages.map fun f => ∑ i, (f i).val).getD 0 := by
    intro s
    unfold pageSum shownPages
    cases s.device <;> rfl
  rw [hsum, hsum, h]

/-- Emitting the bytes moves the address by their number, unless a next page is mapped or the address
passes the end of the address space. -/
structure Emits (bytes : List Byte) (len : Int) (s t : EmitState n m) : Prop where
  pass : t.pass = s.pass
  pages : s.pageSum ≤ t.pageSum
  output : t.output = s.output ++ if s.pass = lastPass then bytes else []
  address : t.pageSum = s.pageSum → s.curAddress + len ≤ 0x10000 →
    t.curAddress = s.curAddress + len

namespace Emits

theorem nothing {s t : EmitState n m} (hpass : t.pass = s.pass) (hdevice : t.device = s.device)
    (houtput : t.output = s.output) (haddress : t.curAddress = s.curAddress) : Emits [] 0 s t where
  pass := hpass
  pages := by rw [pageSum, pageSum, hdevice]
  output := by rw [houtput, ite_self, List.append_nil]
  address := fun _ _ => haddress.trans (Int.add_zero _).symm

theorem trans {bytes bytes' : List Byte} {len len' : Int} {s t u : EmitState n m}
    (h : Emits bytes len s t) (h' : Emits bytes' len' t u) (hlen : 0 ≤ len') :
    Emits (bytes ++ bytes') (len + len') s u where
  pass := h'.pass.trans h.pass
  pages := h.pages.trans h'.pages
  output := by
    rw [h'.output, h.output, h.pass, List.append_assoc]
    split_ifs <;> simp
  address := fun hpages hbound => by
    have hst : t.pageSum = s.pageSum := by
      have := h.pages
      have := h'.pages
      omega
    have ht := h.address hst (by omega)
    have hu := h'.address (hpages.trans hst.symm) (by omega)
    omega

/-- What follows leaves the address alone. -/
theorem trans_nothing {bytes : List Byte} {len : Int} {s t u : EmitState n m}
    (h : Emits bytes len s t) (h' : Emits [] 0 t u) : Emits bytes len s u := by
  have := h.trans h' le_rfl
  rwa [List.append_nil, Int.add_zero] at this

/-- What comes first leaves the address alone. -/
theorem nothing_trans {bytes : List Byte} {len : Int} {s t u : EmitState n m}
    (h : Emits [] 0 s t) (h' : Emits bytes len t u) (hlen : 0 ≤ len) : Emits bytes len s u := by
  have := h.trans h' hlen
  rwa [List.nil_append, Int.zero_add] at this

end Emits

/-- `CheckPage` before a byte is emitted at an address inside the address space, or without one. -/
theorem emits_checkPage (level : CheckPageLevel) (s : EmitState n m) {device : Device n m}
    (hdevice : s.device = some device) :
    (s.checkPage level device).pass = s.pass ∧ s.pageSum ≤ (s.checkPage level device).pageSum ∧
      (s.checkPage level device).output = s.output ∧
      ((s.checkPage level device).pageSum = s.pageSum →
        level = .noEmit ∨ s.curAddress < 0x10000 →
          (s.checkPage level device).curAddress = s.curAddress) := by
  set t := s.wrapDisplaced level with ht
  -- a displaced address may wrap, which the two conditions exclude
  have hwrap : t.pass = s.pass ∧ t.output = s.output ∧
      (level = .noEmit ∨ s.curAddress < 0x10000 → t.curAddress = s.curAddress) := by
    rw [ht, wrapDisplaced]
    split_ifs with h
    · refine ⟨rfl, rfl, fun hcase => ?_⟩
      rcases hcase with hlevel | haddress
      · exact absurd hlevel h.2.1
      · exact absurd h.2.2 (by omega)
    · exact ⟨rfl, rfl, fun _ => rfl⟩
  have hsum : s.pageSum = device.pageSum := by rw [pageSum, hdevice]; rfl
  have hnew : (s.checkPage level device).pageSum
      = (device.check (t.pass = lastPass) level t.emitAddress).device.pageSum := rfl
  -- with the same sum of the pages nothing was mapped, so that nothing moved back
  refine ⟨hwrap.1, ?_, hwrap.2.1, fun hpages hcase => ?_⟩
  · rw [hsum, hnew]
    rcases device.shows_check (t.pass = lastPass) level t.emitAddress with ⟨-, hshown⟩ | hlt
    · exact (Device.pageSum_congr hshown).ge
    · exact hlt.le
  · rw [hsum, hnew] at hpages
    rcases device.shows_check (t.pass = lastPass) level t.emitAddress with ⟨hback, -⟩ | hlt
    · show (if t.displaced then t.curAddress else t.curAddress - _) = s.curAddress
      rw [hback, hwrap.2.2 hcase]
      split_ifs
      · rfl
      · exact Int.sub_zero _
    · exact absurd hpages (Nat.ne_of_gt hlt)

theorem emits_prepareLine (s : EmitState n m) : Emits [] 0 s s.prepareLine := by
  unfold prepareLine
  rcases hdevice : s.device with _ | device
  · exact .nothing rfl rfl rfl rfl
  · obtain ⟨hpass, hpages, houtput, haddress⟩ := emits_checkPage .noEmit s hdevice
    refine ⟨hpass, hpages, by rw [houtput, ite_self, List.append_nil], fun hsum _ => ?_⟩
    exact (haddress hsum (.inl rfl)).trans (Int.add_zero _).symm

theorem checkRamLimitExceeded_address {s : EmitState n m} (h : s.curAddress < 0x10000) :
    s.checkRamLimitExceeded.curAddress = s.curAddress := by
  have hcur : s.checkCurAddress.curAddress = s.curAddress := by
    rw [checkCurAddress, if_neg (by omega)]
  have hdisp : ∀ t : EmitState n m, t.checkAdrdisp.curAddress = t.curAddress := by
    intro t
    unfold checkAdrdisp
    split_ifs <;> rfl
  unfold checkRamLimitExceeded
  split_ifs
  · rfl
  · rw [hdisp, hcur]

theorem checkRamLimitExceeded_rest (s : EmitState n m) :
    s.checkRamLimitExceeded.device = s.device ∧ s.checkRamLimitExceeded.output = s.output := by
  have hcur : s.checkCurAddress.device = s.device ∧ s.checkCurAddress.output = s.output := by
    unfold checkCurAddress
    split_ifs <;> exact ⟨rfl, rfl⟩
  have hdisp : ∀ t : EmitState n m, t.checkAdrdisp.device = t.device ∧
      t.checkAdrdisp.output = t.output := by
    intro t
    unfold checkAdrdisp
    split_ifs <;> exact ⟨rfl, rfl⟩
  unfold checkRamLimitExceeded
  split_ifs
  · exact ⟨rfl, rfl⟩
  · exact ⟨(hdisp _).1.trans hcur.1, (hdisp _).2.trans hcur.2⟩

theorem pageSum_map (s : EmitState n m) {f : Device n m → Device n m}
    (hf : ∀ device, (f device).pageSum = device.pageSum) :
    pageSum { s with device := s.device.map f } = s.pageSum := by
  unfold pageSum
  rcases s.device with _ | device
  · rfl
  · exact hf device

/-- Writing to memory changes no slot. -/
theorem pageSum_writeMemory (byte : Byte) (preserveDeviceMemory lastPass : Bool)
    (device : Device n m) :
    (writeMemory byte preserveDeviceMemory lastPass device).pageSum = device.pageSum := by
  refine Device.pageSum_congr ?_
  unfold writeMemory
  rcases device.memoryPointer with _ | p
  · rfl
  · show Device.shownPages _ = _
    split_ifs <;> rfl

/-- The check in front of a byte, and its place in memory. -/
theorem placeByte_emits (byte : Byte) (preserveDeviceMemory : Bool) (s : EmitState n m) :
    (s.placeByte byte preserveDeviceMemory).pass = s.pass ∧
      s.pageSum ≤ (s.placeByte byte preserveDeviceMemory).pageSum ∧
      (s.placeByte byte preserveDeviceMemory).output = s.output ∧
      ((s.placeByte byte preserveDeviceMemory).pageSum = s.pageSum → s.curAddress < 0x10000 →
        (s.placeByte byte preserveDeviceMemory).curAddress = s.curAddress) := by
  unfold placeByte
  rcases hdevice : s.device with _ | device
  · obtain ⟨hsame, houtput⟩ := s.checkRamLimitExceeded_rest
    refine ⟨(sameMode_checkRamLimitExceeded s).pass, ?_, houtput, fun _ h =>
      checkRamLimitExceeded_address h⟩
    show s.pageSum ≤ s.checkRamLimitExceeded.pageSum
    rw [pageSum, pageSum, hsame]
  · obtain ⟨hpass, hpages, houtput, haddress⟩ := emits_checkPage .emit s hdevice
    have hsum : ∀ t : EmitState n m, _ := fun t =>
      t.pageSum_map (pageSum_writeMemory byte preserveDeviceMemory (t.pass = lastPass))
    refine ⟨hpass, hpages.trans_eq (hsum _).symm, houtput, fun hpage h => ?_⟩
    exact haddress ((hsum _).symm.trans hpage) (.inr h)

theorem emits_emitByteNoListing (byte : Byte) (preserveDeviceMemory : Bool) (s : EmitState n m) :
    Emits [byte] 1 s (s.emitByteNoListing byte preserveDeviceMemory) := by
  set t : EmitState n m :=
    if s.pass = lastPass then { s with output := s.output ++ [byte] } else s with ht
  have hst : t.pass = s.pass ∧ t.pageSum = s.pageSum ∧ t.curAddress = s.curAddress ∧
      t.output = s.output ++ if s.pass = lastPass then [byte] else [] := by
    rw [ht]
    split_ifs
    · exact ⟨rfl, rfl, rfl, rfl⟩
    · exact ⟨rfl, rfl, rfl, (List.append_nil _).symm⟩
  obtain ⟨hpass, hpages, houtput, haddress⟩ := placeByte_emits byte preserveDeviceMemory t
  refine ⟨hpass.trans hst.1, hst.2.1.symm.trans_le hpages, houtput.trans hst.2.2.2, ?_⟩
  intro hsum hbound
  have hplaced := haddress (hsum.trans hst.2.1.symm) (by rw [hst.2.2.1]; omega)
  show (t.placeByte byte preserveDeviceMemory).curAddress + 1 = s.curAddress + 1
  rw [hplaced, hst.2.2.1]

theorem emits_emitByte (byte : Aint) (s : EmitState n m) :
    Emits [byte.setWidth 8] 1 s (s.emitByte byte) :=
  emits_emitByteNoListing _ _ s

/-- The bytes of a word, the low one first. -/
def wordBytes (word : Aint) : List Byte :=
  [(word &&& 0xFF).setWidth 8, (word.sshiftRight 8 &&& 0xFF).setWidth 8]

theorem emits_emitWord (word : Aint) (s : EmitState n m) :
    Emits (wordBytes word) 2 s (s.emitWord word) :=
  (emits_emitByte _ s).trans (emits_emitByte _ _) (by decide)

/-- A block of positive length. -/
theorem emits_iterate (byte : Byte) (preserveDeviceMemory : Bool) (k : Nat) (s : EmitState n m) :
    Emits (List.replicate k byte) k s ((emitByteNoListing byte preserveDeviceMemory)^[k] s) := by
  induction k generalizing s with
  | zero => exact .nothing rfl rfl rfl rfl
  | succ k ih =>
    rw [Function.iterate_succ_apply, List.replicate_succ, Nat.cast_succ, add_comm]
    exact (emits_emitByteNoListing byte preserveDeviceMemory s).trans (ih _) (Int.natCast_nonneg k)

/-- A block of any length; one that is empty must not be at the end of the address space. -/
theorem emits_emitBlock (byte : Aint) (len : Int) (preserveDeviceMemory : Bool) (s : EmitState n m) :
    let t := s.emitBlock byte len preserveDeviceMemory
    t.pass = s.pass ∧ s.pageSum ≤ t.pageSum ∧
      t.output = s.output ++ (if s.pass = lastPass then List.replicate len.toNat (byte.setWidth 8)
        else []) ∧
      (t.pageSum = s.pageSum → s.curAddress + len ≤ 0x10000 →
        (len ≤ 0 → s.curAddress + len < 0x10000) → t.curAddress = s.curAddress + len) := by
  intro t
  -- an empty block moves the address and is checked, a longer one is emitted byte by byte
  by_cases hlen : len ≤ 0
  · have hreplicate : List.replicate len.toNat (byte.setWidth 8 : Byte) = [] := by
      rw [Int.toNat_of_nonpos hlen, List.replicate_zero]
    rw [hreplicate, ite_self, List.append_nil]
    rcases hdevice : s.device with _ | device
    · have ht : t = (s.advance len).checkRamLimitExceeded := by
        show s.emitBlock byte len preserveDeviceMemory = _
        rw [emitBlock, if_pos hlen]
        dsimp only
        rw [show (s.advance len).device = none from hdevice]
      obtain ⟨hsame, houtput⟩ := (s.advance len).checkRamLimitExceeded_rest
      rw [ht]
      refine ⟨(sameMode_checkRamLimitExceeded _).pass, ?_, houtput, fun _ _ hbound => ?_⟩
      · rw [pageSum, pageSum, hsame]
        exact le_rfl
      · exact checkRamLimitExceeded_address (s := s.advance len) (hbound hlen)
    · have ht : t = (s.advance len).checkPage .noEmit device := by
        show s.emitBlock byte len preserveDeviceMemory = _
        rw [emitBlock, if_pos hlen]
        dsimp only
        rw [show (s.advance len).device = some device from hdevice]
      obtain ⟨hpass, hpages, houtput, haddress⟩ :=
        emits_checkPage .noEmit (s.advance len) hdevice
      rw [ht]
      exact ⟨hpass, hpages, houtput, fun hsum _ _ => haddress hsum (.inl rfl)⟩
  · have hcast : (len.toNat : Int) = len := Int.toNat_of_nonneg (by omega)
    have ht : t = (emitByteNoListing (byte.setWidth 8) preserveDeviceMemory)^[len.toNat] s :=
      if_neg hlen
    have h := emits_iterate (byte.setWidth 8) preserveDeviceMemory len.toNat s
    rw [hcast] at h
    rw [ht]
    exact ⟨h.pass, h.pages, h.output, fun hsum hbound _ => h.address hsum hbound⟩

end EmitState

end Sjasmplus
