import Sjasmplus.Mapping
import Sjasmplus.Nex

/-!
# Defined devices (`DEFDEVICE` of `directives.cpp`)

`DEFDEVICE` defines a device with slots of one size and some pages.  The list of the initial pages may be
shorter than the slots: a slot without a page gets the page behind that of the slot in front of it.

The array of the arguments has two entries in front of the initial pages, but its defaults end where the
array would end without them, so the last two slots of a device with the smallest slots have no default.

* `dirDEFDEVICE_pages_iff` — every slot gets its page exactly when the list reaches neither into the
  arguments without a default nor leaves one of them to a slot.
-/

namespace Sjasmplus

/-! ### The program -/

/-- `LABEL_PAGE_MAX_RAM`. -/
def labelPageMaxRam : Int := 30000

/-- `CDeviceDef`; the list of the initial pages ends with the last slot. -/
structure CDeviceDef where
  id : Text
  slotSize : Aint
  pagesCount : Aint
  initialPages : List Int

/-- `SlotsCount`. -/
def slotsCount (slotSize : Aint) : Nat := ((0x10000 + slotSize.toInt - 1) / slotSize.toInt).toNat

/-- The loop in front of the arguments gives its defaults to the entries below `MAX_SLOT_N`. -/
def hasDefault (i : Nat) : Bool := 2 ≤ i && i < maxSlotN

/-- `args`, with the slot size and the number of pages in front of the initial pages. -/
def defDeviceArgs : List Aint :=
  (List.range (2 + maxSlotN)).map fun i => if hasDefault i then -1 else 0

/-- `optional`. -/
def defDeviceOptional : List Bool := (List.range (2 + maxSlotN)).map hasDefault

/-- The number is a page of the device. -/
def ValidPage (pagesCount : Int) (page : Aint) : Prop := 0 ≤ page.toInt ∧ page.toInt < pagesCount

instance (pagesCount : Int) (page : Aint) : Decidable (ValidPage pagesCount page) :=
  inferInstanceAs (Decidable (_ ∧ _))

/-- One turn of the loop over the slots. -/
def initPage (pagesCount previousPage : Int) (initialPage : Aint) : Int :=
  if ValidPage pagesCount initialPage then initialPage.toInt
  else if previousPage < pagesCount - 1 then previousPage + 1
  else previousPage

/-- What the turn reports. -/
def initPageReports (pagesCount : Int) (initialPage : Aint) : List Event :=
  if ValidPage pagesCount initialPage ∨ initialPage = -1 then []
  else [errorInt "[DEFDEVICE] invalid initial page" initialPage.toInt .early]

/-- The loop over the slots. -/
def initPages (pagesCount : Int) : Int → List Aint → List Int
  | _, [] => []
  | previousPage, initialPage :: initialPages =>
    let page := initPage pagesCount previousPage initialPage
    page :: initPages pagesCount page initialPages

/-- `strcasecmp`. -/
def sameIgnoringCase (id id' : Text) : Bool := id.map Char.toLower = id'.map Char.toLower

def defDeviceSyntaxErr : String :=
  "[DEFDEVICE] expected syntax is <deviceid>, <slot_size>, <page_count>[, <slot_0_initial_page>[, ...]]"

/-- `dirDEFDEVICE` behind its operands: the identifier, and the list of integers behind a comma. -/
def dirDEFDEVICE (pass : Nat) (bp : Text) (id : Option Text) (given : Option ArgumentList)
    (defDevices : List CDeviceDef) : Reported (List CDeviceDef) :=
  match id with
  | none => (defDevices, [.error defDeviceSyntaxErr (some bp) .suppress])
  | some id =>
    if defDevices.any (sameIgnoringCase id ·.id) ∨ 1 < pass then
      (defDevices,
        if pass ≤ 1 then [.error "[DEFDEVICE] device with such ID is already defined" (some id) .early]
        else [])
    else
      match given.bind (getIntArguments defDeviceArgs defDeviceOptional) with
      | none => (defDevices, [.error defDeviceSyntaxErr (some bp) .early])
      | some args =>
        let slotSize := args 0
        let pageCount := args 1
        if slotSize.outside 256 0x10000 ∨ pageCount.outside 1 labelPageMaxRam then
          (defDevices,
            [.error "[DEFDEVICE] valid slot_size: 256..64ki, page_count: 1..30000" (some bp) .early])
        else
          let initial := (List.range (slotsCount slotSize)).map fun i => args (2 + i)
          (defDevices ++ [⟨id, slotSize, pageCount, initPages pageCount.toInt (-1) initial⟩],
            initial.flatMap (initPageReports pageCount.toInt))

/-! ### The pages of the slots -/

/-- The page of the slot in front; there is none in front of the first one. -/
def previousPage (pages : List Int) : Nat → Int
  | 0 => -1
  | i + 1 => pages.getD i 0

/-- The documented initial pages: a slot shows the page that the list gives to it, and otherwise the page
behind that of the slot in front, up to the last page. -/
structure SlotPages (pagesCount : Int) (slots : Nat) (given : List Aint) (pages : List Int) : Prop where
  length_eq : pages.length = slots
  given_page : ∀ i < slots, ∀ page, given[i]? = some page → ValidPage pagesCount page →
    pages[i]? = some page.toInt
  next_page : ∀ i < slots, (∀ page, given[i]? = some page → ¬ ValidPage pagesCount page) →
    pages[i]? = some (min (previousPage pages i + 1) (pagesCount - 1))

/-- The statement adds a device with the documented initial pages. -/
def DefinesDevice (pass : Nat) (bp id : Text) (defDevices : List CDeviceDef) (slotSize pageCount : Aint)
    (given : List Aint) : Prop :=
  ∃ pages, (dirDEFDEVICE pass bp (some id) (some ⟨slotSize :: pageCount :: given, false⟩) defDevices).1
      = defDevices ++ [⟨id, slotSize, pageCount, pages⟩] ∧
    SlotPages pageCount.toInt (slotsCount slotSize) given pages

/-! ### The loop over the slots -/

variable {pagesCount : Int}

@[simp] theorem length_initPages (previous : Int) (initial : List Aint) :
    (initPages pagesCount previous initial).length = initial.length := by
  induction initial generalizing previous with
  | nil => rfl
  | cons page initial ih => exact congrArg (· + 1) (ih _)

/-- A slot gets its page from the one in front. -/
theorem getElem?_initPages (previous : Int) (initial : List Aint) (i : Nat) :
    (initPages pagesCount previous initial)[i]? = initial[i]?.map (initPage pagesCount
      (match i with
        | 0 => previous
        | i + 1 => (initPages pagesCount previous initial).getD i 0)) := by
  induction initial generalizing previous i with
  | nil => cases i <;> rfl
  | cons page initial ih =>
    cases i with
    | zero => rfl
    | succ i =>
      rw [initPages, List.getElem?_cons_succ, ih, List.getElem?_cons_succ]
      cases i <;> rfl

/-- Every slot gets a page of the device. -/
theorem mem_initPages {previous page : Int} {initial : List Aint} (hcount : 1 ≤ pagesCount)
    (hlow : -1 ≤ previous) (hhigh : previous < pagesCount)
    (hpage : page ∈ initPages pagesCount previous initial) : 0 ≤ page ∧ page < pagesCount := by
  induction initial generalizing previous with
  | nil => exact absurd hpage List.not_mem_nil
  | cons given initial ih =>
    have hfirst : 0 ≤ initPage pagesCount previous given ∧
        initPage pagesCount previous given < pagesCount := by
      unfold initPage ValidPage
      split_ifs <;> omega
    rcases List.mem_cons.mp hpage with rfl | hpage
    · exact hfirst
    · exact ih (by omega) hfirst.2 hpage

/-- Without a valid page, a slot gets the page behind that of the slot in front. -/
theorem initPage_of_not_valid {previous : Int} {page : Aint} (hhigh : previous < pagesCount)
    (hpage : ¬ ValidPage pagesCount page) :
    initPage pagesCount previous page = min (previous + 1) (pagesCount - 1) := by
  unfold initPage
  rw [if_neg hpage]
  split_ifs <;> omega

/-- The page of the slot in front is one of the device, if there is such a slot. -/
theorem previousPage_bounds (hcount : 1 ≤ pagesCount) (initial : List Aint) {i : Nat}
    (hi : i ≤ initial.length) :
    -1 ≤ previousPage (initPages pagesCount (-1) initial) i ∧
      previousPage (initPages pagesCount (-1) initial) i < pagesCount ∧
      (0 < i → 0 ≤ previousPage (initPages pagesCount (-1) initial) i) := by
  cases i with
  | zero =>
    rw [previousPage]
    omega
  | succ i =>
    have hlength : i < (initPages pagesCount (-1) initial).length := by
      rw [length_initPages]
      omega
    rw [previousPage, List.getD_eq_getElem?_getD, List.getElem?_eq_getElem hlength, Option.getD_some]
    have hpage := mem_initPages hcount (by omega) (by omega) (List.getElem_mem hlength)
    omega

/-- The pages that the loop gives to the slots. -/
theorem slotPages_initPages (hcount : 1 ≤ pagesCount) (initial : List Aint) :
    SlotPages pagesCount initial.length initial (initPages pagesCount (-1) initial) where
  length_eq := length_initPages _ _
  given_page i _ page hpage hvalid := by
    rw [getElem?_initPages, hpage, Option.map_some, initPage, if_pos hvalid]
  next_page i hi hpage := by
    have hprevious := (previousPage_bounds hcount initial hi.le).2.1
    rw [getElem?_initPages, List.getElem?_eq_getElem hi, Option.map_some]
    rw [← initPage_of_not_valid hprevious (hpage _ (List.getElem?_eq_getElem hi))]
    cases i <;> rfl

/-! ### The arguments -/

variable {slotSize pageCount : Aint} {given : List Aint}

/-- The values that the slots start from: the given pages, and then the defaults. -/
def initialPages (slots : Nat) (given : List Aint) : List Aint :=
  (List.range slots).map fun i => given.getD i (if 2 + i < maxSlotN then -1 else 0)

theorem toInt_of_inside {a : Aint} {low high : Int} (h : a.outside low high = false) :
    low ≤ a.toInt ∧ a.toInt ≤ high := by
  rw [Aint.outside, Bool.or_eq_false_iff, decide_eq_false_iff_not, decide_eq_false_iff_not] at h
  omega

/-- No device has more slots than its definition has room for. -/
theorem slotsCount_le (h : slotSize.outside 256 0x10000 = false) : slotsCount slotSize ≤ maxSlotN := by
  obtain ⟨hlow, -⟩ := toInt_of_inside h
  have hdiv : (0x10000 + slotSize.toInt - 1) / slotSize.toInt < 257 :=
    Int.ediv_lt_of_lt_mul (by omega) (by omega)
  rw [slotsCount, maxSlotN]
  omega

@[simp] theorem length_defDeviceOptional : defDeviceOptional.length = 258 := by
  rw [defDeviceOptional, List.length_map, List.length_range]
  rfl

/-- An array that is filled by a function of the index. -/
theorem getD_map_range {α : Type} {f : Nat → α} {default : α} {k : Nat}
    (hf : ∀ i, k ≤ i → f i = default) (i : Nat) : ((List.range k).map f).getD i default = f i := by
  rw [List.getD_eq_getElem?_getD, List.getElem?_map]
  by_cases h : i < k
  · rw [List.getElem?_range h]
    rfl
  · rw [List.getElem?_eq_none (by rw [List.length_range]; omega), hf i (by omega)]
    rfl

theorem getD_behind_two {α : Type} (a b : α) (l : List α) (i : Nat) (default : α) :
    (a :: b :: l).getD (2 + i) default = l.getD i default := by
  rw [Nat.add_comm]
  rfl

theorem hasDefault_iff (i : Nat) : hasDefault i ↔ 2 ≤ i ∧ i < 256 := by
  simp only [hasDefault, Bool.and_eq_true, decide_eq_true_eq]
  rfl

theorem hasDefault_of_le {i : Nat} (h : 2 + maxSlotN ≤ i) : hasDefault i = false := by
  simp only [hasDefault, Bool.and_eq_false_iff, decide_eq_false_iff_not]
  omega

theorem getD_defDeviceArgs (i : Nat) : defDeviceArgs.getD i 0 = if hasDefault i then -1 else 0 :=
  getD_map_range (fun i hi => by rw [hasDefault_of_le hi]; rfl) i

theorem getD_defDeviceOptional (i : Nat) : defDeviceOptional.getD i false = hasDefault i :=
  getD_map_range (fun _ hi => hasDefault_of_le hi) i

/-- A list that ends where there is no default is refused. -/
theorem accepted_iff (slotSize pageCount : Aint) (hgiven : given.length ≤ maxSlotN) :
    (ArgumentList.mk (slotSize :: pageCount :: given) false).accepted defDeviceOptional ↔
      given.length ≠ 254 ∧ given.length ≠ 255 := by
  rw [ArgumentList.accepted]
  dsimp only [List.length_cons]
  rw [length_defDeviceOptional, if_neg (by omega)]
  rw [maxSlotN] at hgiven
  by_cases hend : given.length + 1 + 1 < 258
  · rw [if_pos hend, Bool.not_false, Bool.true_and, getD_defDeviceOptional, hasDefault_iff]
    omega
  · rw [if_neg hend, Bool.not_false, Bool.and_true, decide_eq_true_eq]
    omega

theorem dirDEFDEVICE_eq {pass : Nat} (hpass : pass ≤ 1) (bp : Text) {id : Text}
    {defDevices : List CDeviceDef} (hnew : defDevices.any (sameIgnoringCase id ·.id) = false)
    (hslot : slotSize.outside 256 0x10000 = false)
    (hpages : pageCount.outside 1 labelPageMaxRam = false)
    (hgiven : given.length ≤ slotsCount slotSize) :
    (dirDEFDEVICE pass bp (some id) (some ⟨slotSize :: pageCount :: given, false⟩) defDevices).1 =
      if given.length ≠ 254 ∧ given.length ≠ 255 then
        defDevices ++ [⟨id, slotSize, pageCount, initPages pageCount.toInt (-1)
          (initialPages (slotsCount slotSize) given)⟩]
      else defDevices := by
  have haccepted := accepted_iff slotSize pageCount
    (hgiven.trans (slotsCount_le hslot))
  have hfirst : ¬ (defDevices.any (sameIgnoringCase id ·.id) ∨ 1 < pass) := by
    rw [hnew]
    rintro (h | h)
    · cases h
    · omega
  rw [dirDEFDEVICE, if_neg hfirst, Option.bind_some, getIntArguments]
  -- the defaults of the argument list end at index 255, two of them for the sizes
  by_cases hcount : given.length ≠ 254 ∧ given.length ≠ 255
  · rw [if_pos (haccepted.mpr hcount), if_pos hcount]
    -- a slot without an argument gets -1, and 0 behind the defaults
    have hinitial : ((List.range (slotsCount slotSize)).map fun i =>
        (slotSize :: pageCount :: given).getD (2 + i) (defDeviceArgs.getD (2 + i) 0))
          = initialPages (slotsCount slotSize) given := by
      apply List.map_congr_left
      intro i _
      have hdefault : hasDefault (2 + i) = decide (2 + i < maxSlotN) := by simp [hasDefault]
      rw [getD_defDeviceArgs, hdefault, getD_behind_two]
      simp only [decide_eq_true_eq]
    have hvalid : ¬ (slotSize.outside 256 0x10000 ∨ pageCount.outside 1 labelPageMaxRam) := by
      rw [hslot, hpages]
      exact not_or_intro Bool.false_ne_true Bool.false_ne_true
    rw [← hinitial]
    exact congrArg Prod.fst (if_neg hvalid)
  · rw [if_neg (haccepted.not.mpr hcount), if_neg hcount]

/-! ### The device -/

/-- The list can be given, and it leaves no slot to an argument without a default, unless there is one
page only. -/
def DefaultsSuffice (slotSize pageCount : Aint) (given : List Aint) : Prop :=
  given.length ≠ 254 ∧ given.length ≠ 255 ∧
    (slotsCount slotSize ≤ 254 ∨ given.length = 256 ∨ pageCount.toInt = 1)

/-- What a slot starts from: the given page if there is one, and otherwise a default. -/
theorem getElem?_initialPages {slots i : Nat} (hi : i < slots) :
    (initialPages slots given)[i]?
      = some (given.getD i (if 2 + i < maxSlotN then -1 else 0)) := by
  rw [initialPages, List.getElem?_map, List.getElem?_range hi, Option.map_some]

theorem slotPages_of_defaultsSuffice {slots : Nat} (hcount : 1 ≤ pagesCount) (hslots : slots ≤ 256)
    (h : slots ≤ 254 ∨ given.length = 256 ∨ pagesCount = 1) :
    SlotPages pagesCount slots given (initPages pagesCount (-1) (initialPages slots given)) := by
  have hlength : (initialPages slots given).length = slots := by
    rw [initialPages, List.length_map, List.length_range]
  have hpages := slotPages_initPages hcount (initialPages slots given)
  rw [hlength] at hpages
  -- the number of slots, the given pages, and the pages that follow them
  constructor
  · exact hpages.length_eq
  · intro i hi page hpage hvalid
    apply hpages.given_page i hi page _ hvalid
    rw [getElem?_initialPages hi, List.getD_eq_getElem?_getD, hpage, Option.getD_some]
  · intro i hi hpage
    by_cases hvalid : ValidPage pagesCount (given.getD i (if 2 + i < maxSlotN then -1 else 0))
    · -- a missing default is a page, so it has to be the only one
      have hbehind : given.length ≤ i := by
        by_contra hlt
        have hget : given[i]? = some given[i] := List.getElem?_eq_getElem (by omega)
        rw [List.getD_eq_getElem?_getD, hget, Option.getD_some] at hvalid
        exact hpage _ hget hvalid
      rw [List.getD_eq_getElem?_getD, List.getElem?_eq_none hbehind, Option.getD_none] at hvalid
      have hend : ¬ 2 + i < maxSlotN := by
        intro hlt
        rw [if_pos hlt] at hvalid
        exact absurd hvalid.1 (by decide)
      rw [maxSlotN] at hend
      have hone : pagesCount = 1 := by omega
      have hi' : i < (initPages pagesCount (-1) (initialPages slots given)).length := by
        rw [length_initPages, hlength]
        exact hi
      have hpage' := mem_initPages hcount (by omega) (by omega) (List.getElem_mem hi')
      have hprevious := previousPage_bounds hcount (initialPages slots given) (hlength.symm ▸ hi.le)
      rw [List.getElem?_eq_getElem hi']
      congr 1
      omega
    · apply hpages.next_page i hi
      intro page hdefault
      rw [getElem?_initialPages hi] at hdefault
      rwa [← Option.some.inj hdefault]

theorem not_slotPages {slots : Nat} (hcount : 1 < pagesCount) (hslots : 254 < slots)
    (hgiven : given.length < 254) :
    ¬ SlotPages pagesCount slots given (initPages pagesCount (-1) (initialPages slots given)) := by
  intro h
  have hmissing (page : Aint) (hpage : given[254]? = some page) : ¬ ValidPage pagesCount page := by
    rw [List.getElem?_eq_none (by omega)] at hpage
    cases hpage
  have hnext := h.next_page 254 hslots hmissing
  have hzero : (initPages pagesCount (-1) (initialPages slots given))[254]? = some 0 := by
    rw [getElem?_initPages, getElem?_initialPages hslots, List.getD_eq_getElem?_getD,
      List.getElem?_eq_none (by omega)]
    exact congrArg some (if_pos ⟨le_refl _, hcount.trans' Int.zero_lt_one⟩)
  have hlength : (initialPages slots given).length = slots := by
    rw [initialPages, List.length_map, List.length_range]
  obtain ⟨-, -, hprevious⟩ := previousPage_bounds hcount.le (initialPages slots given)
    (hlength.symm ▸ hslots.le)
  have hsame := Option.some.inj (hnext.symm.trans hzero)
  omega

/-- **The initial pages of `DEFDEVICE`.**  For every slot size, every number of pages and every list of
initial pages that is not longer than the slots, the device is defined with the documented pages if and
only if the defaults suffice. -/
theorem dirDEFDEVICE_pages_iff {pass : Nat} (hpass : pass ≤ 1) (bp : Text) {id : Text}
    {defDevices : List CDeviceDef} (hnew : defDevices.any (sameIgnoringCase id ·.id) = false)
    (hslot : slotSize.outside 256 0x10000 = false)
    (hpages : pageCount.outside 1 labelPageMaxRam = false)
    (hgiven : given.length ≤ slotsCount slotSize) :
    DefinesDevice pass bp id defDevices slotSize pageCount given ↔
      DefaultsSuffice slotSize pageCount given := by
  have hslots := slotsCount_le hslot
  have hcount := (toInt_of_inside hpages).1
  unfold DefinesDevice DefaultsSuffice
  rw [dirDEFDEVICE_eq hpass bp hnew hslot hpages hgiven]
  -- a list that ends just at the missing defaults is refused
  by_cases hlist : given.length ≠ 254 ∧ given.length ≠ 255
  · rw [if_pos hlist]
    constructor
    · rintro ⟨pages, hdevice, hslotPages⟩
      refine ⟨hlist.1, hlist.2, ?_⟩
      -- a slot behind the defaults gets page 0, which is not the next one
      by_contra hfew
      have hsame : initPages pageCount.toInt (-1) (initialPages (slotsCount slotSize) given) = pages :=
        congrArg CDeviceDef.initialPages (List.singleton_inj.mp (List.append_cancel_left hdevice))
      rw [← hsame] at hslotPages
      exact not_slotPages (by omega) (by omega) (by rw [maxSlotN] at hslots; omega) hslotPages
    · rintro ⟨-, -, hsuffice⟩
      exact ⟨_, rfl, slotPages_of_defaultsSuffice hcount hslots hsuffice⟩
  · rw [if_neg hlist]
    constructor
    · rintro ⟨pages, hdevice, -⟩
      have hlength := congrArg List.length hdevice
      rw [List.length_append, List.length_singleton] at hlength
      omega
    · rintro ⟨h1, h2, -⟩
      exact absurd ⟨h1, h2⟩ hlist

/-- Four slots with four pages, the last one first. -/
theorem dirDEFDEVICE_pages_quarters :
    (0x4000 : Aint).outside 256 0x10000 = false ∧ (4 : Aint).outside 1 labelPageMaxRam = false ∧
      (DefinesDevice 1 [] ['D'] [] 0x4000 4 [3] ↔ DefaultsSuffice 0x4000 4 [3]) :=
  ⟨by decide, by decide, dirDEFDEVICE_pages_iff (by decide) [] rfl (by decide) (by decide) (by decide)⟩

/-- Two pages for slots of 256 bytes: the last two slots get the first page again. -/
theorem not_definesDevice :
    ¬ ∀ (pass : Nat) (bp id : Text) (defDevices : List CDeviceDef) (slotSize pageCount : Aint)
      (given : List Aint), pass ≤ 1 → defDevices.any (sameIgnoringCase id ·.id) = false →
        slotSize.outside 256 0x10000 = false → pageCount.outside 1 labelPageMaxRam = false →
          given.length ≤ slotsCount slotSize →
            DefinesDevice pass bp id defDevices slotSize pageCount given := by
  intro h
  have hslot : (256 : Aint).outside 256 0x10000 = false := by decide
  have hpages : (2 : Aint).outside 1 labelPageMaxRam = false := by decide
  have hslots : slotsCount 256 = 256 := by decide
  obtain ⟨pages, hdevice, hslotPages⟩ :=
    h 1 [] ['D'] [] 256 2 [] (by decide) rfl hslot hpages (Nat.zero_le _)
  rw [dirDEFDEVICE_eq (by decide) [] rfl hslot hpages (Nat.zero_le _), if_pos (by decide)] at hdevice
  have hsame : initPages (2 : Aint).toInt (-1) (initialPages (slotsCount 256) []) = pages :=
    congrArg CDeviceDef.initialPages (List.singleton_inj.mp hdevice)
  rw [← hsame] at hslotPages
  exact not_slotPages (by decide) (by omega) (by decide) hslotPages

end Sjasmplus
