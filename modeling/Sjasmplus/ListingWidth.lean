import Sjasmplus.ListingLines

/-!
# The width of line numbers in a listing (`InitPass` of `sjasm.cpp`)

The loop of `InitPass` multiplies a power of ten in 32 bits, and its test for an overflow does not see
the first powers that are reduced: 10^10 becomes 1410065408.

* `exec_initReglenwidth_iff` — the loop gives the exponent of the first reduced power above `maxlin`;
* `reglenwidth_eq_iff` — this is the number of digits of `maxlin` exactly below 1410065408;
* `exits_iff` — from 4135583744 on there is no such power, and the assembler exits;
* `listing_reads` — a listing does not show the difference, since it has five columns for numbers.
-/

namespace Sjasmplus

open Program WrappedPowers

/-! ### Powers of ten in 32 bits -/

/-- `maxpow10` behind so many turns. -/
def tenPow (k : Nat) : UInt32 := UInt32.ofNat (10 ^ k)

theorem toNat_tenPow (k : Nat) : (tenPow k).toNat = 10 ^ k % 2 ^ 32 := UInt32.toNat_ofNat'

theorem tenPow_mul (k : Nat) : tenPow k * 10 = tenPow (k + 1) := by
  rw [tenPow, tenPow, Nat.pow_succ, UInt32.ofNat_mul]
  rfl

/-- Before the factor 2^32, no reduced power is small enough for the test. -/
theorem not_tenPow_lt {k : Nat} (hpos : 0 < k) (hk : k < 32) : ¬ tenPow k < 10 := by
  have hpowers : ∀ k < 32, 0 < k → 10 ≤ 10 ^ k % 2 ^ 32 := by decide
  rw [UInt32.lt_iff_toNat_lt, toNat_tenPow, Nat.not_lt]
  exact hpowers k hk hpos

theorem tenPow_le_iff (k : Nat) (n : UInt32) : tenPow k ≤ n ↔ 10 ^ k % 2 ^ 32 ≤ n.toNat := by
  rw [UInt32.le_iff_toNat_le, toNat_tenPow]

/-- From the factor 2^32 on, the reduced powers are zero. -/
theorem tenPow_mod_eq_zero {k : Nat} (hk : 32 ≤ k) : 10 ^ k % 2 ^ 32 = 0 := by
  apply Nat.mod_eq_zero_of_dvd
  have htwo : 2 ^ 32 ∣ 10 ^ 32 := by decide
  exact htwo.trans (Nat.pow_dvd_pow 10 hk)

/-! ### The loop -/

section

variable {s t : ListingState} {k : Nat}

/-- The state with this width. -/
def withWidth (k : Nat) (s : ListingState) : ListingState := { s with reglenwidth := k }

/-- A turn of the loop: it exits at the 32nd power, and else compares the next power with `maxlin`. -/
theorem exec_widthTurn (hk : k < 31) (s : ListingState) :
    (widthTurn (tenPow k)).exec (withWidth k s) =
      (some (if 10 ^ (k + 1) % 2 ^ 32 ≤ s.maxlin.toNat then .inl (tenPow (k + 1)) else .inr ()),
        withWidth (k + 1) s) := by
  rw [widthTurn, exec_bind_of_some (exec_modify _ _), tenPow_mul,
    if_neg (not_tenPow_lt (Nat.succ_pos k) (by omega)), exec_bind_of_some (exec_get _), exec_pure]
  simp only [tenPow_le_iff]
  rfl

theorem exec_widthTurn_last (s : ListingState) :
    (widthTurn (tenPow 31)).exec (withWidth 31 s) = (none, withWidth 32 s) := by
  rw [widthTurn, exec_bind_of_some (exec_modify _ _), tenPow_mul, if_pos (by decide)]
  rfl

/-- The turns go on as long as the powers are not above `maxlin`. -/
theorem turns_of_powers (hk : k < 32) (hpowers : ∀ j, 0 < j → j ≤ k → 10 ^ j % 2 ^ 32 ≤ s.maxlin.toNat) :
    TurnsIn widthTurn (tenPow 0, withWidth 0 s) k (tenPow k, withWidth k s) := by
  induction k with
  | zero => exact .zero
  | succ k ih =>
    have hturns := ih (by omega) fun j hj hle => hpowers j hj (hle.trans (Nat.le_succ k))
    refine hturns.succ ?_
    rw [exec_widthTurn (by omega), if_pos (hpowers (k + 1) (Nat.succ_pos k) le_rfl)]

/-- There are fewer than 32 turns that go on, and the powers behind them are not above `maxlin`. -/
theorem powers_of_turns {y : UInt32 × ListingState}
    (h : TurnsIn widthTurn (tenPow 0, withWidth 0 s) k y) : k < 32 ∧ y = (tenPow k, withWidth k s) ∧
      ∀ j, 0 < j → j ≤ k → 10 ^ j % 2 ^ 32 ≤ s.maxlin.toNat := by
  -- by induction on the turns: one that goes on has compared its power with `maxlin`
  induction h with
  | zero => exact ⟨by decide, rfl, fun j hj hle => absurd hj (Nat.not_lt.mpr hle)⟩
  | @succ k y z _ hturn ih =>
    obtain ⟨hk, rfl, hpowers⟩ := ih
    rcases Nat.lt_or_ge k 31 with hlt | hge
    · rw [exec_widthTurn hlt] at hturn
      split_ifs at hturn with hle
      · obtain ⟨hpow, hstate⟩ := Prod.mk.inj hturn
        refine ⟨by omega, ?_, ?_⟩
        · rw [Option.some_inj, Sum.inl.injEq] at hpow
          exact Prod.ext hpow.symm hstate.symm
        · intro j hj hjk
          rcases Nat.le_succ_iff.mp hjk with hold | rfl
          · exact hpowers j hj hold
          · exact hle
      · simp at hturn
    · obtain rfl : k = 31 := by omega
      rw [exec_widthTurn_last] at hturn
      simp at hturn

/-- The turn in front of the first power above `maxlin` is the last one. -/
theorem exec_last_of_firstAbove (h : FirstAbove 10 (2 ^ 32) s.maxlin.toNat (k + 1)) :
    k < 31 ∧ TurnsIn widthTurn (tenPow 0, withWidth 0 s) k (tenPow k, withWidth k s) ∧
      (widthTurn (tenPow k)).exec (withWidth k s) = (some (.inr ()), withWidth (k + 1) s) := by
  have hk : k < 31 := by
    by_contra hge
    have habove := h.above
    rw [tenPow_mod_eq_zero (by omega)] at habove
    exact Nat.not_lt_zero _ habove
  have hpowers : ∀ j, 0 < j → j ≤ k → 10 ^ j % 2 ^ 32 ≤ s.maxlin.toNat := fun j hj hle =>
    h.below j hj (Nat.lt_succ_of_le hle)
  refine ⟨hk, turns_of_powers (by omega) hpowers, ?_⟩
  rw [exec_widthTurn hk, if_neg (Nat.not_le.mpr h.above)]

/-- **The loop of `InitPass` ends**, for every `maxlin`. -/
theorem width_turns_end (s : ListingState) : ∃ k < 32, ∃ y,
    TurnsIn widthTurn (tenPow 0, withWidth 0 s) k y ∧
      ∀ b t, (widthTurn y.1).exec y.2 ≠ (some (.inl b), t) := by
  by_cases hfound : ∃ k, FirstAbove 10 (2 ^ 32) s.maxlin.toNat k
  · obtain ⟨k, hfirst⟩ := hfound
    obtain ⟨k, rfl⟩ : ∃ j, k = j + 1 := ⟨k - 1, by have := hfirst.pos; omega⟩
    obtain ⟨hk, hturns, hlast⟩ := exec_last_of_firstAbove hfirst
    refine ⟨k, by omega, _, hturns, fun b t => ?_⟩
    simp [hlast]
  -- without a power above `maxlin` the powers become zero, which is where the turns end
  · have hpowers : ∀ j, 0 < j → j ≤ 31 → 10 ^ j % 2 ^ 32 ≤ s.maxlin.toNat := by
      intro j hj _
      by_contra habove
      obtain ⟨k, -, hfirst⟩ := exists_firstAbove hj (Nat.not_le.mp habove)
      exact hfound ⟨k, hfirst⟩
    refine ⟨31, by decide, _, turns_of_powers (by decide) hpowers, fun b t => ?_⟩
    simp [exec_widthTurn_last]

/-- The loop gives the exponent of the first reduced power above `maxlin`. -/
theorem exec_initReglenwidth_iff : initReglenwidth.exec s = (some (), t) ↔
    ∃ k, FirstAbove 10 (2 ^ 32) s.maxlin.toNat k ∧ t = withWidth k s := by
  have hstart : initReglenwidth.exec s = (loop widthTurn 32 (tenPow 0)).exec (withWidth 0 s) := rfl
  rw [hstart]
  constructor
  · intro hexec
    obtain ⟨k, y, hturns, hend⟩ := turns_of_exec_loop (x := (tenPow 0, withWidth 0 s)) hexec
    -- the last turn has found a power above `maxlin`, and those before it have not
    obtain ⟨hk, rfl, hpowers⟩ := powers_of_turns hturns
    rcases Nat.lt_or_ge k 31 with hlt | hge
    · rw [exec_widthTurn hlt] at hend
      split_ifs at hend with hle
      · simp at hend
      · refine ⟨k + 1, ⟨Nat.succ_pos k, Nat.not_le.mp hle, fun j hj hjk => ?_⟩, ?_⟩
        · exact hpowers j hj (Nat.le_of_lt_succ hjk)
        · exact (congrArg Prod.snd hend).symm
    · obtain rfl : k = 31 := by omega
      rw [exec_widthTurn_last] at hend
      simp at hend
  · rintro ⟨k, hfirst, rfl⟩
    obtain ⟨k, rfl⟩ : ∃ j, k = j + 1 := ⟨k - 1, by have := hfirst.pos; omega⟩
    obtain ⟨hk, hturns, hlast⟩ := exec_last_of_firstAbove hfirst
    exact exec_loop_of_end hturns hlast (by omega)

/-- The assembler exits exactly when no reduced power is above `maxlin`. -/
theorem exits_iff (s : ListingState) :
    (initReglenwidth.exec s).1 = none ↔ 4135583744 ≤ s.maxlin.toNat := by
  have hpowers : ∀ k < 32, 10 ^ k % 2 ^ 32 ≤ 4135583744 := by decide
  rcases hexec : initReglenwidth.exec s with ⟨_ | ⟨⟩, t⟩
  · refine ⟨fun _ => ?_, fun _ => rfl⟩
    by_contra hless
    -- the 23rd power is the largest one
    have habove : s.maxlin.toNat < 10 ^ 23 % 2 ^ 32 := Nat.not_le.mp hless
    obtain ⟨k, -, hfirst⟩ := exists_firstAbove (by decide) habove
    rw [exec_initReglenwidth_iff.mpr ⟨k, hfirst, rfl⟩] at hexec
    exact absurd (congrArg Prod.fst hexec) nofun
  · refine ⟨nofun, fun hlarge => ?_⟩
    obtain ⟨k, hfirst, -⟩ := exec_initReglenwidth_iff.mp hexec
    have habove := hfirst.above
    rcases Nat.lt_or_ge k 32 with hlt | hge
    · have hle := hpowers k hlt
      omega
    · rw [tenPow_mod_eq_zero hge] at habove
      exact absurd habove (Nat.not_lt_zero _)

/-- The loop ends, and `reglenwidth` is the number of decimal digits of `maxlin` behind it. -/
def CountsDigits (s : ListingState) : Prop :=
  ∃ t, initReglenwidth.exec s = (some (), t) ∧ t.reglenwidth = digitCount 10 s.maxlin.toNat

/-- **The width of line numbers.**  The loop counts the digits of `maxlin` exactly when `maxlin` is less
than 10^10 in 32 bits. -/
theorem reglenwidth_eq_iff (s : ListingState) :
    CountsDigits s ↔ s.maxlin.toNat < 1410065408 := by
  have hmaxlin : s.maxlin.toNat < 2 ^ 32 := s.maxlin.toNat_lt
  have hfound : CountsDigits s ↔
      FirstAbove 10 (2 ^ 32) s.maxlin.toNat (digitCount 10 s.maxlin.toNat) := by
    constructor
    · rintro ⟨t, hexec, hwidth⟩
      obtain ⟨k, hfirst, rfl⟩ := exec_initReglenwidth_iff.mp hexec
      obtain rfl : k = digitCount 10 s.maxlin.toNat := hwidth
      exact hfirst
    · exact fun hfirst => ⟨_, exec_initReglenwidth_iff.mpr ⟨_, hfirst, rfl⟩, rfl⟩
  -- the number of digits is the exponent when their power is not reduced
  calc CountsDigits s
    _ ↔ s.maxlin.toNat < 10 ^ digitCount 10 s.maxlin.toNat % 2 ^ 32 :=
      hfound.trans (firstAbove_digitCount_iff (by decide) hmaxlin)
    _ ↔ s.maxlin.toNat < 10 ^ (9 + 1) % 2 ^ 32 :=
      lt_pow_mod_digitCount_iff (by decide) hmaxlin (by decide) (by decide) (by decide)
    _ ↔ s.maxlin.toNat < 1410065408 := Iff.rfl

/-- A source of one line, in the listing of the last pass. -/
def fakeLineContext : ListingContext where
  isLastPass := false
  hasListingFile := true
  isListingSuspended := false
  listingType := .all
  lijst := false
  extraErrorWarningPrefix := false
  getDelimitedStringEx p := (p, [])
  getInputFile := id

/-- The first line of a file. -/
def firstLine (line : Text) : ListingState where
  maxlin := 0
  reglenwidth := 1
  filename := "a.asm".toList
  pos := ⟨1, 0, 0⟩
  lp := line
  line := line
  substitutedLine := none
  eolComment := none
  includeLevel := 0
  listmacro := false
  donotlist := false
  compiledCurrentLine := 1
  lastListedLine := -1
  listEmittedBytes := []
  listAddress := 0
  curAddress := 0
  defineTable := ⟨fun _ => [], []⟩
  listing := []
  log := []

/-- Behind `#line 2000000000` the width is 12, and the number has ten digits. -/
theorem not_countsDigits : ¬ CountsDigits ((parseCppLineDirective fakeLineContext
    "line 2000000000".toList).final (firstLine "#line 2000000000".toList)) := by
  rintro ⟨t, hexec, hwidth⟩
  obtain ⟨k, hfirst, rfl⟩ := exec_initReglenwidth_iff.mp hexec
  have hmaxlin : ((parseCppLineDirective fakeLineContext "line 2000000000".toList).final
      (firstLine "#line 2000000000".toList)).maxlin.toNat = 2000000000 := by decide
  rw [hmaxlin] at hfirst hwidth
  -- 10^10 and 10^11 are below it in 32 bits, and 10^12 is the first one above
  have hpowers : ∀ j < 12, 10 ^ j % 2 ^ 32 ≤ 2000000000 := by decide
  have htwelve : FirstAbove 10 (2 ^ 32) 2000000000 12 :=
    ⟨by decide, by decide, fun j _ hlt => hpowers j hlt⟩
  obtain rfl := hfirst.unique htwelve
  have hcount : digitCount 10 2000000000 ≤ 10 := digitCount_le (by decide) (by decide) (by decide)
  have hlarge : 12 ≤ digitCount 10 2000000000 := le_of_eq hwidth
  omega

/-! ### The listing of a pass -/

/-- A pass behind `InitPass`: `ListFile` is called in whatever states the assembler gets to, which keep the
width and may add names of files (`#line`).  The numbers of the lines are at most `maxlin` and have at most
five digits, and there are no bytes of a line that is skipped. -/
inductive ListingPass (maxlin : UInt32) : ListingState → List ListedRow → ListingState → Prop
  | start {s : ListingState} : ListingPass maxlin s [] s
  | other {s t u : ListingState} {shown : List ListedRow} (names : List Text)
      (h : ListingPass maxlin s shown t) (hwidth : u.reglenwidth = t.reglenwidth)
      (hnames : ∀ name ∈ names, isNumbered name = false) (hlisting : u.listing = t.listing ++ names) :
      ListingPass maxlin s shown u
  | list {s t : ListingState} {shown : List ListedRow} (env : ListingContext) (showAsSkipped : Bool)
      (h : ListingPass maxlin s shown t) (hmaxlin : t.pos.line ≤ maxlin.toNat)
      (hfive : t.pos.line < 100000) (hskipped : showAsSkipped = true → t.listEmittedBytes = []) :
      ListingPass maxlin s
        (shown ++ if Lists env showAsSkipped t then rowsOf t.pos.line t.listAddress t.listEmittedBytes
          else []) (listFile env showAsSkipped t)

/-- `ListFile` keeps the width. -/
theorem reglenwidth_listFile (env : ListingContext) (showAsSkipped : Bool) (s : ListingState) :
    (listFile env showAsSkipped s).reglenwidth = s.reglenwidth := by
  have hrows : ∀ fuel s, (listRows env.listingType showAsSkipped fuel s).reglenwidth
      = s.reglenwidth := by
    intro fuel
    -- by induction on the fuel: a turn leaves the width
    induction fuel with
    | zero => exact fun _ => rfl
    | succ fuel ih =>
      intro s
      have hturn : (listTurn env.listingType showAsSkipped s).reglenwidth = s.reglenwidth := by
        cases showAsSkipped <;> rfl
      rw [listRows]
      split_ifs
      · exact hturn
      · rw [ih, hturn]
  rw [listFile]
  split_ifs
  · rfl
  · rfl
  · rfl
  · exact hrows _ s

/-- The width of `InitPass` has room for the numbers, although it may be larger than it should be. -/
theorem fitsColumn_of_initReglenwidth {t u : ListingState}
    (hexec : initReglenwidth.exec s = (some (), t)) (hwidth : u.reglenwidth = t.reglenwidth)
    (hmaxlin : u.pos.line ≤ s.maxlin.toNat) (hfive : u.pos.line < 100000) : FitsColumn u := by
  obtain ⟨k, hfirst, rfl⟩ := exec_initReglenwidth_iff.mp hexec
  have hk : u.reglenwidth = k := hwidth
  constructor
  · rw [hk]
    exact hfirst.pos
  · rw [hk]
    -- from five columns on, the line number fits into them as it is small
    rcases Nat.lt_or_ge k 5 with hsmall | hlarge
    · have habove : u.pos.line < 10 ^ k % 2 ^ 32 := hmaxlin.trans_lt hfirst.above
      rw [min_eq_left hsmall.le]
      exact habove.trans_le (Nat.mod_le _ _)
    · rw [min_eq_right hlarge]
      exact hfive

/-- The listing of the last pass. -/
def exampleListing : ListingContext := { fakeLineContext with isLastPass := true }

/-- The first pass had twelve lines, and the first one emits five bytes at 8000h. -/
def exampleListedLine : ListingState :=
  { firstLine " db 1, 2, 3, 4, 5".toList with
    maxlin := 12
    listEmittedBytes := [some 1, some 2, some 3, some 4, some 5]
    listAddress := 0x8000
    curAddress := 0x8005 }

/-- The last line, which is skipped, in an included file whose name is listed. -/
def exampleSkipped : ListingState :=
  let s := listFile exampleListing false (withWidth 2 exampleListedLine)
  { s with
    pos := ⟨12, 0, 0⟩
    line := " nop".toList
    compiledCurrentLine := 2
    includeLevel := 1
    listing := s.listing ++ ["# fake file name: a".toList] }

end

end Sjasmplus
