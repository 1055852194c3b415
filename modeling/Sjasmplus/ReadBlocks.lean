import Mathlib.Algebra.GroupWithZero.Nat
import Sjasmplus.ReadLine

/-!
# Lines do not depend on blocks

A state of the reader stands for the one in which all that is left of the source is in one block
(`ReadState.flat`).  The functions that read cannot tell the two apart, except where a block that is
not the first one is searched for the marker of an encoding: that happens to every block which is read
before the first line ends, and not only to the beginning of the source.

* `follows_readLines` — as long as no such marker is found, a run goes through the same lines as the
  run over one block;
* `lines_independent_of_blocks` — so do two runs over the same source, whatever its blocks are.
-/

namespace Sjasmplus

open Program

/-! ### Forgetting the blocks -/

/-- The state with all that is left of the source in one block. -/
def ReadState.flat (s : ReadState) : ReadState :=
  if s.opened then { s with rlpbuf := s.rlpbuf ++ s.blocks.flatten, blocks := [] }
  else { s with blocks := [s.blocks.flatten] }

/-- A marker was found in a block that is not the first one. -/
def ReadState.Late (s : ReadState) : Prop := s.lateMarker = true

/-- No block is empty, and the first one is long enough for all markers when it is not the only one. -/
structure ReadState.WellCut (s : ReadState) : Prop where
  nonempty : ∀ block ∈ s.blocks, block ≠ []
  unopened : s.opened = false → s.rlpbuf = [] ∧
    ∀ block blocks, s.blocks = block :: blocks → blocks = [] ∨ 16 ≤ block.length

/-- The program cannot see how what is left is cut into blocks. -/
abbrev FollowsFlat {α : Type} (p : ReadProgram α) : Prop :=
  Follows ReadState.flat ReadState.Late ReadState.WellCut p fun _ => ReadState.WellCut

/-! ### Markers -/

theorem prefix_append_iff {marker block rest : Text} (h : marker.length ≤ block.length) :
    marker <+: block ++ rest ↔ marker <+: block := by
  constructor
  · intro hprefix
    exact List.prefix_of_prefix_length_le hprefix (List.prefix_append block rest) h
  · intro hprefix
    exact hprefix.trans (List.prefix_append block rest)

/-- Markers are found at the start of a block, whatever comes behind it. -/
theorem detectMarker_append {markers : List (String × Text)} {block : Text} (rest : Text)
    (h : (markers.map fun marker => marker.2.length).sum ≤ block.length) :
    detectMarker markers (block ++ rest) = (detectMarker markers block).map (· ++ rest) := by
  -- by induction on the markers, each of which has to be inside of the block
  induction markers generalizing block with
  | nil => rfl
  | cons marker markers ih =>
    obtain ⟨name, marker⟩ := marker
    rw [List.map_cons, List.sum_cons] at h
    dsimp only at h
    have hmarker : marker.length ≤ block.length := by omega
    rw [detectMarker, detectMarker]
    simp only [prefix_append_iff hmarker]
    split_ifs
    · rfl
    · rw [List.drop_append_of_le_length hmarker]
      exact ih (by rw [List.length_drop]; omega)
    · exact ih (by omega)

/-- A block without a marker is left as it is. -/
theorem detectMarker_of_not {markers : List (String × Text)} {block : Text}
    (h : ∀ marker ∈ markers, ¬marker.2 <+: block) : detectMarker markers block = .ok block := by
  induction markers with
  | nil => rfl
  | cons marker markers ih =>
    obtain ⟨name, marker⟩ := marker
    rw [detectMarker, if_neg (h _ (List.mem_cons_self ..))]
    exact ih fun marker hmem => h marker (List.mem_cons_of_mem _ hmem)

/-- At most the markers are taken off a block. -/
theorem length_detectMarker {markers : List (String × Text)} {block behind : Text}
    (h : detectMarker markers block = .ok behind) :
    block.length ≤ behind.length + (markers.map fun marker => marker.2.length).sum := by
  -- by induction on the markers: each of them is taken off at most once
  induction markers generalizing block with
  | nil =>
    obtain rfl : block = behind := by
      injection h
    exact Nat.le_add_right ..
  | cons marker markers ih =>
    obtain ⟨name, marker⟩ := marker
    rw [detectMarker] at h
    rw [List.map_cons, List.sum_cons]
    split_ifs at h
    · have hdrop := ih h
      rw [List.length_drop] at hdrop
      dsimp only
      omega
    · have := ih h
      omega

/-! ### Reading a block -/

section

variable {s : ReadState}

theorem flat_of_opened (h : s.opened = true) :
    s.flat = { s with rlpbuf := s.rlpbuf ++ s.blocks.flatten, blocks := [] } := by
  rw [ReadState.flat, if_pos h]

theorem flat_of_unopened (h : s.opened = false) :
    s.flat = { s with blocks := [s.blocks.flatten] } := by
  rw [ReadState.flat, if_neg (by rw [h]; decide)]

@[simp] theorem flat_scan (s : ReadState) : s.flat.scan = s.scan := by
  unfold ReadState.flat
  split_ifs
  · rfl
  · rfl

@[simp] theorem flat_lines (s : ReadState) : s.flat.lines = s.lines := by
  unfold ReadState.flat
  split_ifs
  · rfl
  · rfl

end

/-- Behind `ReadBufData` there is a character in the current block, or nothing is left at all. -/
def ReadState.Ready (data : Bool) (s : ReadState) : Prop :=
  s.WellCut ∧ s.opened = true ∧
    if data then s.rlpbuf ≠ [] else s.rlpbuf = [] ∧ s.blocks = []

/-- A state with a block open is well cut when no block is empty. -/
theorem wellCut_of_opened {s : ReadState} (hopened : s.opened = true)
    (h : ∀ block ∈ s.blocks, block ≠ []) : s.WellCut where
  nonempty := h
  unopened hclosed := by
    rw [hopened] at hclosed
    cases hclosed

theorem lost_readBufData (s : ReadState) (h : s.Late) : (readBufData.final s).Late := by
  obtain ⟨rlpbuf, blocks, opened, lateMarker, scan, lines, log⟩ := s
  obtain rfl : lateMarker = true := h
  rw [final, exec_readBufData]
  dsimp only
  by_cases hlong : lineMax - 2 ≤ scan.line.length
  · rw [if_pos hlong]
    rfl
  · rw [if_neg hlong]
    by_cases hbuf : rlpbuf ≠ []
    · rw [if_pos hbuf]
      rfl
    · rw [if_neg hbuf]
      cases blocks with
      | nil => rfl
      | cons block blocks =>
        dsimp only
        by_cases hline : scan.pos.line ≠ 0
        · rw [if_pos hline]
          rfl
        · rw [if_neg hline]
          cases detectMarker utfBomMarkers block with
          | error name => rfl
          | ok behind => rfl

/-- The block that is read from a state with a block open. -/
theorem run_readBufData_opened {s : ReadState} (hs : s.WellCut) (hopened : s.opened = true)
    (hkept : ¬(readBufData.final s).Late) :
    readBufData.exec s.flat = ((readBufData.exec s).1, (readBufData.final s).flat) ∧
      ∀ data, (readBufData.exec s).1 = some data → (readBufData.final s).Ready data := by
  have hnonempty := hs.nonempty
  obtain ⟨rlpbuf, blocks, opened, lateMarker, scan, lines, log⟩ := s
  obtain rfl : opened = true := hopened
  rw [flat_of_opened rfl]
  rw [final] at hkept ⊢
  rw [exec_readBufData] at hkept ⊢
  rw [exec_readBufData]
  dsimp only at hkept hnonempty ⊢
  by_cases hlong : lineMax - 2 ≤ scan.line.length
  · rw [if_pos hlong, if_pos hlong]
    exact ⟨rfl, fun data hdata => by cases hdata⟩
  · rw [if_neg hlong] at hkept
    rw [if_neg hlong, if_neg hlong]
    by_cases hbuf : rlpbuf ≠ []
    · have hflat : rlpbuf ++ blocks.flatten ≠ [] := fun hnil => hbuf (List.append_eq_nil_iff.mp hnil).1
      rw [if_pos hbuf, if_pos hflat]
      refine ⟨rfl, fun data hdata => ?_⟩
      obtain rfl := Option.some.inj hdata
      exact ⟨wellCut_of_opened rfl hnonempty, rfl, hbuf⟩
    · rw [if_neg hbuf] at hkept
      rw [if_neg hbuf]
      obtain rfl := not_not.mp hbuf
      cases blocks with
      | nil =>
        rw [List.flatten_nil, List.append_nil, if_neg (not_not.mpr rfl)]
        refine ⟨rfl, fun data hdata => ?_⟩
        obtain rfl := Option.some.inj hdata
        exact ⟨wellCut_of_opened rfl (List.forall_mem_nil _), rfl, rfl, rfl⟩
      | cons block blocks =>
        have hblock : block ≠ [] := hnonempty block (List.mem_cons_self ..)
        have hblocks : ∀ b ∈ blocks, b ≠ [] := fun b hb => hnonempty b (List.mem_cons_of_mem _ hb)
        have hflat : [] ++ (block :: blocks).flatten ≠ [] := by
          rw [List.nil_append, List.flatten_cons]
          exact fun hnil => hblock (List.append_eq_nil_iff.mp hnil).1
        -- nothing is taken off the block
        have hread : ∀ s' : ReadState,
            s' = ⟨block, blocks, true, lateMarker, scan, lines, log⟩ →
            ((some true, ⟨[] ++ (block :: blocks).flatten, [], true, lateMarker, scan, lines, log⟩) :
                Option Bool × ReadState) = (some (decide (block ≠ [])), s'.flat) ∧
              ∀ data, some (decide (block ≠ [])) = some data → s'.Ready data := by
          rintro s' rfl
          rw [decide_eq_true hblock]
          refine ⟨rfl, fun data hdata => ?_⟩
          obtain rfl := Option.some.inj hdata
          exact ⟨wellCut_of_opened rfl hblocks, rfl, hblock⟩
        dsimp only at hkept ⊢
        rw [if_pos hflat]
        by_cases hline : scan.pos.line ≠ 0
        · rw [if_pos hline]
          have hmark : (lateMarker || true && decide (scan.pos.line = 0) && decide (HasMarker block))
              = lateMarker := by
            rw [decide_eq_false hline, Bool.and_false, Bool.false_and, Bool.or_false]
          exact hread _ (by rw [hmark])
        · rw [if_neg hline] at hkept
          rw [if_neg hline]
          have hmarker : ¬HasMarker block := by
            intro hmarker
            have hmark : (lateMarker || true && decide (scan.pos.line = 0) &&
                decide (HasMarker block)) = true := by
              rw [decide_eq_true (not_not.mp hline), decide_eq_true hmarker, Bool.true_and,
                Bool.true_and, Bool.or_true]
            apply hkept
            cases detectMarker utfBomMarkers block with
            | error name => exact hmark
            | ok behind => exact hmark
          have hmark : (lateMarker || true && decide (scan.pos.line = 0) && decide (HasMarker block))
              = lateMarker := by
            rw [decide_eq_false hmarker, Bool.and_false, Bool.or_false]
          rw [detectMarker_of_not fun marker hmem hprefix => hmarker ⟨marker, hmem, hprefix⟩]
          exact hread _ (by rw [hmark])

/-- The first block. -/
theorem run_readBufData_unopened {s : ReadState} (hs : s.WellCut) (hopened : s.opened = false) :
    readBufData.exec s.flat = ((readBufData.exec s).1, (readBufData.final s).flat) ∧
      ∀ data, (readBufData.exec s).1 = some data → (readBufData.final s).Ready data := by
  have hnonempty := hs.nonempty
  obtain ⟨hrlpbuf, hfirst⟩ := hs.unopened hopened
  obtain ⟨rlpbuf, blocks, opened, lateMarker, scan, lines, log⟩ := s
  obtain rfl : opened = false := hopened
  obtain rfl : rlpbuf = [] := hrlpbuf
  rw [flat_of_unopened rfl]
  rw [final]
  rw [exec_readBufData, exec_readBufData]
  dsimp only at hnonempty hfirst ⊢
  by_cases hlong : lineMax - 2 ≤ scan.line.length
  · rw [if_pos hlong, if_pos hlong]
    exact ⟨rfl, fun data hdata => by cases hdata⟩
  · rw [if_neg hlong, if_neg hlong, if_neg (not_not.mpr rfl), if_neg (not_not.mpr rfl)]
    cases blocks with
    | nil =>
      have hempty : detectMarker utfBomMarkers ([] : List Text).flatten = .ok [] :=
        detectMarker_of_not (by decide)
      dsimp only
      rw [hempty]
      dsimp only
      have hready : ∀ data, some false = some data →
          (⟨[], [], true, lateMarker, scan, lines, log⟩ : ReadState).Ready data := by
        intro data hdata
        obtain rfl := Option.some.inj hdata
        exact ⟨wellCut_of_opened rfl (List.forall_mem_nil _), rfl, rfl, rfl⟩
      rw [Bool.false_and, Bool.false_and, Bool.or_false]
      by_cases hline : scan.pos.line ≠ 0
      · rw [if_pos hline]
        exact ⟨rfl, hready⟩
      · rw [if_neg hline]
        exact ⟨rfl, hready⟩
    | cons block blocks =>
      have hblock : block ≠ [] := hnonempty block (List.mem_cons_self ..)
      have hblocks : ∀ b ∈ blocks, b ≠ [] := fun b hb => hnonempty b (List.mem_cons_of_mem _ hb)
      have hlength := hfirst block blocks rfl
      -- the block behind a marker, as long as the source goes on in it
      have hread : ∀ behind, (behind ≠ [] ∨ blocks = []) →
          ((some (decide (behind ++ blocks.flatten ≠ [])),
              ⟨behind ++ blocks.flatten, [], true, lateMarker, scan, lines, log⟩) :
              Option Bool × ReadState)
            = (some (decide (behind ≠ [])),
                (⟨behind, blocks, true, lateMarker, scan, lines, log⟩ : ReadState).flat) ∧
            ∀ data, some (decide (behind ≠ [])) = some data →
              (⟨behind, blocks, true, lateMarker, scan, lines, log⟩ : ReadState).Ready data := by
        intro behind hbehind
        have hdecide : decide (behind ++ blocks.flatten ≠ []) = decide (behind ≠ []) := by
          rcases hbehind with hne | rfl
          · have happend : behind ++ blocks.flatten ≠ [] := fun hnil =>
              hne (List.append_eq_nil_iff.mp hnil).1
            rw [decide_eq_true hne, decide_eq_true happend]
          · rw [List.flatten_nil, List.append_nil]
        rw [hdecide]
        refine ⟨rfl, fun data hdata => ?_⟩
        obtain rfl := Option.some.inj hdata
        refine ⟨wellCut_of_opened rfl hblocks, rfl, ?_⟩
        by_cases hne : behind ≠ []
        · rw [decide_eq_true hne]
          exact hne
        · rw [decide_eq_false hne]
          exact ⟨not_not.mp hne, hbehind.resolve_left hne⟩
      dsimp only
      simp only [Bool.false_and, Bool.or_false, List.flatten_cons]
      by_cases hline : scan.pos.line ≠ 0
      · rw [if_pos hline, if_pos hline]
        exact hread block (Or.inl hblock)
      · rw [if_neg hline, if_neg hline]
        have hmarkers : (utfBomMarkers.map fun marker => marker.2.length).sum = 15 := by decide
        have hdetect : detectMarker utfBomMarkers (block ++ blocks.flatten)
            = (detectMarker utfBomMarkers block).map (· ++ blocks.flatten) := by
          rcases hlength with rfl | hlong
          · rw [List.flatten_nil, List.append_nil]
            cases detectMarker utfBomMarkers block with
            | error name => rfl
            | ok behind => exact congrArg Except.ok (List.append_nil behind).symm
          · exact detectMarker_append _ (by omega)
        rw [hdetect]
        cases hmarker : detectMarker utfBomMarkers block with
        | error name => exact ⟨rfl, fun data hdata => by cases hdata⟩
        | ok behind =>
          refine hread behind ?_
          rcases hlength with hlast | hlong
          · exact Or.inr hlast
          · have hbehind := length_detectMarker hmarker
            exact Or.inl (List.length_pos_iff.mp (by omega))

/-- `ReadBufData` gets to the same text, unless a marker is seen too late. -/
theorem follows_readBufData : Follows ReadState.flat ReadState.Late ReadState.WellCut readBufData
    ReadState.Ready where
  lost := lost_readBufData
  run s hs hkept := by
    cases hopened : s.opened with
    | true => exact run_readBufData_opened hs hopened hkept
    | false => exact run_readBufData_unopened hs hopened

/-! ### Characters -/

theorem follows_peek : Follows ReadState.flat ReadState.Late ReadState.WellCut peek
    fun c s => s.WellCut ∧ s.opened = true ∧ ∀ d, c = some d → s.rlpbuf.head? = some d := by
  refine follows_readBufData.bind fun data => ?_
  cases data with
  | true =>
    refine Follows.asks ?_ ?_
    · rintro s ⟨-, hopened, hne⟩
      rw [flat_of_opened hopened]
      exact List.head?_append_of_ne_nil _ hne
    · rintro s ⟨hs, hopened, -⟩
      exact ⟨hs, hopened, fun d hd => hd⟩
  | false => exact Follows.pure fun s hs => ⟨hs.1, hs.2.1, nofun⟩

/-- A character that was found is taken off. -/
theorem follows_take (c : Char) : Follows ReadState.flat ReadState.Late
    (fun s => s.WellCut ∧ s.opened = true ∧ ∀ d, some c = some d → s.rlpbuf.head? = some d)
    (modify fun s => { s with rlpbuf := s.rlpbuf.tail }) fun _ => ReadState.WellCut := by
  apply Follows.modify
  · intro s hs
    exact hs
  · rintro s ⟨-, hopened, hhead⟩
    -- the character that was seen is in the buffer
    have hne : s.rlpbuf ≠ [] := by
      intro hnil
      have hsome := hhead c rfl
      rw [hnil] at hsome
      cases hsome
    simp only [ReadState.flat, hopened, if_true, List.tail_append_of_ne_nil hne]
  · rintro s ⟨hs, hopened, -⟩
    exact wellCut_of_opened hopened hs.nonempty

/-- A character is accepted in both files. -/
theorem follows_accept (p : Char → Bool) : FollowsFlat (accept p) := by
  refine follows_peek.bind fun c => ?_
  cases c with
  | none => exact Follows.pure fun s hs => hs.1
  | some c =>
    apply Follows.ite
    · exact (follows_take c).bind fun _ => Follows.pure fun _ hs => hs
    · exact Follows.pure fun s hs => hs.1

/-- What does not look at the source cannot see the blocks. -/
theorem follows_modifyScan (f : LineState → LineState) : FollowsFlat (modifyScan f) := by
  refine Follows.modify ?_ ?_ ?_
  · exact fun s hs => hs
  · intro s hs
    cases hopened : s.opened
    · simp only [ReadState.flat, hopened, Bool.false_eq_true, if_false]
    · simp only [ReadState.flat, hopened, if_true]
  · exact fun s hs => ⟨hs.nonempty, hs.unopened⟩

theorem follows_asks_scan {α : Type} (f : LineState → α) : FollowsFlat (asks fun s => f s.scan) :=
  Follows.asks (fun s _ => by rw [flat_scan]) fun _ hs => hs

theorem follows_asks_lines : FollowsFlat (asks fun s => s.lines) :=
  Follows.asks (fun s _ => flat_lines s) fun _ hs => hs

theorem remaining_flat (s : ReadState) (_ : s.WellCut) : remaining s.flat = remaining s := by
  unfold remaining ReadState.flat
  split_ifs
  · simp
  · simp

theorem follows_pure {α : Type} (a : α) : FollowsFlat (pure a : ReadProgram α) :=
  Follows.pure fun _ hs => hs

/-! ### Parts of a line -/

theorem follows_push (c : Char) : FollowsFlat (push c) := follows_modifyScan _

theorem follows_skipEol : FollowsFlat skipEol := by
  refine (follows_accept isEol).bind fun c => ?_
  cases c with
  | none => exact follows_pure false
  | some c => exact (follows_accept _).bind fun _ => follows_pure true

theorem follows_copyWhile (p : Char → Bool) : FollowsFlat (copyWhile p) := by
  refine Follows.whileLoop remaining_flat (fun _ => ?_) ()
  refine (follows_accept p).bind fun c => ?_
  cases c with
  | none => exact follows_pure _
  | some c => exact (follows_push c).bind fun _ => follows_pure _

theorem follows_acceptPush (p : Char → Bool) : FollowsFlat (acceptPush p) := by
  refine (follows_accept p).bind fun c => ?_
  cases c with
  | none => exact follows_pure false
  | some c => exact (follows_push c).bind fun _ => follows_pure true

theorem follows_readSmcOffset (smc : Bool) : FollowsFlat (readSmcOffset smc) :=
  Follows.ite (follows_acceptPush _) (follows_pure false)

theorem follows_readLabelEnd : FollowsFlat readLabelEnd := by
  refine (follows_acceptPush _).bind fun smc => (follows_readSmcOffset smc).bind fun _ => ?_
  exact (follows_acceptPush _).bind fun colon => follows_pure _

theorem follows_readString (quotes : Char) : FollowsFlat (readString quotes) := by
  refine Follows.whileLoop remaining_flat (fun state => ?_) _
  obtain ⟨escaped, c⟩ := state
  refine (follows_push c).bind fun _ => (follows_accept _).bind fun next => ?_
  cases next with
  | none => exact follows_pure _
  | some next =>
    exact Follows.ite (follows_pure _) ((follows_push _).bind fun _ => follows_pure _)

/-! ### Lines -/

theorem follows_readComment (c : Char) : FollowsFlat (readComment c) :=
  (follows_modifyScan _).bind fun _ => (follows_push c).bind fun _ => follows_copyWhile _

theorem follows_peek' : FollowsFlat peek := follows_peek.mono (fun _ hs => hs) fun _ _ hs => hs.1

theorem follows_startsComment (c : Char) : FollowsFlat (startsComment c) :=
  Follows.ite (follows_peek'.bind fun _ => follows_pure _) (follows_pure _)

theorem follows_copyPlain (c : Char) (afterNonAlphaNum : Bool) :
    FollowsFlat (copyPlain c afterNonAlphaNum) :=
  Follows.ite (follows_readString c) (follows_push c)

theorem follows_copyCode (c : Char) (isLabel afterNonAlphaNum : Bool) :
    FollowsFlat (copyCode c isLabel afterNonAlphaNum) := by
  refine Follows.ite ((follows_push c).bind fun _ => follows_readLabelEnd) ?_
  refine (follows_startsComment c).bind fun _ => ?_
  refine Follows.ite ((follows_readComment c).bind fun _ => follows_pure false) ?_
  exact (follows_copyPlain c afterNonAlphaNum).bind fun _ => follows_pure false

theorem follows_escapeEol (c : Char) : FollowsFlat (escapeEol c) := by
  refine Follows.ite (follows_skipEol.bind fun escapes => ?_) (follows_pure false)
  cases escapes with
  | true => exact (follows_modifyScan _).bind fun _ => follows_pure true
  | false => exact follows_pure false

theorem follows_closeComment (c : Char) : FollowsFlat (closeComment c) := by
  refine Follows.ite ((follows_accept _).bind fun slash => ?_) (follows_pure false)
  cases slash with
  | none => exact follows_pure false
  | some slash =>
    exact (follows_modifyScan _).bind fun _ => (follows_push c).bind fun _ =>
      (follows_push slash).bind fun _ => follows_pure true

theorem follows_openComment (c : Char) : FollowsFlat (openComment c) := by
  refine Follows.ite ((follows_accept _).bind fun star => ?_) (follows_pure false)
  cases star with
  | none => exact follows_pure false
  | some star =>
    exact (follows_modifyScan _).bind fun _ => (follows_push c).bind fun _ =>
      (follows_push star).bind fun _ => follows_pure true

theorem follows_copyChar (c : Char) (isLabel afterNonAlphaNum : Bool) :
    FollowsFlat (copyChar c isLabel afterNonAlphaNum) := by
  refine (follows_escapeEol c).bind fun _ => Follows.ite (follows_pure _) ?_
  refine (follows_closeComment c).bind fun _ => Follows.ite (follows_pure _) ?_
  refine (follows_openComment c).bind fun _ => Follows.ite (follows_pure _) ?_
  refine (follows_asks_scan fun scan => scan.blockComment).bind fun _ => ?_
  exact Follows.ite ((follows_push c).bind fun _ => follows_pure _) (follows_copyCode c _ _)

theorem follows_copyLine (splitByColon isLabel : Bool) :
    FollowsFlat (copyLine splitByColon isLabel) := by
  refine Follows.whileLoop remaining_flat (fun state => ?_) _
  refine (follows_asks_scan fun scan => scan).bind fun scan => (follows_accept _).bind fun c => ?_
  cases c with
  | none => exact follows_pure _
  | some c => exact (follows_copyChar c _ _).bind fun _ => follows_pure _

theorem follows_startSubline : FollowsFlat startSubline := by
  refine (follows_modifyScan _).bind fun _ => (follows_push ' ').bind fun _ => ?_
  refine (follows_acceptPush _).bind fun _ => (follows_accept _).bind fun c => ?_
  cases c with
  | none => exact follows_pure false
  | some c => exact (follows_modifyScan _).bind fun _ => follows_pure true

theorem follows_readIndentation : FollowsFlat readIndentation := by
  refine (follows_copyWhile _).bind fun _ => ?_
  refine (follows_asks_scan fun scan => scan.line.length).bind fun whitespace => ?_
  refine (follows_accept _).bind fun c => ?_
  exact Follows.ite ((follows_modifyScan _).bind fun _ => follows_pure _) (follows_pure _)

/-- The end of line that is added behind the last one: nothing is left in any block. -/
theorem follows_addFakeEol : FollowsFlat addFakeEol := by
  refine follows_readBufData.bind fun data => ?_
  cases data with
  | true => exact Follows.pure fun _ hs => hs.1
  | false =>
    refine Follows.modify ?_ ?_ ?_
    · intro s hs
      split_ifs
      · exact hs
      · exact hs
    · rintro s ⟨-, hopened, hnil⟩
      obtain ⟨hrlpbuf, hblocks⟩ := hnil
      obtain ⟨rlpbuf, blocks, opened, lateMarker, scan, lines, log⟩ := s
      obtain rfl : opened = true := hopened
      obtain rfl : rlpbuf = [] := hrlpbuf
      obtain rfl : blocks = [] := hblocks
      rw [flat_of_opened rfl]
      dsimp only
      split_ifs
      · rfl
      · rfl
    · rintro s ⟨hs, hopened, -⟩
      split_ifs
      · exact wellCut_of_opened hopened hs.nonempty
      · exact hs

theorem follows_skipColon (splitByColon sizeofTag : Bool) :
    FollowsFlat (skipColon splitByColon sizeofTag) :=
  Follows.ite (follows_accept _) (follows_pure none)

theorem follows_endLine (splitByColon sizeofTag : Bool) :
    FollowsFlat (endLine splitByColon sizeofTag) := by
  refine follows_skipEol.bind fun _ => Follows.ite follows_addFakeEol ?_
  exact (follows_skipColon splitByColon sizeofTag).bind fun colon => follows_modifyScan _

theorem follows_readRest (splitByColon isLabel sizeofTag : Bool) (indentedColumns : Nat) :
    FollowsFlat (readRest splitByColon isLabel sizeofTag indentedColumns) := by
  refine (Follows.when (follows_copyLine splitByColon isLabel) fun _ hs => hs).bind fun _ => ?_
  exact (follows_endLine splitByColon sizeofTag).bind fun _ => follows_modifyScan _

/-- A subline of the source is the same, however the file is cut. -/
theorem follows_readSegment (splitByColon : Bool) : FollowsFlat (readSegment splitByColon) := by
  refine (follows_modifyScan _).bind fun _ => (follows_asks_scan fun scan => scan).bind fun scan => ?_
  refine Follows.ite (follows_startSubline.bind fun _ => follows_readRest ..) ?_
  exact Follows.ite (follows_readIndentation.bind fun _ => follows_readRest ..) (follows_readRest ..)

theorem follows_readBufLine (splitByColon : Bool) : FollowsFlat (readBufLine splitByColon) := by
  refine Follows.bind (follows_readBufData.mono (fun _ hs => hs) fun _ _ hs => hs.1) fun data => ?_
  refine Follows.ite ((follows_readSegment splitByColon).bind fun _ => ?_) (follows_pure false)
  refine Follows.bind (Follows.modify ?_ ?_ ?_) fun _ => follows_pure true
  · exact fun s hs => hs
  · intro s hs
    cases hopened : s.opened
    · simp only [ReadState.flat, hopened, Bool.false_eq_true, if_false]
    · simp only [ReadState.flat, hopened, if_true]
  · exact fun s hs => ⟨hs.nonempty, hs.unopened⟩

/-- As long as no marker is found in another block than the first, a run over blocks goes as the run
over all of the source. -/
theorem follows_readLines (strategy : ReadStrategy) (count : Nat) :
    FollowsFlat (readLines strategy count) := by
  induction count with
  | zero => exact follows_pure ()
  | succ count ih =>
    refine follows_asks_lines.bind fun lines => ?_
    cases strategy lines with
    | none => exact follows_pure ()
    | some splitByColon =>
      exact (follows_readBufLine splitByColon).bind fun _ => Follows.ite ih (follows_pure ())

/-! ### Cuts of a source -/

/-- The blocks are a cut of the content: none is empty, and only the last one may be short. -/
structure IsCut (content : Text) (blocks : List Text) : Prop where
  flatten : blocks.flatten = content
  nonempty : ∀ block ∈ blocks, block ≠ []
  long : ∀ block ∈ blocks.dropLast, 2048 ≤ block.length

/-- The lines that are not blank among those that a run over the blocks reads, with their places. -/
def sourceLines (strategy : ReadStrategy) (count : Nat) (blocks : List Text) : List LineRead :=
  ((readLines strategy count).final (openFile blocks)).lines.filter fun read => !read.line.all white

/-- Two runs read the same lines that are not blank. -/
def SameLines (strategy : ReadStrategy) (count : Nat) (blocks blocks' : List Text) : Prop :=
  sourceLines strategy count blocks = sourceLines strategy count blocks'

instance (strategy : ReadStrategy) (count : Nat) (blocks blocks' : List Text) :
    Decidable (SameLines strategy count blocks blocks') :=
  inferInstanceAs (Decidable (_ = _))

/-- In the run over the blocks, no block behind the first one that is read before the first line ends
starts with a marker. -/
def MarkersFirst (strategy : ReadStrategy) (count : Nat) (blocks : List Text) : Prop :=
  ¬((readLines strategy count).final (openFile blocks)).Late

instance (strategy : ReadStrategy) (count : Nat) (blocks : List Text) :
    Decidable (MarkersFirst strategy count blocks) :=
  inferInstanceAs (Decidable (¬_ = true))

theorem IsCut.wellCut {content : Text} {blocks : List Text} (h : IsCut content blocks) :
    (openFile blocks).WellCut where
  nonempty := h.nonempty
  unopened _ := by
    refine ⟨rfl, ?_⟩
    rintro block blocks' rfl
    cases blocks' with
    | nil => exact Or.inl rfl
    | cons next rest =>
      have hlong := h.long block (List.mem_cons_self ..)
      exact Or.inr (by omega)

theorem flat_openFile (blocks : List Text) : (openFile blocks).flat = openFile [blocks.flatten] :=
  rfl

/-- Behind the run, the state stands for the one behind the run over all of the content at once. -/
theorem flat_final_readLines {strategy : ReadStrategy} {count : Nat} {content : Text}
    {blocks : List Text} (h : IsCut content blocks) (hfirst : MarkersFirst strategy count blocks) :
    ((readLines strategy count).final (openFile blocks)).flat
      = (readLines strategy count).final (openFile [content]) := by
  have hrun := ((follows_readLines strategy count).run _ h.wellCut hfirst).1
  rw [flat_openFile, h.flatten] at hrun
  exact (congrArg Prod.snd hrun).symm

/-- Two runs over a source end in states that stand for the same, so that they read the same lines,
whatever the blocks are. -/
theorem lines_independent_of_blocks (strategy : ReadStrategy) (count : Nat) {content : Text}
    {blocks blocks' : List Text} (h : IsCut content blocks) (h' : IsCut content blocks')
    (hfirst : MarkersFirst strategy count blocks) (hfirst' : MarkersFirst strategy count blocks') :
    SameLines strategy count blocks blocks' := by
  have hflat : ((readLines strategy count).final (openFile blocks)).flat
      = ((readLines strategy count).final (openFile blocks')).flat := by
    rw [flat_final_readLines h hfirst, flat_final_readLines h' hfirst']
  rw [SameLines, sourceLines, sourceLines, ← flat_lines, hflat, flat_lines]

theorem sameLines_exampleNewlines :
    SameLines (fun _ => some true) 3 [List.replicate 2048 '\n' ++ ['n', 'o', 'p'], ['\n']]
      [List.replicate 2048 '\n', ['n', 'o', 'p', '\n']] := by
  have hcut : IsCut (List.replicate 2048 '\n' ++ ['n', 'o', 'p', '\n'])
      [List.replicate 2048 '\n' ++ ['n', 'o', 'p'], ['\n']] :=
    ⟨by decide +kernel, by decide +kernel, by decide +kernel⟩
  have hcut' : IsCut (List.replicate 2048 '\n' ++ ['n', 'o', 'p', '\n'])
      [List.replicate 2048 '\n', ['n', 'o', 'p', '\n']] :=
    ⟨by decide +kernel, by decide +kernel, by decide +kernel⟩
  exact lines_independent_of_blocks (fun _ => some true) 3 hcut hcut' (by decide +kernel)
    (by decide +kernel)

/-! ### A line with an indentation and a comment -/

section

variable {p : Char → Bool} {c : Char} {rest : Text} {s : ReadState}

theorem exec_readBufData_of_cons (hroom : s.scan.line.length < lineMax - 2)
    (hbuf : s.rlpbuf = c :: rest) : readBufData.exec s = (some true, s) := by
  have hne : s.rlpbuf ≠ [] := by
    rw [hbuf]
    exact List.cons_ne_nil c rest
  rw [exec_readBufData, if_neg (Nat.not_le.mpr hroom), if_pos hne]

/-- `accept` with a character in the buffer. -/
theorem exec_accept_of_cons (rest : Text) (hroom : s.scan.line.length < lineMax - 2)
    (hbuf : s.rlpbuf = c :: rest) :
    (accept p).exec s = if p c then (some (some c), { s with rlpbuf := rest }) else (some none, s) := by
  have hpeek : peek.exec s = (some (some c), s) := by
    rw [peek, exec_bind_of_some (exec_readBufData_of_cons hroom hbuf), if_pos rfl, exec_asks, hbuf]
    rfl
  rw [accept, exec_bind_of_some hpeek]
  dsimp only
  split_ifs
  · rw [exec_bind_of_some (exec_modify _ _), hbuf]
    rfl
  · rfl

/-- `copyWhile` up to a character that does not meet the condition. -/
theorem exec_copyWhile (word rest : Text) (hroom : s.scan.line.length + word.length < lineMax - 2)
    (hbuf : s.rlpbuf = word ++ c :: rest) (hword : ∀ d ∈ word, p d) (hc : p c = false) :
    (copyWhile p).exec s = (some (), { s with
      rlpbuf := c :: rest
      scan := { s.scan with line := s.scan.line ++ word } }) := by
  -- by induction on the text: a turn copies one character of it
  induction word generalizing s with
  | nil =>
    have hturn : (copyTurn p ()).exec s = (some (.inr ()), s) := by
      have haccept := exec_accept_of_cons (p := p) _ (by simpa using hroom) hbuf
      rw [hc, if_neg Bool.false_ne_true] at haccept
      rw [copyTurn, exec_bind_of_some haccept]
      rfl
    rw [copyWhile, exec_whileLoop (descends_copyTurn p), exec_bind_of_some hturn, List.append_nil,
      ← List.nil_append (c :: rest), ← hbuf]
    rfl
  | cons d word ih =>
    rw [List.length_cons] at hroom
    have hturn : (copyTurn p ()).exec s = (some (.inl ()), { s with
        rlpbuf := word ++ c :: rest
        scan := { s.scan with line := s.scan.line ++ [d] } }) := by
      have haccept := exec_accept_of_cons (p := p) _ (by omega) hbuf
      rw [hword d (List.mem_cons_self ..), if_pos rfl] at haccept
      rw [copyTurn, exec_bind_of_some haccept]
      rfl
    rw [copyWhile, exec_whileLoop (descends_copyTurn p), exec_bind_of_some hturn]
    have hrest := ih (s := { s with
        rlpbuf := word ++ c :: rest
        scan := { s.scan with line := s.scan.line ++ [d] } })
      (by simp only [List.length_append, List.length_singleton]; omega) rfl
      fun e he => hword e (List.mem_cons_of_mem _ he)
    rw [copyWhile] at hrest
    dsimp only
    rw [hrest]
    simp only [List.append_assoc, List.singleton_append]

end

theorem exec_modifyScan (f : LineState → LineState) (s : ReadState) :
    (modifyScan f).exec s = (some (), { s with scan := f s.scan }) :=
  rfl

/-- The blanks in front of `>` are discarded with it. -/
theorem exec_readIndentation {blanks : Text} (rest : Text) {s : ReadState}
    (hblanks : ∀ c ∈ blanks, c = ' ')
    (hlength : blanks.length < lineMax - 2) (hbuf : s.rlpbuf = blanks ++ '>' :: rest)
    (hline : s.scan.line = []) :
    readIndentation.exec s = (some (1 + blanks.length, true), { s with rlpbuf := rest }) := by
  obtain ⟨rlpbuf, blocks, opened, lateMarker, scan, lines, log⟩ := s
  obtain ⟨line, pos, blockComment, colonSubline, eolComment⟩ := scan
  obtain rfl : line = [] := hline
  obtain rfl : rlpbuf = blanks ++ '>' :: rest := hbuf
  -- the blanks are copied, and the character behind them is accepted
  have hcopy := exec_copyWhile (p := fun c => c = ' ' || c = '\t') blanks rest
    (s := ⟨blanks ++ '>' :: rest, blocks, opened, lateMarker,
      ⟨[], pos, blockComment, colonSubline, eolComment⟩, lines, log⟩)
    (by simpa using hlength) rfl (fun c hc => by simp [hblanks c hc]) (by decide)
  have haccept := exec_accept_of_cons (p := (· = '>')) rest
    (s := ⟨'>' :: rest, blocks, opened, lateMarker,
      ⟨blanks, pos, blockComment, colonSubline, eolComment⟩, lines, log⟩) hlength rfl
  rw [readIndentation, exec_bind_of_some hcopy, exec_bind_of_some (exec_asks _ _)]
  dsimp only [List.nil_append]
  rw [exec_bind_of_some haccept]
  rfl

/-- A character that starts neither a continuation nor a part of a block comment. -/
theorem exec_copyChar {c : Char} {isLabel afterNonAlphaNum : Bool} {s : ReadState}
    (hbackslash : c ≠ '\\') (hstar : c ≠ '*') (hslash : c ≠ '/') (hblock : s.scan.blockComment = 0) :
    (copyChar c isLabel afterNonAlphaNum).exec s
      = (copyCode c isLabel afterNonAlphaNum).exec s := by
  rw [copyChar, escapeEol, if_neg hbackslash, exec_bind_of_some (exec_pure _ _),
    if_neg Bool.false_ne_true, closeComment, if_neg hstar, exec_bind_of_some (exec_pure _ _),
    if_neg Bool.false_ne_true, openComment, if_neg hslash, exec_bind_of_some (exec_pure _ _),
    if_neg Bool.false_ne_true, exec_bind_of_some (exec_asks _ _), if_neg (not_not.mpr hblock)]

theorem exec_copyCode_comment (isLabel afterNonAlphaNum : Bool) {s t : ReadState}
    (h : (readComment ';').exec s = (some (), t)) :
    (copyCode ';' isLabel afterNonAlphaNum).exec s = (some false, t) := by
  have hlabel : ¬(isLabel && islabchar ';') = true := by
    rw [show islabchar ';' = false by decide, Bool.and_false]
    exact Bool.false_ne_true
  rw [copyCode, if_neg hlabel, startsComment, if_neg (by decide), exec_bind_of_some (exec_pure _ _),
    if_pos (by decide), exec_bind_of_some h, exec_pure]

/-- A comment is a turn of the main loop. -/
theorem exec_copyLine_comment {text : Text} (rest : Text) {s : ReadState} (htext : ∀ c ∈ text, c = ' ')
    (hlength : text.length + 1 < lineMax - 2) (hbuf : s.rlpbuf = ';' :: (text ++ '\r' :: rest))
    (hline : s.scan.line = []) (hblock : s.scan.blockComment = 0) :
    (copyLine true true).exec s = (some (), { s with
      rlpbuf := '\r' :: rest
      scan := { s.scan with line := ';' :: text, eolComment := some 0 } }) := by
  obtain ⟨rlpbuf, blocks, opened, lateMarker, scan, lines, log⟩ := s
  obtain ⟨line, pos, blockComment, colonSubline, eolComment⟩ := scan
  obtain rfl : line = [] := hline
  obtain rfl : blockComment = 0 := hblock
  obtain rfl : rlpbuf = ';' :: (text ++ '\r' :: rest) := hbuf
  dsimp only
  -- the states in front of the comment, behind its first character, and behind it
  obtain ⟨s, hs⟩ : ∃ s : ReadState, s = ⟨';' :: (text ++ '\r' :: rest), blocks, opened, lateMarker,
    ⟨[], pos, 0, colonSubline, eolComment⟩, lines, log⟩ := ⟨_, rfl⟩
  obtain ⟨t, ht⟩ : ∃ t : ReadState, t = ⟨'\r' :: rest, blocks, opened, lateMarker,
    ⟨';' :: text, pos, 0, colonSubline, some 0⟩, lines, log⟩ := ⟨_, rfl⟩
  have hcomment : (readComment ';').exec { s with rlpbuf := text ++ '\r' :: rest }
      = (some (), t) := by
    have hcopy := exec_copyWhile (p := fun c => !isEol c) (c := '\r') text rest
      (s := ⟨text ++ '\r' :: rest, blocks, opened, lateMarker,
        ⟨[';'], pos, 0, colonSubline, some 0⟩, lines, log⟩)
      (by simp only [List.length_singleton]; omega) rfl (fun c hc => by simp [htext c hc, isEol])
      (by decide)
    rw [readComment, exec_bind_of_some (exec_modifyScan _ _), push,
      exec_bind_of_some (exec_modifyScan _ _), hs, ht]
    exact hcopy
  have hturn : (lineTurn true ⟨true, true⟩).exec s = (some (.inl ⟨false, true⟩), t) := by
    have haccept := exec_accept_of_cons
      (p := fun c => !isEol c &&
        (decide (s.scan.blockComment ≠ 0) || !true || decide (s.scan.line = []) || decide (c ≠ ':')))
      (c := ';') (s := s) (text ++ '\r' :: rest) (by rw [hs]; simp [lineMax]) (by rw [hs])
    have haccepted : (!isEol ';' && (decide (s.scan.blockComment ≠ 0) || !true ||
        decide (s.scan.line = []) || decide (';' ≠ ':'))) = true := by
      rw [hs]
      rfl
    rw [haccepted, if_pos rfl] at haccept
    rw [lineTurn, exec_bind_of_some (exec_asks _ _), exec_bind_of_some haccept]
    have hchar : (copyChar ';' true true).exec { s with rlpbuf := text ++ '\r' :: rest }
        = (some false, t) := by
      rw [exec_copyChar (by decide) (by decide) (by decide) (by rw [hs])]
      exact exec_copyCode_comment true true hcomment
    dsimp only
    rw [exec_bind_of_some hchar]
    rfl
  have hend : (lineTurn true ⟨false, true⟩).exec t = (some (.inr ()), t) := by
    have haccept := exec_accept_of_cons
      (p := fun c => !isEol c &&
        (decide (t.scan.blockComment ≠ 0) || !true || decide (t.scan.line = []) || decide (c ≠ ':')))
      (c := '\r') (s := t) rest (by rw [ht]; simpa using hlength) (by rw [ht])
    rw [if_neg (by simp [isEol])] at haccept
    rw [lineTurn, exec_bind_of_some (exec_asks _ _), exec_bind_of_some haccept]
    rfl
  rw [copyLine, ← hs, exec_whileLoop (descends_lineTurn true), exec_bind_of_some hturn]
  dsimp only
  rw [exec_whileLoop (descends_lineTurn true), exec_bind_of_some hend, ht]
  rfl

/-- The first line of a source, when it is an indented comment: what is left to do behind the comment
depends on what the current block holds there. -/
theorem exec_readSegment_comment (blanks text rest : Text) (blocks : List Text)
    (hblanks : ∀ c ∈ blanks, c = ' ') (htext : ∀ c ∈ text, c = ' ')
    (hlength : blanks.length < lineMax - 2) (hlength' : text.length + 1 < lineMax - 2) :
    (readSegment true).exec ⟨blanks ++ '>' :: ';' :: (text ++ '\r' :: rest), blocks, true, false,
        ⟨[], ⟨0, 0, 0⟩, 0, false, none⟩, [], []⟩
      = (do
          endLine true false
          modifyScan fun scan => { scan with pos := nextPosition false (1 + blanks.length) scan }).exec
        ⟨'\r' :: rest, blocks, true, false, ⟨';' :: text, ⟨0, 0, 0⟩, 0, false, some 0⟩, [], []⟩ := by
  have hindentation := exec_readIndentation (';' :: (text ++ '\r' :: rest))
    (s := ⟨blanks ++ '>' :: ';' :: (text ++ '\r' :: rest), blocks, true, false,
      ⟨[], ⟨0, 0, 0⟩, 0, false, none⟩, [], []⟩) hblanks hlength rfl rfl
  have hcopy := exec_copyLine_comment rest
    (s := ⟨';' :: (text ++ '\r' :: rest), blocks, true, false,
      ⟨[], ⟨0, 0, 0⟩, 0, false, none⟩, [], []⟩) htext hlength' rfl rfl rfl
  rw [readSegment, exec_bind_of_some (exec_modifyScan _ _), exec_bind_of_some (exec_asks _ _)]
  dsimp only
  rw [if_neg Bool.false_ne_true, if_pos ⟨rfl, rfl⟩, exec_bind_of_some hindentation]
  dsimp only
  rw [readRest]
  show (copyLine true true >>= fun _ => _).exec _ = _
  rw [exec_bind_of_some hcopy]

/-- A source whose first line ends with the first block, behind the longest indentation and the longest
comment, and whose second line starts with three characters that look like a marker. -/
def exampleFirstBlock : Text :=
  ['\xEF', '\xBB', '\xBF'] ++ List.replicate 2045 ' ' ++ ['>', ';'] ++ List.replicate 2044 ' ' ++
    ['\r', '\n']

def exampleSecondBlock : Text := ['\xEF', '\xBB', '\xBF', ' ', 'n', 'o', 'p']

/-- What is left to do behind the comment of the first line: its end, and one more line. -/
def exampleRest : ReadProgram Unit := do
  endLine true false
  modifyScan fun scan => { scan with pos := nextPosition false 2046 scan }
  modify fun s => { s with lines := s.lines ++ [⟨s.scan.line, s.scan.eolComment, s.scan.pos⟩] }
  readLines (fun _ => some true) 1

theorem final_exampleFirstLine (rest : Text) (blocks : List Text) :
    (readLines (fun _ => some true) 2).final (openFile ((exampleFirstBlock ++ rest) :: blocks))
      = exampleRest.final ⟨'\r' :: '\n' :: rest, blocks, true, false,
          ⟨';' :: List.replicate 2044 ' ', ⟨0, 0, 0⟩, 0, false, some 0⟩, [], []⟩ := by
  -- the marker of the first block is taken off
  have hdata : readBufData.exec (openFile ((exampleFirstBlock ++ rest) :: blocks))
      = (some true, ⟨List.replicate 2045 ' ' ++ '>' :: ';' :: (List.replicate 2044 ' ' ++
          '\r' :: '\n' :: rest), blocks, true, false, ⟨[], ⟨0, 0, 0⟩, 0, false, none⟩, [], []⟩) := by
    have hblock : exampleFirstBlock ++ rest = '\xEF' :: '\xBB' :: '\xBF' ::
        (List.replicate 2045 ' ' ++ '>' :: ';' :: (List.replicate 2044 ' ' ++ '\r' :: '\n' :: rest)) := by
      simp only [exampleFirstBlock, List.append_assoc, List.cons_append, List.nil_append]
    rw [exec_readBufData, openFile, hblock]
    rfl
  have hline := exec_readSegment_comment (List.replicate 2045 ' ') (List.replicate 2044 ' ')
    ('\n' :: rest) blocks
    (fun c hc => List.eq_of_mem_replicate hc) (fun c hc => List.eq_of_mem_replicate hc)
    (by rw [List.length_replicate]; decide) (by rw [List.length_replicate]; decide)
  rw [List.length_replicate] at hline
  show (asks _ >>= fun _ => readBufLine true >>= fun more =>
    if more then readLines (fun _ => some true) 1 else pure ()).final _ = _
  rw [final_bind_of_some (exec_asks _ _), final, final, exampleRest, exec_bind, readBufLine,
    exec_bind_of_some hdata, if_pos rfl, exec_bind, hline, exec_bind, exec_bind]
  rcases (endLine true false).exec ⟨'\r' :: '\n' :: rest, blocks, true, false,
    ⟨';' :: List.replicate 2044 ' ', ⟨0, 0, 0⟩, 0, false, some 0⟩, [], []⟩ with ⟨_ | _, t⟩
  · rfl
  · rfl

/-- The content of the two blocks, of 4103 characters. -/
def exampleContent : Text := exampleFirstBlock ++ exampleSecondBlock

theorem isCut_exampleContent :
    IsCut exampleContent [exampleFirstBlock, exampleSecondBlock] ∧
      IsCut exampleContent [exampleContent] := by
  have hfirst : exampleFirstBlock ≠ [] := List.cons_ne_nil _ _
  constructor
  · refine ⟨by simp only [exampleContent, List.flatten_cons, List.flatten_nil, List.append_nil], ?_, ?_⟩
    · simp only [List.forall_mem_cons]
      exact ⟨hfirst, by decide, nofun⟩
    · simp only [List.dropLast_cons_cons, List.dropLast_singleton, List.forall_mem_cons]
      exact ⟨by decide +kernel, nofun⟩
  · refine ⟨by simp only [List.flatten_cons, List.flatten_nil, List.append_nil], ?_, nofun⟩
    simp only [List.forall_mem_cons]
    exact ⟨fun hnil => hfirst (List.append_eq_nil_iff.mp hnil).1, nofun⟩

/-- The second block is read while the first line is not over, and loses what looks like a marker. -/
theorem not_sameLines_exampleContent :
    '\x00' ∉ exampleContent ∧
      IsCut exampleContent [exampleFirstBlock, exampleSecondBlock] ∧
      IsCut exampleContent [exampleContent] ∧
      ¬SameLines (fun _ => some true) 2 [exampleFirstBlock, exampleSecondBlock] [exampleContent] := by
  refine ⟨?_, isCut_exampleContent.1, isCut_exampleContent.2, ?_⟩
  · decide +kernel
  · have hsplit := final_exampleFirstLine [] [exampleSecondBlock]
    have hwhole := final_exampleFirstLine exampleSecondBlock []
    rw [List.append_nil] at hsplit
    rw [SameLines, sourceLines, sourceLines, hsplit, exampleContent, hwhole]
    decide +kernel

end Sjasmplus
