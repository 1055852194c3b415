import Mathlib.Data.Nat.Bitwise
import Sjasmplus.ExpressionAtoms
import Sjasmplus.Lib.Layout
import Sjasmplus.ParseLabel

/-!
# The text of definitions

What the lines between `STRUCT` and `ENDS` say: the flattened definition of a structure is a list of
labels and of members with their lengths, in the order of the lines, with nested structures written out
between the two markers of their braces.  Every line is read as text, by the names of the members and
by the values of their first expressions; nothing here knows how a structure is built.  Of the code
`definitionFields` only takes where the next line starts, since the values of a text and of a nested
structure may go on over several lines.
-/

namespace Sjasmplus

open Parsing ParseFn

variable {n m : Nat}

/-! ### Flattened definitions -/

/-- The fields of a flattened definition: labels, and members with their lengths. -/
abbrev Fields := List (Layout.Field Text Aint)

/-- The flattened definitions of structures by their full names. -/
abbrev Definitions := Text → Option Fields

/-- What the initial offset of `STRUCT` puts in front of all fields. -/
def offsetFields (offset : Aint) : Fields := if offset ≠ 0 then [.member offset] else []

/-- The name of a label of a nested structure. -/
def nestedName (outer naam : Text) : Text := outer ++ '.' :: naam

/-- A nested structure inside the markers of its braces.  Behind a label its labels have qualified
names, without one it has no labels. -/
def nestedFields (outer : Option Text) (fields : Fields) : Fields :=
  .member 0 :: (match outer with
    | none => Layout.members fields
    | some outer => Layout.rename (nestedName outer) fields) ++ [.member 0]

/-! ### Members -/

/-- The names of the kinds of members. -/
def memberNames : List (AsmProgram.MemberId × List Text) :=
  [(.value .byte, ["byte".toList, "db".toList, "defb".toList]),
    (.value .word, ["word".toList, "dw".toList, "defw".toList]),
    (.value .d24, ["d24".toList]),
    (.value .dword, ["dword".toList, "dd".toList, "defd".toList]),
    (.block, ["block".toList, "ds".toList, "defs".toList]),
    (.text, ["text".toList]),
    (.align, ["align".toList])]

/-- The word is the name, in lower case or in upper case. -/
def IsMemberName (word name : Text) : Prop := word = name ∨ word = name.map Char.toUpper

instance (word name : Text) : Decidable (IsMemberName word name) :=
  inferInstanceAs (Decidable (_ ∨ _))

/-- The kind that a word names. -/
def namedKind (word : Text) : Option AsmProgram.MemberId :=
  (memberNames.find? fun names => names.2.any (IsMemberName word ·)).map (·.1)

/-- The kind of the member at the text, and the text behind its name.  `#` is a block and `##` an
alignment; what is no name of a kind may be the name of a structure. -/
def memberAt (p : Text) : AsmProgram.MemberId × Text :=
  if cur p = '#' then (if cur p.tail = '#' then (.align, p.tail.tail) else (.block, p.tail))
  else
    let rest := p.dropWhile islabchar
    if keywordEnds rest false then
      match namedKind (p.takeWhile islabchar) with
      | some kind => (kind, rest)
      | none => (.unknown, p)
    else (.unknown, p)

/-- The bytes of a value. -/
def valueLength : ValueType → Aint
  | .byte => 1
  | .word => 2
  | .d24 => 3
  | .dword => 4

/-- The value of the expression at the text. -/
def evaluate (env : ExprEnv) (p : Text) : Option Aint := (parseExpressionEntry env p).val

/-- The powers of two up to the 15th. -/
def IsAlignment (alignment : Aint) : Prop := ∃ k < 16, alignment.toInt = 2 ^ k

instance (alignment : Aint) : Decidable (IsAlignment alignment) :=
  inferInstanceAs (Decidable (∃ k < 16, _))

/-- The alignment that an `ALIGN` member asks for: 4 without an expression.  Any value that is no
alignment is an error, which leaves 0. -/
def writtenAlignment : Option Aint → Aint
  | none => 4
  | some alignment => if IsAlignment alignment then alignment else 0

/-- The bytes from an offset to the next multiple of an alignment. -/
def gapTo (offset alignment : Aint) : Aint := BitVec.ofInt 32 (-offset.toInt % alignment.toInt)

/-- The fields of a member behind fields of the given size, when its name is read.  `naam` is the
structure that is defined, which can not include itself. -/
def memberFields (defs : Definitions) (s : AsmState n m) (naam : Text) (size : Aint)
    (outer : Option Text) : AsmProgram.MemberId × Text → Fields
  | (.value type, _) => [.member (valueLength type)]
  | (.block, p) => [.member ((evaluate (s.exprEnv true) p).getD 1)]
  | (.text, p) =>
    match evaluate (s.exprEnv true) p with
    | some len => if 1 ≤ len.toInt ∧ len.toInt ≤ 8192 then [.member len] else []
    | none => []
  | (.align, p) =>
    let gap := gapTo size (writtenAlignment (evaluate (s.exprEnv true) (skipBlanks p)))
    if 1 ≤ gap.toInt then [.member gap] else []
  | (.unknown, p) =>
    match AsmProgram.structureName p with
    | (some inner, gl, _) =>
      match AsmProgram.zoek s inner gl with
      | some source => if source.naam = naam then [] else nestedFields outer ((defs source.naam).getD [])
      | none => []
    | (none, _, _) => []

/-! ### Lines -/

/-- The name of the field label at the start of a line. -/
def fieldLabel (p : Text) : Text := (if cur p = '.' then p.tail else p).takeWhile islabchar

/-- The text behind the field label at the start of a line. -/
def behindFieldLabel (p : Text) : Text :=
  let p := (if cur p = '.' then p.tail else p).dropWhile islabchar
  skipBlanks (if cur p = ':' then p.tail else p)

/-- The field label of a line.  A number is an error and no label. -/
def lineLabel (p : Text) : Option Text :=
  if white (cur p) ∨ (cur (fieldLabel p)).isDigit then none else some (fieldLabel p)

/-- The text of the member of a line. -/
def lineMember (p : Text) : Text := if white (cur p) then skipBlanks p else behindFieldLabel p

/-- The fields of a line behind fields of the given size. -/
def lineFields (defs : Definitions) (s : AsmState n m) (naam : Text) (size : Aint) : Fields :=
  if cur s.lp = '\x00' then []
  else (lineLabel s.lp).toList.map .label ++
    if cur (lineMember s.lp) = '\x00' then []
    else memberFields defs s naam size (lineLabel s.lp) (memberAt (lineMember s.lp))

/-- The fields of the lines up to `ENDS`.  `parseStructLine` moves on to the next line. -/
def definitionFields (defs : Definitions) (naam : Text) :
    Nat → Structure → Fields → AsmState n m → Fields
  | 0, _, fields, _ => fields
  | fuel + 1, st, fields, s =>
    match s.lines with
    | [] => fields
    | line :: lines =>
      if AsmProgram.endsKeyword line.line then fields
      else
        let s := { s with lp := line.substituted, lines := lines }
        let fields := fields ++ lineFields defs s naam (Layout.size fields)
        match (AsmProgram.parseStructLine st).exec s with
        | (some st, s) => definitionFields defs naam fuel st fields s
        | (none, _) => fields

/-! ### Definitions -/

/-- The full name of the structure that a `STRUCT` defines. -/
def definitionName (s : AsmState n m) : Option Text :=
  (validateLabel s.scope false true (skipBlanks s.lp)).1

/-- The initial offset behind a comma, 0 without one. -/
def definitionOffset (s : AsmState n m) : Option Aint :=
  let p := skipBlanks ((skipBlanks s.lp).dropWhile islabchar)
  if cur p = ',' ∧ cur p.tail ≠ ',' then evaluate (s.exprEnv false) p.tail else some 0

/-- `dirSTRUCT` up to the first line of the definition. -/
def AsmProgram.structureStart : AsmProgram n m (Option (Option Structure)) := do
  let _ ← skipBlanks
  match ← validateLabel (← get).lp false true with
  | none =>
    modify fun s => { s with lp := [] }
    pure none
  | some validLabel =>
    let _ ← scan fun p => ((), p.dropWhile islabchar)
    match ← structureOffset with
    | none => pure none
    | some offset =>
      let atEnd ← skipBlanks
      Program.when (!atEnd) <|
        error "[STRUCT] syntax error, unexpected" (some (← get).lp)
      some <$> addStructure validLabel offset

/-- The lines of a definition, behind its start. -/
def AsmProgram.structureBody : Option (Option Structure) → AsmProgram n m Unit
  | none => pure ()
  | some st => do structureLines (← get).lines.length st

/-- `dirSTRUCT` reads its lines behind the start. -/
theorem AsmProgram.dirSTRUCT_eq :
    dirSTRUCT (n := n) (m := m) = structureStart >>= structureBody := by
  unfold dirSTRUCT structureStart
  simp only [bind_assoc]
  refine congrArg (AsmProgram.skipBlanks >>= ·) (funext fun _ => congrArg (get >>= ·) (funext fun s => ?_))
  refine congrArg (AsmProgram.validateLabel s.lp false true >>= ·) (funext fun label => ?_)
  cases label with
  | none => rfl
  | some validLabel =>
    simp only [bind_assoc]
    refine congrArg (AsmProgram.scan _ >>= ·) (funext fun _ => ?_)
    refine congrArg (structureOffset >>= ·) (funext fun o => ?_)
    cases o with
    | none => rfl
    | some offset => simp only [bind_assoc, map_eq_pure_bind, pure_bind, structureBody]

/-- `STRUCT` adds the definition that its lines say, unless the structure has one already. -/
def readDefinition (defs : Definitions) (s : AsmState n m) : Definitions :=
  match definitionName s, definitionOffset s with
  | some naam, some offset =>
    if (defs naam).isSome then defs
    else
      let t := (AsmProgram.structureStart).final s
      Function.update defs naam (some (definitionFields defs naam t.lines.length
        (Structure.init naam offset) (offsetFields offset) t))
  | _, _ => defs

/-! ### What is read of the state -/

/-- Reading a member depends on the values of expressions and on the structures that names find. -/
theorem memberFields_congr {defs : Definitions} {s t : AsmState n m}
    (henv : t.exprEnv true = s.exprEnv true) (hscope : t.scope = s.scope)
    (hstructures : t.structures = s.structures) :
    memberFields defs t = memberFields defs s := by
  have hzoek : AsmProgram.zoek t = AsmProgram.zoek s := by
    funext naam gl
    rw [AsmProgram.zoek, AsmProgram.zoek, hscope, hstructures]
  funext naam size outer member
  unfold memberFields
  rw [henv, hzoek]

/-! ### The names of members -/

/-- A keyword of label characters that starts with a lower case letter. -/
def IsKeyword (kw : Text) : Prop :=
  (∀ word ∈ [kw, kw.map Char.toUpper], ∀ c ∈ word, islabchar c = true) ∧ (cur kw).isAlpha = true ∧
    (cur kw).isUpper = false ∧ (cur kw).toUpper.isUpper = true

instance (kw : Text) : Decidable (IsKeyword kw) :=
  -- over the characters of the word, not over all characters
  have (word : Text) : Decidable (∀ c ∈ word, islabchar c = true) := List.decidableBAll _ word
  inferInstanceAs (Decidable (_ ∧ _))

theorem not_islabchar_behind {q : Text} (h : keywordEnds q false = true) : islabchar (cur q) = false := by
  refine not_islabchar_of_keywordEnds ?_
  simp only [keywordEnds, Bool.false_and, Bool.or_false] at h
  simp only [keywordEnds, h, Bool.true_or]

/-- The keyword as it is written at a text. -/
def writtenKeyword (p kw : Text) : Text := if (cur p).isUpper then kw.map Char.toUpper else kw

theorem cmphstr_eq_some_iff {kw : Text} (hkw : IsKeyword kw) {p q : Text} :
    cmphstr p kw = some q ↔ p = writtenKeyword p kw ++ q ∧ keywordEnds q false = true := by
  -- the keyword is compared in the case in which its first letter is written
  cases kw with
  | nil => exact absurd hkw.2.1 (by decide)
  | cons c cs =>
    have halpha : c.isAlpha = true := hkw.2.1
    simp only [cmphstr, List.takeWhile_cons, List.dropWhile_cons, halpha, Bool.not_true,
      Bool.false_eq_true, if_false, stripPrefix]
    show (match stripPrefix (writtenKeyword p (c :: cs)) p with
      | none => none
      | some q => if keywordEnds q false = true then some q else none) = some q ↔ _
    rw [← stripPrefix_eq_some]
    cases stripPrefix (writtenKeyword p (c :: cs)) p with
    | none => simp
    | some rest =>
      by_cases hends : keywordEnds rest false = true
      · simp only [hends, if_true, Option.some.injEq]
        exact ⟨fun h => ⟨h, h ▸ hends⟩, And.left⟩
      · simp only [hends, Bool.false_eq_true, if_false, reduceCtorEq, Option.some.injEq, false_iff]
        rintro ⟨rfl, hrest⟩
        exact hends hrest

/-- A keyword is a whole word of the text. -/
theorem cmphstr_eq {kw : Text} (hkw : IsKeyword kw) (p : Text) :
    cmphstr p kw =
      if keywordEnds (p.dropWhile islabchar) false = true ∧ IsMemberName (p.takeWhile islabchar) kw
      then some (p.dropWhile islabchar) else none := by
  have hchars : ∀ c ∈ writtenKeyword p kw, islabchar c = true := by
    unfold writtenKeyword
    split_ifs <;> exact hkw.1 _ (by simp)
  refine Option.ext fun q => ?_
  rw [cmphstr_eq_some_iff hkw]
  constructor
  · rintro ⟨hp, hends⟩
    obtain ⟨hword, hrest⟩ := takeWhile_append_stop hchars (not_islabchar_behind hends)
    rw [← hp] at hword hrest
    have hname : IsMemberName (writtenKeyword p kw) kw := by
      unfold writtenKeyword
      split_ifs
      · exact .inr rfl
      · exact .inl rfl
    rw [hword, hrest, if_pos ⟨hends, hname⟩]
  · intro h
    split_ifs at h with hcond
    obtain rfl := Option.some.inj h
    refine ⟨?_, hcond.1⟩
    have hsplit : p.takeWhile islabchar ++ p.dropWhile islabchar = p := List.takeWhile_append_dropWhile
    generalize p.dropWhile islabchar = rest at hsplit
    -- the first letter tells in which case the keyword is written
    rcases hcond.2 with hname | hname <;> rw [hname] at hsplit <;> subst hsplit
    all_goals
      rw [writtenKeyword]
      cases kw with
      | nil => exact absurd hkw.2.1 (by decide)
      | cons c cs => ?_
    · have hlower : (cur (c :: cs ++ rest)).isUpper = false := hkw.2.2.1
      rw [hlower]
      rfl
    · have hupper : (cur ((c :: cs).map Char.toUpper ++ rest)).isUpper = true := hkw.2.2.2
      rw [if_pos hupper]

theorem isKeyword_memberKeywords : ∀ kw ∈ AsmProgram.memberKeywords, IsKeyword kw.1.toList := by
  decide

/-- Every keyword names its kind, in lower case and in upper case. -/
theorem namedKind_of_mem : ∀ kw ∈ AsmProgram.memberKeywords,
    namedKind kw.1.toList = some kw.2 ∧ namedKind (kw.1.toList.map Char.toUpper) = some kw.2 := by
  decide +kernel

/-- No other word names a kind. -/
theorem namedKind_eq_none {word : Text}
    (h : ∀ kw ∈ AsmProgram.memberKeywords, ¬IsMemberName word kw.1.toList) : namedKind word = none := by
  have hnames : ∀ names ∈ memberNames, ∀ name ∈ names.2,
      ∃ kw ∈ AsmProgram.memberKeywords, name = kw.1.toList := by decide
  rw [namedKind, Option.map_eq_none_iff, List.find?_eq_none]
  intro names hmem hany
  obtain ⟨name, hname, his⟩ := List.any_eq_true.mp hany
  obtain ⟨kw, hkw, rfl⟩ := hnames names hmem name hname
  exact h kw hkw (of_decide_eq_true his)

/-- The keywords of the code are the names of the kinds. -/
theorem findSome?_memberKeywords (p : Text) :
    (AsmProgram.memberKeywords.findSome? fun kw => (cmphstr p kw.1.toList).map fun q => (kw.2, q))
      = if keywordEnds (p.dropWhile islabchar) false = true then
          (namedKind (p.takeWhile islabchar)).map (·, p.dropWhile islabchar)
        else none := by
  -- a keyword is found where the whole name is the keyword, in either case
  have hkeyword : ∀ kw ∈ AsmProgram.memberKeywords, (cmphstr p kw.1.toList).map (fun q => (kw.2, q))
      = if keywordEnds (p.dropWhile islabchar) false = true ∧
          IsMemberName (p.takeWhile islabchar) kw.1.toList then some (kw.2, p.dropWhile islabchar)
        else none := by
    intro kw hkw
    rw [cmphstr_eq (isKeyword_memberKeywords kw hkw)]
    split_ifs <;> rfl
  have hnamed : ∀ kw ∈ AsmProgram.memberKeywords, IsMemberName (p.takeWhile islabchar) kw.1.toList →
      namedKind (p.takeWhile islabchar) = some kw.2 := by
    rintro kw hkw (hname | hname) <;> rw [hname]
    · exact (namedKind_of_mem kw hkw).1
    · exact (namedKind_of_mem kw hkw).2
  -- the first keyword that is found is the only one of that name
  cases hfind : AsmProgram.memberKeywords.findSome? fun kw =>
      (cmphstr p kw.1.toList).map fun q => (kw.2, q) with
  | some found =>
    obtain ⟨kw, hkw, hfound⟩ := List.exists_of_findSome?_eq_some hfind
    rw [hkeyword kw hkw] at hfound
    split_ifs at hfound with hcond
    rw [if_pos hcond.1, hnamed kw hkw hcond.2]
    exact hfound.symm
  | none =>
    by_cases hends : keywordEnds (p.dropWhile islabchar) false = true
    · rw [if_pos hends, namedKind_eq_none fun kw hkw hname => ?_]
      · rfl
      · have hmiss := List.findSome?_eq_none_iff.mp hfind kw hkw
        rw [hkeyword kw hkw, if_pos ⟨hends, hname⟩] at hmiss
        cases hmiss
    · rw [if_neg hends]

/-- `GetStructMemberId` reads the kind of the member. -/
theorem getStructMemberId_eq :
    AsmProgram.getStructMemberId (n := n) (m := m) = AsmProgram.scan memberAt := by
  have hread : (fun p : Text => if cur p = '#' then
        if cur p.tail = '#' then (AsmProgram.MemberId.align, p.tail.tail) else (.block, p.tail)
      else (AsmProgram.memberKeywords.findSome? fun kw =>
        (cmphstr p kw.1.toList).map fun q => (kw.2, q)).getD (.unknown, p)) = memberAt := by
    funext p
    rw [findSome?_memberKeywords, memberAt]
    dsimp only
    split_ifs
    · rfl
    · rfl
    · cases namedKind (p.takeWhile islabchar) <;> rfl
    · rfl
  exact congrArg AsmProgram.scan hread

/-! ### Alignments -/

/-- The alignments that `ALIGN` takes. -/
theorem isAlignment_iff (alignment : Aint) : IsAlignment alignment ↔
    ¬(alignment.toInt < 1 ∨ 0x8000 < alignment.toInt ∨ alignment &&& (alignment - 1) ≠ 0) := by
  constructor
  · rintro ⟨k, hk, hval⟩
    have halignment : alignment = BitVec.ofInt 32 (2 ^ k) := by rw [← hval, BitVec.ofInt_toInt]
    subst halignment
    -- one way the sixteen powers are tried
    interval_cases k <;> decide
  · intro h
    simp only [not_or, not_lt, not_not] at h
    obtain ⟨hpos, hle, hand⟩ := h
    have hnat : alignment.toInt = alignment.toNat := by
      have := BitVec.toInt_eq_toNat_cond alignment
      have := alignment.isLt
      split_ifs at * <;> omega
    have hsub : (alignment - 1).toNat = alignment.toNat - 1 :=
      BitVec.toNat_sub_of_le (show (1 : Aint).toNat ≤ alignment.toNat by
        have : (1 : Aint).toNat = 1 := rfl
        omega)
    -- the other way `x & (x - 1)` is zero for powers of two alone
    have hbits : alignment.toNat &&& (alignment.toNat - 1) = 0 := by
      rw [← hsub, ← BitVec.toNat_and, hand]
      rfl
    obtain ⟨k, hk⟩ := (Nat.and_sub_one_eq_zero_iff_isPowerOfTwo (by omega)).mp hbits
    refine ⟨k, ?_, by rw [hnat, hk]; norm_cast⟩
    have hbound : 2 ^ k ≤ 2 ^ 15 := by omega
    have := (Nat.pow_le_pow_iff_right (by decide)).mp hbound
    omega

/-- The code gets to the next multiple. -/
theorem alignmentGap_eq {alignment : Aint} (h : alignment = 0 ∨ IsAlignment alignment) (offset : Aint) :
    AsmProgram.alignmentGap offset alignment = gapTo offset alignment := by
  rw [AsmProgram.alignmentGap, gapTo,
    show ~~~offset + 1 = -offset from (BitVec.neg_eq_not_add offset).symm]
  -- a zero behind an error makes the mask all ones
  rcases h with rfl | ⟨k, hk, hval⟩
  · show -offset &&& BitVec.allOnes 32 = BitVec.ofInt 32 (-offset.toInt % 0)
    rw [BitVec.and_allOnes, Int.emod_zero, BitVec.ofInt_neg, BitVec.ofInt_toInt]
  · have halignment : alignment = BitVec.ofInt 32 (2 ^ k) := by rw [← hval, BitVec.ofInt_toInt]
    have hone : (alignment - 1).toNat = 2 ^ k - 1 := by
      subst halignment
      interval_cases k <;> rfl
    -- the mask is a remainder, and the wrap at `2 ^ 32` is a multiple of the alignment
    have hdvd : (2 ^ k : Int) ∣ 2 ^ 32 := pow_dvd_pow 2 (by omega)
    have hneg : -offset = BitVec.ofInt 32 (-offset.toInt) := by
      rw [BitVec.ofInt_neg, BitVec.ofInt_toInt]
    have hless : -offset.toInt % 2 ^ k < 2 ^ 32 :=
      (Int.emod_lt_of_pos _ (by positivity)).trans_le (Int.le_of_dvd (by decide) hdvd)
    have hnonneg : 0 ≤ -offset.toInt % 2 ^ k := Int.emod_nonneg _ (by positivity)
    refine BitVec.eq_of_toNat_eq ?_
    rw [BitVec.toNat_and, hone, Nat.and_two_pow_sub_one_eq_mod, hval, hneg, BitVec.toNat_ofInt,
      BitVec.toNat_ofInt]
    generalize -offset.toInt = z at hless hnonneg ⊢
    have hfits : z % 2 ^ k % (2 ^ 32 : Nat) = z % 2 ^ k :=
      Int.emod_eq_of_lt hnonneg (by exact_mod_cast hless)
    rw [hfits]
    have hmod := Int.emod_emod_of_dvd z hdvd
    have hcast : ((z % 2 ^ 32).toNat : Int) = z % 2 ^ 32 :=
      Int.toNat_of_nonneg (Int.emod_nonneg _ (by decide))
    refine Int.natCast_inj.mp ?_
    rw [Int.toNat_of_nonneg hnonneg, ← hmod, ← hcast]
    norm_cast

end Sjasmplus
