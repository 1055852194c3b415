import Sjasmplus.Labels

/-!
# Local labels inside macros (`Emit` and `SearchLabel` of `tables.cpp`)

Every macro call has a number, and inside of it `macrolabp` holds its number and those of the calls
around it.  A label `.x` defined there gets this prefix; a reference to `.x` looks under the prefix of
the call it is in, then under those of the calls around it, and at last under the main label outside
macros.

* `definedName_inside`, `definedName_outside` — the names under which `.x` is defined;
* `searchNames_nested` — the names under which it is looked up;
* `localLabel_resolves_iff` — the two agree for every nesting as long as the main label and `x` have at
  most 63 characters each, and the prefix fits its buffer.
-/

namespace Sjasmplus

open Parsing ParseFn

/-! ### The prefix of a macro call -/

/-- The numbers of nested calls, the innermost one first. -/
def callNumbers : List Nat → Text
  | [] => []
  | [macronummer] => Nat.toDigits 10 macronummer
  | macronummer :: calls => Nat.toDigits 10 macronummer ++ '.' :: callNumbers calls

/-- What `Emit` makes of `macrolabp` when it is not null, in a buffer of `LINEMAX` characters; without
a result the buffer overflows. -/
def emitLabel (macronummer : Nat) (omacrolabp : Option Text) : Option Text :=
  let labnr := Nat.toDigits 10 macronummer ++
    match omacrolabp with
    | some omacrolabp => '.' :: omacrolabp.take (lineMax - 1)
    | none => []
  if labnr.length < lineMax then some labnr else none

/-- `macrolabp` inside of nested calls, the innermost one first: null outside of macros. -/
def macrolabp : List Nat → Option (Option Text)
  | [] => some none
  | macronummer :: calls => do
    let omacrolabp ← macrolabp calls
    let labnr ← emitLabel macronummer omacrolabp
    pure (some labnr)

/-! ### Resolving a local label -/

/-- The name under which a label line `.x` inside of some calls defines its label. -/
def definedName (scope : LabelScope) (x : Text) (calls : List Nat) : Option Text := do
  let labp ← macrolabp calls
  (validateLabel { scope with macrolabp := labp } true false ('.' :: x)).1

/-- The defined entry under the name of a label line. -/
def definedEntry (table : Text → Option LabelEntry) (name : Option Text) : Option LabelEntry :=
  name.bind fun name => (table name).filter (·.page ≠ labelPageUndefined)

/-- What `.x` means inside of some calls: the label of the innermost call that defines it, or else the
one under the main label outside of macros. -/
def resolveLocal (scope : LabelScope) (table : Text → Option LabelEntry) (x : Text)
    (calls : List Nat) : Option LabelEntry :=
  calls.tails.findSome? fun calls => definedEntry table (definedName scope x calls)

/-- The answer of a look-up that finds this entry. -/
def LabelUse.ofEntry : Option LabelEntry → LabelUse
  | some entry => .found entry
  | none => .missing

theorem LabelUse.ofEntry_injective {o o' : Option LabelEntry}
    (h : LabelUse.ofEntry o = LabelUse.ofEntry o') : o = o' := by
  cases o with
  | none =>
    cases o' with
    | none => rfl
    | some entry' => cases h
  | some entry =>
    cases o' with
    | none => cases h
    | some entry' => exact congrArg some (LabelUse.found.inj h)

/-- The reference `.x` inside of some calls finds this label, in every label table. -/
def ResolvesLocal (scope : LabelScope) (x rest : Text) (calls : List Nat) : Prop :=
  ∃ labp, macrolabp calls = some labp ∧ ∀ env : LabelEnv,
    env.scope = { scope with macrolabp := labp } →
      (getLabel env ('.' :: x ++ rest)).val =
          some (.ofEntry (resolveLocal scope env.table x calls)) ∧
        (getLabel env ('.' :: x ++ rest)).rest = rest

/-! ### The prefix -/

theorem callNumbers_cons {macronummer : Nat} {calls : List Nat} (h : calls ≠ []) :
    callNumbers (macronummer :: calls)
      = Nat.toDigits 10 macronummer ++ '.' :: callNumbers calls := by
  obtain ⟨call, calls, rfl⟩ := List.exists_cons_of_ne_nil h
  rfl

theorem emitLabel_none (macronummer : Nat) : emitLabel macronummer none
    = if (callNumbers [macronummer]).length < lineMax then some (callNumbers [macronummer])
      else none := by
  unfold emitLabel
  simp only [List.append_nil]
  rfl

/-- A prefix that fits is not cut. -/
theorem emitLabel_some (macronummer : Nat) {calls : List Nat} (hcalls : calls ≠ [])
    (hfits : (callNumbers calls).length < lineMax) :
    emitLabel macronummer (some (callNumbers calls))
      = if (callNumbers (macronummer :: calls)).length < lineMax then
          some (callNumbers (macronummer :: calls))
        else none := by
  have htake : (callNumbers calls).take (lineMax - 1) = callNumbers calls :=
    List.take_of_length_le (Nat.le_sub_one_of_lt hfits)
  rw [emitLabel, callNumbers_cons hcalls]
  simp only [htake]

/-- As long as the buffer is long enough, the prefix has all the numbers. -/
theorem macrolabp_eq (macronummer : Nat) (calls : List Nat) :
    macrolabp (macronummer :: calls)
      = if (callNumbers (macronummer :: calls)).length < lineMax then
          some (some (callNumbers (macronummer :: calls)))
        else none := by
  -- by induction on the calls around the innermost one, each of which makes the prefix longer
  induction calls generalizing macronummer with
  | nil =>
    show (emitLabel macronummer none).bind (fun labnr => some (some labnr)) = _
    rw [emitLabel_none]
    split_ifs
    · rfl
    · rfl
  | cons call calls ih =>
    rw [macrolabp, ih]
    have hlonger : (callNumbers (call :: calls)).length
        < (callNumbers (macronummer :: call :: calls)).length := by
      rw [callNumbers_cons (List.cons_ne_nil _ _), List.length_append, List.length_cons]
      omega
    by_cases hfits : (callNumbers (call :: calls)).length < lineMax
    · rw [if_pos hfits]
      show (emitLabel macronummer (some (callNumbers (call :: calls)))).bind
        (fun labnr => some (some labnr)) = _
      rw [emitLabel_some macronummer (List.cons_ne_nil _ _) hfits]
      split_ifs
      · rfl
      · rfl
    · rw [if_neg hfits, if_neg (by omega)]
      rfl

/-! ### Names -/

/-- The text `x` of a label `.x`, with the text `rest` behind it. -/
structure LocalName (x rest : Text) : Prop where
  start : isLabelHead (cur x) = true
  chars : ∀ c ∈ x, islabchar c = true
  length : x.length ≤ labMax
  behind : islabchar (cur rest) = false
  notArray : cur rest ≠ '['

section

variable {scope : LabelScope} {x rest : Text}

/-- The full name of a local label. -/
def localName (scope : LabelScope) (x : Text) : Text :=
  match scope.macrolabp with
  | some labp => labp ++ '>' :: x
  | none => scope.vorlab ++ '.' :: x

theorem takeWhile_localName (h : LocalName x rest) :
    (x ++ rest).takeWhile islabchar = x ∧ (x ++ rest).dropWhile islabchar = rest := by
  have hbehind : rest.takeWhile islabchar = [] ∧ rest.dropWhile islabchar = rest := by
    cases rest with
    | nil => exact ⟨rfl, rfl⟩
    | cons c rest =>
      have hc : islabchar c = false := h.behind
      exact ⟨List.takeWhile_cons_of_neg (by rw [hc]; decide),
        List.dropWhile_cons_of_neg (by rw [hc]; decide)⟩
  rw [List.takeWhile_append_of_pos h.chars, List.dropWhile_append_of_pos h.chars, hbehind.1,
    hbehind.2, List.append_nil]
  exact ⟨rfl, rfl⟩

/-- `ValidateLabel` for `.x`, in a label line (where nothing may follow) and in an expression. -/
theorem validateLabel_local (scope : LabelScope) (setNameSpace ignoreCharAfter : Bool)
    (h : LocalName x rest)
    (hafter : rest = [] ∨ ignoreCharAfter = true) :
    validateLabel scope setNameSpace ignoreCharAfter ('.' :: x ++ rest)
      = (some (localName scope x), []) := by
  obtain ⟨htake, hdrop⟩ := takeWhile_localName h
  have hstart : isLabelStart ('.' :: (x ++ rest)) = true := by
    cases x with
    | nil => exact absurd h.start (by decide)
    | cons c x => exact h.start
  have hbehind : ¬rest = [] → ignoreCharAfter = true := fun hne => hafter.resolve_left hne
  have hlong : ¬labMax < x.length := Nat.not_lt.mpr h.length
  have htakeMax : x.take labMax = x := List.take_of_length_le h.length
  rw [List.cons_append]
  generalize x ++ rest = naam at *
  unfold validateLabel localName
  cases hmacro : scope.macrolabp with
  | none =>
    simp [white, hstart, htake, hdrop, h.notArray, hlong, htakeMax]
    exact hbehind
  | some labp =>
    simp [white, hstart, htake, hdrop, h.notArray, hlong, htakeMax]
    exact hbehind

/-- The names under which the calls define `.x`, the innermost one first. -/
def nestedNames (x : Text) : List Nat → List Text
  | [] => []
  | macronummer :: calls => (callNumbers (macronummer :: calls) ++ '>' :: x) :: nestedNames x calls

theorem definedName_inside (hx : LocalName x []) {macronummer : Nat} {calls : List Nat}
    (hfits : (callNumbers (macronummer :: calls)).length < lineMax) :
    definedName scope x (macronummer :: calls)
      = some (callNumbers (macronummer :: calls) ++ '>' :: x) := by
  have hvalid := validateLabel_local
    { scope with macrolabp := some (callNumbers (macronummer :: calls)) } true false hx (Or.inl rfl)
  rw [List.append_nil] at hvalid
  rw [definedName, macrolabp_eq, if_pos hfits]
  show (validateLabel _ true false ('.' :: x)).1 = _
  rw [hvalid]
  rfl

theorem definedName_outside (hx : LocalName x []) :
    definedName scope x [] = some (scope.vorlab ++ '.' :: x) := by
  have hvalid := validateLabel_local { scope with macrolabp := none } true false hx (Or.inl rfl)
  rw [List.append_nil] at hvalid
  show (validateLabel _ true false ('.' :: x)).1 = _
  rw [hvalid]
  rfl

/-- The names that a reference may mean. -/
theorem resolveLocal_eq (hx : LocalName x []) (table : Text → Option LabelEntry) {calls : List Nat}
    (hfits : (callNumbers calls).length < lineMax) :
    resolveLocal scope table x calls
      = (nestedNames x calls ++ [scope.vorlab ++ '.' :: x]).findSome?
          fun name => (table name).filter (·.page ≠ labelPageUndefined) := by
  -- by induction on the calls: the names of the innermost one come first
  induction calls with
  | nil =>
    show ([[]].findSome? fun calls => definedEntry table (definedName scope x calls)) = _
    rw [List.findSome?_cons, definedName_outside hx, nestedNames, List.nil_append,
      List.findSome?_cons]
    rfl
  | cons macronummer calls ih =>
    have hshorter : (callNumbers calls).length < lineMax := by
      cases calls with
      | nil => decide
      | cons call calls =>
        rw [callNumbers_cons (List.cons_ne_nil _ _), List.length_append, List.length_cons] at hfits
        omega
    have hrest := ih hshorter
    rw [resolveLocal] at hrest ⊢
    rw [List.tails_cons, List.findSome?_cons, definedName_inside hx hfits, hrest, nestedNames,
      List.cons_append, List.findSome?_cons]
    rfl

/-! ### The search -/

/-- The search skips a number. -/
theorem outerMacroNames_digits (vorlab : Text) (macronummer : Nat) (p : Text) :
    outerMacroNames vorlab (Nat.toDigits 10 macronummer ++ p) = outerMacroNames vorlab p := by
  -- a number has none of the characters that the search stops at
  have hdigits : ∀ c ∈ Nat.toDigits 10 macronummer, c ≠ '>' ∧ c ≠ '.' := by
    intro c hc
    have hdigit := Nat.isDigit_of_mem_toDigits (by decide) (by decide) hc
    constructor
    · rintro rfl
      exact absurd hdigit (by decide)
    · rintro rfl
      exact absurd hdigit (by decide)
  generalize Nat.toDigits 10 macronummer = digits at *
  induction digits with
  | nil => rfl
  | cons c digits ih =>
    obtain ⟨hgt, hdot⟩ := hdigits c (List.mem_cons_self ..)
    rw [List.cons_append, outerMacroNames, if_neg hgt, if_neg hdot]
    exact ih fun c hc => hdigits c (List.mem_cons_of_mem _ hc)

/-- Behind the prefix of a call, the search goes through the calls around it, and ends with the name
that `STRCAT` builds. -/
theorem outerMacroNames_nested (vorlab x : Text) (macronummer : Nat) (calls : List Nat) :
    outerMacroNames vorlab (callNumbers (macronummer :: calls) ++ '>' :: x)
      = nestedNames x calls ++
          [vorlab.take (labMax - 1) ++ ['.'] ++ x.take (labMax - 1)] := by
  induction calls generalizing macronummer with
  | nil =>
    rw [callNumbers, outerMacroNames_digits, outerMacroNames, if_pos rfl]
    rfl
  | cons call calls ih =>
    rw [callNumbers_cons (List.cons_ne_nil _ _), List.append_assoc, outerMacroNames_digits,
      List.cons_append, outerMacroNames, if_neg (by decide), if_pos rfl, ih, nestedNames,
      List.cons_append]

/-- What a look-up of a valid name gives. -/
theorem getLabel_of_valid {env : LabelEnv} {p fullName : Text} {reports : List Event}
    (h : validateLabel env.scope false true p = (some fullName, reports)) :
    (getLabel env p).val = some (.ofEntry ((searchNames env.scope p fullName).findSome?
        fun name => (env.table name).filter (·.page ≠ labelPageUndefined))) ∧
      (getLabel env p).rest = p.dropWhile islabchar := by
  obtain ⟨findName, hsearch⟩ := searchLabel_of_valid h
  have hentry : (firstDefined env.table (searchNames env.scope p fullName) none).filter
      (·.page ≠ labelPageUndefined) = _ := firstDefined_filter _ rfl
  rw [getLabel, bind_some hsearch]
  dsimp only
  rw [hentry]
  rcases (searchNames env.scope p fullName).findSome? _ with _ | entry
  · exact ⟨rfl, rfl⟩
  · exact ⟨rfl, rfl⟩

/-- The names under which a reference inside of calls is looked up. -/
theorem searchNames_nested (labp : Text) (p fullName : Text) :
    searchNames { scope with macrolabp := some labp } ('.' :: p) fullName
      = fullName :: outerMacroNames scope.vorlab fullName := rfl

/-! ### What is found -/

/-- The two cuts of `STRCAT` change a name exactly when one of its parts is too long. -/
theorem cut_eq_iff (vorlab x : Text) :
    vorlab.take (labMax - 1) ++ ['.'] ++ x.take (labMax - 1) = vorlab ++ '.' :: x ↔
      vorlab.length < labMax ∧ x.length < labMax := by
  constructor
  · intro heq
    have hlength := congrArg List.length heq
    simp only [List.length_append, List.length_take, List.length_cons, List.length_nil] at hlength
    have hmax : 0 < labMax := by decide
    omega
  · rintro ⟨hvorlab, hx⟩
    rw [List.take_of_length_le (Nat.le_sub_one_of_lt hvorlab),
      List.take_of_length_le (Nat.le_sub_one_of_lt hx), List.append_assoc]
    rfl

/-- No name of a macro label is that of a label under a main label. -/
theorem not_mem_nestedNames {name x : Text} (hname : ∀ c ∈ name, c ≠ '>') (calls : List Nat) :
    name ∉ nestedNames x calls := by
  induction calls with
  | nil => exact List.not_mem_nil
  | cons macronummer calls ih =>
    rw [nestedNames, List.mem_cons, not_or]
    refine ⟨?_, ih⟩
    rintro rfl
    exact hname '>' (List.mem_append_right _ (List.mem_cons_self ..)) rfl

/-- Two look-ups that differ in the last name only agree for every table exactly when that name is the
same. -/
theorem forall_findSome_append_iff {names : List Text} {cut name : Text} (hname : name ∉ names) :
    (∀ table : Text → Option LabelEntry,
        (names ++ [cut]).findSome? (fun name => (table name).filter (·.page ≠ labelPageUndefined))
          = (names ++ [name]).findSome?
              fun name => (table name).filter (·.page ≠ labelPageUndefined)) ↔
      cut = name := by
  constructor
  · intro hall
    by_contra hne
    -- a table that knows only the second name
    have hnone : (names ++ [cut]).findSome? (fun key => Option.filter (·.page ≠ labelPageUndefined)
        (if key = name then some (⟨0, 0, 0, 0, 0, .off⟩ : LabelEntry) else none)) = none := by
      rw [List.findSome?_eq_none_iff]
      intro key hkey
      have hkeyNe : key ≠ name := by
        rcases List.mem_append.mp hkey with hmem | hmem
        · rintro rfl
          exact hname hmem
        · rwa [List.mem_singleton.mp hmem]
      rw [if_neg hkeyNe]
      rfl
    have hsome := hall fun key => if key = name then some ⟨0, 0, 0, 0, 0, .off⟩ else none
    rw [hnone, eq_comm, List.findSome?_eq_none_iff] at hsome
    have hlast := hsome name (List.mem_append_right _ (List.mem_singleton_self name))
    rw [if_pos rfl] at hlast
    revert hlast
    decide
  · rintro rfl table
    rfl

/-- The look-up of `.x` inside of calls. -/
theorem getLabel_nested (hx : LocalName x rest) (macronummer : Nat) (calls : List Nat)
    {env : LabelEnv}
    (henv : env.scope =
      { scope with macrolabp := some (callNumbers (macronummer :: calls)) }) :
    (getLabel env ('.' :: x ++ rest)).val = some (.ofEntry
        ((nestedNames x (macronummer :: calls) ++
          [scope.vorlab.take (labMax - 1) ++ ['.'] ++ x.take (labMax - 1)]).findSome?
            fun name => (env.table name).filter (·.page ≠ labelPageUndefined))) ∧
      (getLabel env ('.' :: x ++ rest)).rest = rest := by
  have hvalid := validateLabel_local env.scope false true hx (Or.inr rfl)
  have hname : localName env.scope x = callNumbers (macronummer :: calls) ++ '>' :: x := by
    rw [henv]
    rfl
  have hnames : searchNames env.scope ('.' :: x ++ rest) (localName env.scope x)
      = nestedNames x (macronummer :: calls) ++
          [scope.vorlab.take (labMax - 1) ++ ['.'] ++ x.take (labMax - 1)] := by
    rw [hname, henv, List.cons_append, searchNames_nested, outerMacroNames_nested]
    rfl
  have hrest : ('.' :: x ++ rest).dropWhile islabchar = rest := by
    rw [List.cons_append, List.dropWhile_cons_of_pos (by decide)]
    exact (takeWhile_localName hx).2
  have hget := getLabel_of_valid hvalid
  rw [hnames, hrest] at hget
  exact hget

/-- A reference inside of macro calls finds the right label, in every label table, exactly when the
main label and the local name are shorter than `LABMAX`, and the prefix fits its buffer. -/
theorem localLabel_resolves_iff (hx : LocalName x rest) (hvorlab : ∀ c ∈ scope.vorlab, islabchar c)
    (macronummer : Nat) (calls : List Nat) :
    ResolvesLocal scope x rest (macronummer :: calls) ↔
      (callNumbers (macronummer :: calls)).length < lineMax ∧
        scope.vorlab.length < labMax ∧ x.length < labMax := by
  have hdefined : LocalName x [] := ⟨hx.start, hx.chars, hx.length, by decide, by decide⟩
  -- the name outside of macros is none of the nested ones, which have a `>`
  have hchars : ∀ c ∈ scope.vorlab ++ '.' :: x, c ≠ '>' := by
    intro c hc
    rintro rfl
    rcases List.mem_append.mp hc with hmem | hmem
    · exact absurd (hvorlab _ hmem) (by decide)
    · rcases List.mem_cons.mp hmem with hdot | hmem
      · exact absurd hdot (by decide)
      · exact absurd (hx.chars _ hmem) (by decide)
  unfold ResolvesLocal
  rw [macrolabp_eq]
  by_cases hfits : (callNumbers (macronummer :: calls)).length < lineMax
  · rw [if_pos hfits, ← cut_eq_iff, ← forall_findSome_append_iff (not_mem_nestedNames hchars _)]
    constructor
    · rintro ⟨labp, hlabp, hall⟩
      obtain rfl := Option.some.inj hlabp
      refine ⟨hfits, fun table => ?_⟩
      -- any table may be the one of the assembler
      let env : LabelEnv :=
        ⟨table, { scope with macrolabp := some (callNumbers (macronummer :: calls)) }, false, [], []⟩
      have hfound := (hall env rfl).1
      rw [(getLabel_nested hx macronummer calls rfl).1, resolveLocal_eq hdefined _ hfits] at hfound
      exact LabelUse.ofEntry_injective (Option.some.inj hfound)
    · rintro ⟨-, hall⟩
      refine ⟨_, rfl, fun env henv => ?_⟩
      obtain ⟨hval, hrest⟩ := getLabel_nested hx macronummer calls henv
      rw [hval, hall env.table, resolveLocal_eq hdefined _ hfits]
      exact ⟨rfl, hrest⟩
  · rw [if_neg hfits]
    constructor
    · rintro ⟨labp, hlabp, -⟩
      cases hlabp
    · exact fun hcondition => absurd hcondition.1 hfits

end

/-- Two nested calls under a short main label. -/
theorem localLabel_resolves_main :
    ResolvesLocal ⟨[], "main".toList, none⟩ "loop".toList ", 1".toList [7, 3] ↔
      (callNumbers [7, 3]).length < lineMax ∧ "main".toList.length < labMax ∧
        "loop".toList.length < labMax :=
  localLabel_resolves_iff
    ⟨by decide, List.all_eq_true.mp (by decide), by decide, by decide, by decide⟩
    (List.all_eq_true.mp (by decide)) 7 [3]

/-- A main label of 64 characters, which the assembler accepts. -/
def exampleLongMain : LabelScope := ⟨[], List.replicate 64 'm', none⟩

/-- Under it `.x` is defined outside of macros, and a macro does not find it. -/
theorem not_resolvesLocal_exampleLongMain :
    ¬∀ rest : Text, LocalName "x".toList rest → (callNumbers [0]).length < lineMax →
      ResolvesLocal exampleLongMain "x".toList rest [0] := by
  intro hall
  have hx : LocalName "x".toList [] :=
    ⟨by decide, List.all_eq_true.mp (by decide), by decide, by decide, by decide⟩
  obtain ⟨labp, hlabp, hresolves⟩ := hall [] hx (by decide)
  obtain rfl : some (callNumbers [0]) = labp := Option.some.inj hlabp
  let table : Text → Option LabelEntry := fun name =>
    if name = exampleLongMain.vorlab ++ ".x".toList then some ⟨0x8000, 0, 0, 0, 0, .off⟩ else none
  have hfound := (hresolves
    ⟨table, { exampleLongMain with macrolabp := some (callNumbers [0]) }, false, [], []⟩ rfl).1
  revert hfound
  decide

end Sjasmplus
