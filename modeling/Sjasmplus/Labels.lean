import Sjasmplus.Literal

/-!
# Labels as expressions see them (`tables.cpp`)

`validateLabel` builds the full name of a label from its text and the current scope, and
`searchLabel` looks it up: inside macros in the instances of the enclosing macro calls too, and in a
module without the module name too.  A look-up that finds no defined label reports so and asks for a
placeholder; a placeholder answers later look-ups in the same way as no entry at all.
-/

namespace Sjasmplus

open Parsing ParseFn

/-- `LABMAX`. -/
def labMax : Nat := 64

/-- `page_t`. -/
abbrev Page := Int

/-- `LABEL_PAGE_UNDEFINED`. -/
def labelPageUndefined : Page := -1

namespace Relocation

/-- `Relocation::EType`. -/
inductive EType
  | off | regular | high
deriving DecidableEq, Repr

/-- The number that the enumeration stands for. -/
def EType.toNat : EType → Nat
  | .off => 0
  | .regular => 1
  | .high => 2

end Relocation

/-- `SLabelTableEntry`, without the traits and the bookkeeping of uses. -/
structure LabelEntry where
  value : Aint
  phValue : Aint
  size : Aint
  page : Page
  phPage : Page
  isRelocatable : Relocation.EType
deriving DecidableEq, Repr

/-- `TemporaryLabel`. -/
structure TemporaryLabel where
  nummer : Aint
  value : Aint
  isRelocatable : Bool
deriving DecidableEq, Repr

/-- What the full name of a label depends on: `ModuleName`, `vorlab` and `macrolabp`. -/
structure LabelScope where
  moduleName : Text
  vorlab : Text
  macrolabp : Option Text

/-- `ValidateLabel`: the full name of the label at `naam`.  The new main label, which a definition
sets, is left to the caller. -/
def validateLabel (scope : LabelScope) (setNameSpace ignoreCharAfter : Bool) (naam : Text) :
    Reported (Option Text) :=
  if cur naam = '\x00' ∨ white (cur naam) then
    (none, [.error "Invalid (blank) labelname" none .pass3])
  else
    let setNameSpace := setNameSpace && cur naam ≠ '!'
    let naam := if cur naam = '!' then naam.tail else naam
    let escMacro := setNameSpace && scope.macrolabp.isSome && cur naam = '@' && cur naam.tail = '.'
    let naam := if escMacro then naam.tail else naam
    let global : Bool := cur naam = '@'
    let isLocal : Bool := cur naam = '.'
    let name := if global || isLocal then naam.tail else naam
    if !isLabelStart naam then
      (none, [.error "Invalid character at start of labelname" (some name) .suppress])
    else
      let inMacro := if !escMacro && isLocal then scope.macrolabp else none
      let inModule := inMacro.isNone && !global && !isLocal && scope.moduleName ≠ []
      let np := name.dropWhile islabchar
      if cur np = '[' then (none, [])
      else if np ≠ [] && !ignoreCharAfter then
        (none, [.error "Invalid character after labelname" (some name) .suppress])
      else
        let own := name.takeWhile islabchar
        let label := (if inModule then scope.moduleName ++ ['.'] else []) ++
          (match inMacro with
            | some macrolabp => macrolabp ++ ['>']
            | none => if isLocal then scope.vorlab ++ ['.'] else []) ++ own.take labMax
        (some label,
          if labMax < own.length then [.error "Label too long" (some name) .ifFirst] else [])

/-- The names tried for a local label inside a macro: one for each enclosing macro call, and last
the label under the main label outside macros (`STRCAT` cuts both parts). -/
def outerMacroNames (vorlab : Text) : Text → List Text
  | [] => []
  | c :: t =>
    if c = '>' then [vorlab.take (labMax - 1) ++ ['.'] ++ t.take (labMax - 1)]
    else if c = '.' then t :: outerMacroNames vorlab t
    else outerMacroNames vorlab t

/-- The names that `SearchLabel` tries one after the other for the full name of the label at `p`. -/
def searchNames (scope : LabelScope) (p fullName : Text) : List Text :=
  let isLocal : Bool := cur p = '.'
  if isLocal && scope.macrolabp.isSome then fullName :: outerMacroNames scope.vorlab fullName
  else if cur p ≠ '@' && !isLocal && scope.moduleName ≠ [] then
    [fullName, fullName.drop (scope.moduleName.length + 1)]
  else [fullName]

/-- The first entry that is defined, or else the last one that is only used. -/
def firstDefined (table : Text → Option LabelEntry) : List Text → Option LabelEntry → Option LabelEntry
  | [], undefinedLabelEntry => undefinedLabelEntry
  | name :: names, undefinedLabelEntry =>
    match table name with
    | none => firstDefined table names undefinedLabelEntry
    | some entry =>
      if entry.page ≠ labelPageUndefined then some entry else firstDefined table names (some entry)

/-- The first entry that is defined, when there is one. -/
theorem firstDefined_filter {table : Text → Option LabelEntry} (names : List Text)
    {o : Option LabelEntry} (ho : o.filter (·.page ≠ labelPageUndefined) = none) :
    (firstDefined table names o).filter (·.page ≠ labelPageUndefined)
      = names.findSome? fun name => (table name).filter (·.page ≠ labelPageUndefined) := by
  -- by induction on the names: an undefined entry is passed over, as one that is not there
  induction names generalizing o with
  | nil => exact ho
  | cons name names ih =>
    rw [firstDefined, List.findSome?_cons]
    rcases table name with _ | entry
    · exact ih ho
    · dsimp only
      by_cases h : entry.page ≠ labelPageUndefined
      · have hfilter : (some entry).filter (·.page ≠ labelPageUndefined) = some entry := by
          rw [Option.filter_some, if_pos (decide_eq_true h)]
        rw [if_pos h, hfilter]
      · have hfilter : (some entry).filter (·.page ≠ labelPageUndefined) = none := by
          rw [Option.filter_some, if_neg (by rwa [decide_eq_true_eq])]
        rw [if_neg h, hfilter]
        exact ih hfilter

/-- The result of `GetLabel`. -/
inductive LabelUse
  | invalidName
  | missing
  | found (entry : LabelEntry)
deriving DecidableEq, Repr

/-- What a label look-up reads: the table, the scope, and whether it happens while defines are
substituted. -/
structure LabelEnv where
  table : Text → Option LabelEntry
  scope : LabelScope
  isSubstituting : Bool
  /-- `TemporaryLabelTable.labels`, from the previous pass. -/
  labels : List TemporaryLabel
  /-- `TemporaryLabelTable.nextPassLabels`, from this pass. -/
  nextPassLabels : List TemporaryLabel

/-- `SearchLabel`: the entry and the name to report, and the text behind the label. -/
def searchLabel (env : LabelEnv) : Reader (Option (Option LabelEntry × Text)) := do
  let p ← peek
  let (fullName, reports) := validateLabel env.scope false true p
  report reports
  match fullName with
  | none => pure none
  | some fullName =>
    scan fun p => ((), p.dropWhile islabchar)
    let names := searchNames env.scope p fullName
    -- `temp` holds the last name tried when that is the one outside macros
    let findName := if cur p = '.' && env.scope.macrolabp.isSome then names.getLastD fullName
      else fullName
    pure (some (firstDefined env.table names none, findName))

/-- `GetLabel`. -/
def getLabel (env : LabelEnv) : Reader LabelUse := do
  match ← searchLabel env with
  | none => pure .invalidName
  | some (entry, findName) =>
    let defined := entry.filter (·.page ≠ labelPageUndefined)
    match defined with
    | some entry => pure (.found entry)
    | none =>
      report (.labelNotFound findName (!env.isSubstituting && entry.isNone) ::
        if env.isSubstituting then [] else [.error "Label not found" (some findName) .ifFirst])
      pure .missing

/-- The defined entry of the label at the start of the text. -/
def labelEntry (env : LabelEnv) (p : Text) : Option LabelEntry :=
  (validateLabel env.scope false true p).1.bind fun fullName =>
    (firstDefined env.table (searchNames env.scope p fullName) none).filter
      (·.page ≠ labelPageUndefined)

/-- A name that is valid is looked up, and the cursor moves behind the label. -/
theorem searchLabel_of_valid {env : LabelEnv} {p fullName : Text} {reports : List Event}
    (h : validateLabel env.scope false true p = (some fullName, reports)) :
    ∃ findName, searchLabel env p = ⟨some (some (firstDefined env.table
      (searchNames env.scope p fullName) none, findName)), p.dropWhile islabchar, reports⟩ := by
  refine ⟨if cur p = '.' && env.scope.macrolabp.isSome then
    (searchNames env.scope p fullName).getLastD fullName else fullName, ?_⟩
  rw [searchLabel, bind_silent (peek_apply p), h]
  show (report reports >>= _) p = _
  rw [bind_some (report_apply reports p)]
  exact Outcome.ext rfl rfl (List.append_nil reports)

/-- A look-up of a defined label returns its entry and moves behind the label. -/
theorem getLabel_of_labelEntry {env : LabelEnv} {p : Text} {entry : LabelEntry}
    (h : labelEntry env p = some entry) :
    ∃ l, getLabel env p = ⟨some (.found entry), p.dropWhile islabchar, l⟩ := by
  rcases hv : validateLabel env.scope false true p with ⟨full, reports⟩
  rw [labelEntry, hv] at h
  obtain ⟨fullName, hfull, hfound⟩ := Option.bind_eq_some_iff.mp h
  obtain rfl : full = some fullName := hfull
  obtain ⟨findName, hsearch⟩ := searchLabel_of_valid hv
  refine ⟨reports, ?_⟩
  rw [getLabel, bind_some hsearch]
  simp only [hfound]
  rw [pure_apply, Outcome.after_mk, List.append_nil]

/-- A look-up that finds no defined label has an invalid name, or it calls `Error`. -/
theorem getLabel_of_labelEntry_none {env : LabelEnv} {p : Text} (h : labelEntry env p = none)
    (hsubst : env.isSubstituting = false) :
    (getLabel env p).val = some .invalidName ∨
      0 < (getLabel env p).log.countP Event.isErrorCall := by
  rcases hv : validateLabel env.scope false true p with ⟨_ | fullName, reports⟩
  · left
    have hsearch : searchLabel env p = ⟨some none, p, reports⟩ := by
      rw [searchLabel, bind_silent (peek_apply p), hv]
      show (report reports >>= _) p = _
      rw [bind_some (report_apply reports p)]
      exact Outcome.ext rfl rfl (List.append_nil reports)
    rw [getLabel, bind_some hsearch]
    rfl
  -- a valid name that is not found is an error
  · right
    obtain ⟨findName, hsearch⟩ := searchLabel_of_valid hv
    have hnone : (firstDefined env.table (searchNames env.scope p fullName) none).filter
        (·.page ≠ labelPageUndefined) = none := by
      rw [labelEntry, hv] at h
      exact h
    rw [getLabel, bind_some hsearch]
    simp only [hnone, hsubst]
    refine List.countP_pos_iff.mpr ⟨.error "Label not found" (some findName) .ifFirst, ?_, rfl⟩
    exact List.mem_append_right _ (List.mem_cons_of_mem _ List.mem_cons_self)

/-- `seekForward`: the first label of that number in the previous pass behind those that are
defined in this pass already. -/
def seekForward (env : LabelEnv) (labelNumber : Aint) : Option TemporaryLabel :=
  (env.labels.drop env.nextPassLabels.length).find? (·.nummer = labelNumber)

/-- `seekBack`: the last label of that number in this pass. -/
def seekBack (env : LabelEnv) (labelNumber : Aint) : Option TemporaryLabel :=
  env.nextPassLabels.reverse.find? (·.nummer = labelNumber)

end Sjasmplus
