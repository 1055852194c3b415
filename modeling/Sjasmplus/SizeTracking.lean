import Sjasmplus.Lib.Levels
import Sjasmplus.Expression

/-!
# Sizes of labels (`TrackForSize`, `SizeBoundary` of `tables.cpp`)

A label that `SIZEOF` asks for is put on a stack where it is defined, with the level of the source
there: two more for every file, macro or module around it, and one more for a local label.  The places
that are a boundary for its level take it off the stack and set its size, the distance from the address
of the label to the one that is reached.

`SourceEvent` lists what a pass does to the stack, the labels and the addresses, in any order.  The
results are about whole passes:

* the stack holds exactly the labels without a later boundary for their level, on strictly increasing
  levels, and a boundary sets the sizes of those that it takes off, which then stay in the table
  (`tracksSizes_pass`);
* `ORG` in a displaced block is no boundary (`not_tracksSizes_displacedOrg`).
-/

namespace Sjasmplus

/-! ### Labels -/

/-- The traits of a label that tracking reads or `Insert` keeps. -/
structure SizeTraits where
  isLocal : Bool := false
  isEqu : Bool := false
  isDefl : Bool := false
  isSmc : Bool := false
  isUndefined : Bool := false
  /-- `LABEL_HAS_SIZE`: `SIZEOF` was used. -/
  hasSize : Bool := false
deriving DecidableEq, Repr

/-- `SLabelTableEntry`, without what the page and the relocation class of the label need. -/
structure SizedLabel where
  value : Aint
  phValue : Aint
  size : Aint
  /-- `LABEL_PAGE_UNDEFINED != page`. -/
  isDefined : Bool
  traits : SizeTraits
  updatePass : Nat
deriving DecidableEq, Repr

/-- `SSizeofStackItem`. -/
structure SizeofStackItem where
  label : Text
  srcLevel : Int
deriving DecidableEq, Repr

/-- `CLabelTable::BoundaryLevel`. -/
inductive BoundaryLevel
  | flow | all | main | locals
deriving DecidableEq, Repr

/-- The globals that tracking works on. -/
structure SizeofState where
  pass : Nat
  symbols : Text → Option SizedLabel
  /-- `sizeofStack`, its back first. -/
  sizeofStack : List SizeofStackItem
  sourceBlockLevel : Int
  moduleName : Text
  pseudoORG : DispMode
  curAddress : Aint
  adrdisp : Aint
  log : List Event
  /-- The assignments to the sizes of tracked labels up to now, which the program does not keep. -/
  sizes : List (Text × Aint)

namespace SizeofState

variable (s : SizeofState)

/-- The address where code is placed. -/
def phAddress : Aint := if s.pseudoORG ≠ .none then s.adrdisp else s.curAddress

def setSymbol (name : Text) (label : SizedLabel) : SizeofState :=
  { s with symbols := fun other => if other = name then some label else s.symbols other }

def warning (message : String) : SizeofState :=
  { s with log := s.log ++ [.warning message none .pass3] }

def error (message : String) (badValueMessage : Option Text) (type : EStatus) : SizeofState :=
  { s with log := s.log ++ [.error message badValueMessage type] }

/-- `CLabelTable::Insert`, none for a duplicate. -/
def insert (name : Text) (value : Aint) (traits : SizeTraits) : Option SizeofState :=
  match s.symbols name with
  | some label =>
    if label.traits.isDefl || !label.isDefined || label.updatePass < s.pass then
      some (s.setSymbol name
        { label with
          value := value
          phValue := s.phAddress
          isDefined := true
          traits := { traits with hasSize := label.traits.hasSize || traits.hasSize }
          updatePass := s.pass })
    else none
  | none =>
    some (s.setSymbol name
      { value := value
        phValue := s.phAddress
        size := 0
        isDefined := !traits.isUndefined
        traits := traits
        updatePass := s.pass })

/-- `CLabelTable::Update`. -/
def update (name : Text) (value : Aint) : SizeofState :=
  match s.symbols name with
  | none => s
  | some label => s.setSymbol name { label with value := value, phValue := s.phAddress }

/-- `CLabelTable::Find` with `onlyDefined`. -/
def find (name : Text) : Option SizedLabel := (s.symbols name).filter (·.isDefined)

/-- `GetLabelSize`, of the label that the search ends with: it gets the trait, or a placeholder with
it. -/
def getLabelSize (name : Text) : SizeofState :=
  match s.symbols name with
  | some label => s.setSymbol name { label with traits := { label.traits with hasSize := true } }
  | none => (s.insert name 0 { isUndefined := true, hasSize := true }).getD s

/-! ### The stack -/

/-- `CLabelTable::TrackForSize`. -/
def trackForSize (name : Text) (label : SizedLabel) : SizeofState :=
  if label.traits.isEqu || label.traits.isDefl || label.traits.isSmc then
    s.warning "SIZEOF(...) this type of label is invalid, size is zero"
  else
    -- local labels are +1 level
    let myLevel := s.sourceBlockLevel + label.traits.isLocal.toInt
    { s with sizeofStack := ⟨name, myLevel⟩ :: s.sizeofStack }

/-- The body of the loops of `SizeBoundary`: a label gets its size. -/
def setSize (item : SizeofStackItem) : SizeofState :=
  match s.symbols item.label with
  | none => s
  | some label =>
    let size := s.phAddress - label.phValue
    { s.setSymbol item.label { label with size := size } with
      sizes := s.sizes ++ [(item.label, size)] }

end SizeofState

/-- The loops of `SizeBoundary`: labels get their sizes and leave the stack as long as their levels
meet the condition. -/
def popSizes (closes : Int → Bool) : List SizeofStackItem → SizeofState → SizeofState
  | [], s => { s with sizeofStack := [] }
  | item :: items, s =>
    if closes item.srcLevel then popSizes closes items (s.setSize item)
    else { s with sizeofStack := item :: items }

namespace SizeofState

variable (s : SizeofState)

/-- `CLabelTable::SizeBoundary`. -/
def sizeBoundary (boundaryLevel : BoundaryLevel) : SizeofState :=
  if s.sizeofStack = [] then s
  else
    let s := if boundaryLevel = .flow then s.warning
        "SIZEOF-tracking does not work across wrap-around. Stopping count here."
      else s
    -- soft boundary, process all stacked labels with current sourceBlockLevel
    let myLevel := s.sourceBlockLevel + (decide (boundaryLevel = .locals)).toInt
    let s := popSizes (myLevel ≤ ·) s.sizeofStack s
    if s.sizeofStack = [] then s
    else if boundaryLevel ≠ .flow ∧ boundaryLevel ≠ .all then s
    else
      let s := if boundaryLevel = .all then s.warning
          ("There are labels in parent scope being SIZEOF-tracked at this point. " ++
            "Stopping their count here.")
        else s
      popSizes (fun _ => true) s.sizeofStack s

end SizeofState

/-! ### Labels of a line -/

/-- What `ParseLabel` has found out about a label when it comes to its value. -/
structure ParsedLabel where
  tp : Text
  isLocal : Bool
  isEQU : Bool
  isDEFL : Bool
  /-- The value of the expression, for `EQU` and `DEFL`. -/
  val : Aint
  smcOffset : Aint
deriving DecidableEq, Repr

def ParsedLabel.traits (l : ParsedLabel) : SizeTraits where
  isLocal := l.isLocal
  isEqu := l.isEQU
  isDefl := l.isDEFL
  isSmc := l.smcOffset ≠ 0

/-- A label with an instance of a structure: the labels that `emitlab` inserts for it. -/
structure StructInstance where
  /-- The label as it is written. -/
  iid : Text
  /-- The name that it gets, with its module, macro or main label. -/
  fullName : Text
  isLocal : Bool
  address : Aint
  noffset : Aint
  members : List (Text × Aint)
deriving DecidableEq, Repr

namespace SizeofState

variable (s : SizeofState)

/-- The value of the label. -/
def labelValue (l : ParsedLabel) : Aint :=
  (if l.isEQU || l.isDEFL then l.val else s.curAddress) + l.smcOffset

/-- The last pass only looks at the labels of the pass before, except for `DEFL`.  False when the label
is not there. -/
def checkLabel (l : ParsedLabel) (val : Aint) : SizeofState × Bool :=
  let s := if (s.find l.tp).isNone && l.isDEFL then (s.insert l.tp val l.traits).getD s else s
  if (s.find l.tp).isNone then (s.error "Label not found" (some l.tp) .pass3, false)
  else
    let s := if l.isDEFL then (s.insert l.tp val l.traits).getD s else s
    match s.symbols l.tp with
    | none => (s, true)
    | some label =>
      if val ≠ label.value then
        ((s.warning "Label has different value in pass 3").update l.tp val, true)
      else (s.setSymbol l.tp { label with updatePass := s.pass }, true)

/-- The label gets its value. -/
def storeLabel (l : ParsedLabel) : SizeofState × Bool :=
  let val := s.labelValue l
  if s.pass = lastPass then s.checkLabel l val
  else match s.insert l.tp val l.traits with
    | some t => (t, true)
    | none =>
      if s.pass = 2 then (s.update l.tp val, true)
      else (s.error "Duplicate label" (some l.tp) .early, true)

/-- The end of `ParseLabel`. -/
def defineLabel (l : ParsedLabel) : SizeofState :=
  let (s, stored) := s.storeLabel l
  if !stored then s
  else
    -- soft main/local boundary for current nesting level
    let s := s.sizeBoundary (if l.isLocal then .locals else .main)
    match s.find l.tp with
    | none => s
    | some label => if label.traits.hasSize then s.trackForSize l.tp label else s

/-- `InsertSingleStructLabel`, with the full name. -/
def insertSingleStructLabel (fullName : Text) (isLocal : Bool) (value : Aint) : SizeofState :=
  if s.pass = lastPass then
    match s.find fullName with
    | none => s.error "Label not found" (some fullName) .ifFirst
    | some label =>
      if value ≠ label.value then
        s.error "Label has different value in pass 2" (some fullName) .pass3
      else s
  else (s.insert fullName value { isLocal := isLocal }).getD
    (s.error "Duplicate label" (some fullName) .early)

/-- `CStructure::emitlab`.  The size of the structure goes to the label with the name that is written,
which is another label or none when the written one gets a longer name. -/
def emitlab (l : StructInstance) : SizeofState :=
  let s := s.insertSingleStructLabel l.fullName l.isLocal l.address
  let s := l.members.foldl (fun s member => s.insertSingleStructLabel
    (l.fullName ++ '.' :: member.1) l.isLocal (member.2 + l.address)) s
  match s.find l.iid with
  | none => s
  | some label => s.setSymbol l.iid { label with size := l.noffset }

/-! ### Files, macros and modules -/

/-- The name of the enclosing module: `ModuleName` up to its last dot. -/
def parentModule (moduleName : Text) : Text :=
  ((moduleName.reverse.dropWhile (· ≠ '.')).drop 1).reverse

/-- `dirMODULE`, with the name that `GetID` reads. -/
def dirMODULE (name : Option Text) : SizeofState :=
  let s := s.sizeBoundary .all
  match name with
  | none => s.error "[MODULE] Syntax error in <name>" none .suppress
  | some n =>
    if '.' ∈ n then s.error "[MODULE] Dots not allowed in <module_name>" (some n) .suppress
    else
      { s with
        sourceBlockLevel := s.sourceBlockLevel + 2
        moduleName := if s.moduleName = [] then n else s.moduleName ++ '.' :: n }

/-- `dirENDMODULE`. -/
def dirENDMODULE : SizeofState :=
  if s.moduleName = [] then s.error "ENDMODULE without MODULE" none .pass3
  else
    let s := s.sizeBoundary .main
    { s with
      sourceBlockLevel := s.sourceBlockLevel - 2
      moduleName := parentModule s.moduleName }

/-- What `OpenFile` and `CMacroTable::Emit` do before the lines of a file or a macro. -/
def openBlock : SizeofState := { s with sourceBlockLevel := s.sourceBlockLevel + 2 }

/-- What they do behind the lines. -/
def closeBlock : SizeofState :=
  let s := s.sizeBoundary .main
  { s with sourceBlockLevel := s.sourceBlockLevel - 2 }

/-- Every source file of the command line starts like this. -/
def resetLevel : SizeofState := sizeBoundary { s with sourceBlockLevel := -2 } .flow

/-- `dirORG`, with the value of its operand, missing when it has a syntax error. -/
def dirORG (val : Option Aint) : SizeofState :=
  let s := if s.pseudoORG = .none then s.sizeBoundary .all else s
  match val with
  | none => s.error "[ORG] Syntax error in <address>" none .suppress
  | some val => { s with curAddress := val }

/-- The address that `MMU` is given. -/
def mmuAddress (address : Aint) : SizeofState :=
  let s := s.sizeBoundary .all
  { s with curAddress := address }

end SizeofState

/-! ### Passes -/

/-- What a pass does to the labels, the stack and the addresses. -/
inductive SourceEvent
  | label (l : ParsedLabel)
  | structInstance (l : StructInstance)
  /-- `::`, or `:.:` for local labels. -/
  | tag (isLocal : Bool)
  /-- The operator `SIZEOF`. -/
  | sizeOf (name : Text)
  | org (val : Option Aint)
  | mmuAddress (address : Aint)
  /-- `CheckPage` finds that the address has left the address space in a displaced block, or a slot
  which takes the next page. -/
  | wrapAround
  /-- Everything else that moves the addresses: emitted code, `DISP`, `ENT`, a new device. -/
  | move (pseudoORG : DispMode) (curAddress adrdisp : Aint)
  | openFile
  | closeFile
  | openMacro
  | closeMacro
  | dirMODULE (name : Option Text)
  | dirENDMODULE
  /-- The next file of the command line. -/
  | startSource
deriving DecidableEq, Repr

open SizeofState in
/-- What an event does. -/
def SourceEvent.step (s : SizeofState) : SourceEvent → SizeofState
  | label l => s.defineLabel l
  | structInstance l => s.emitlab l
  | tag isLocal => s.sizeBoundary (if isLocal then .locals else .main)
  | sizeOf name => s.getLabelSize name
  | org val => s.dirORG val
  | mmuAddress address => s.mmuAddress address
  | wrapAround => s.sizeBoundary .flow
  | move pseudoORG curAddress adrdisp =>
    { s with pseudoORG := pseudoORG, curAddress := curAddress, adrdisp := adrdisp }
  | openFile | openMacro => s.openBlock
  | closeFile | closeMacro => s.closeBlock
  | dirMODULE name => s.dirMODULE name
  | dirENDMODULE => s.dirENDMODULE
  | startSource => s.resetLevel

/-- No start or end of a block. -/
def SourceEvent.isLine : SourceEvent → Bool
  | openFile | closeFile | openMacro | closeMacro | dirMODULE _ | dirENDMODULE | startSource => false
  | _ => true

/-- What the events do one after the other. -/
def SizeofState.run (s : SizeofState) (events : List SourceEvent) : SizeofState :=
  events.foldl SourceEvent.step s

/-- What has a level of its own: a file, an expanded macro or a module. -/
inductive SourceBlock
  | file
  | expansion
  | module (name : Text)

namespace SourceBlock

def start : SourceBlock → SourceEvent
  | file => .openFile
  | expansion => .openMacro
  | module name => .dirMODULE (some name)

def stop : SourceBlock → SourceEvent
  | file => .closeFile
  | expansion => .closeMacro
  | module _ => .dirENDMODULE

/-- The name of a module has no dots. -/
def Valid : SourceBlock → Prop
  | module name => name ≠ [] ∧ '.' ∉ name
  | _ => True

end SourceBlock

/-- Lines in which blocks are nested: every module ends in the file or the macro where it starts. -/
inductive Balanced : List SourceEvent → Prop
  | nil : Balanced []
  | line {e : SourceEvent} {events : List SourceEvent} (he : e.isLine = true) (h : Balanced events) :
    Balanced (e :: events)
  | block {b : SourceBlock} {body events : List SourceEvent} (hb : b.Valid) (hbody : Balanced body)
    (h : Balanced events) : Balanced (b.start :: (body ++ b.stop :: events))

/-- What a file of the command line adds to a pass. -/
def sourceEvents (body : List SourceEvent) : List SourceEvent :=
  .startSource :: .openFile :: (body ++ [.closeFile])

/-- A pass over the files of the command line. -/
def passEvents (sources : List (List SourceEvent)) : List SourceEvent := sources.flatMap sourceEvents

/-! ### What tracking is for -/

/-- A label whose size is asked for, where it is defined. -/
structure TrackedLabel where
  name : Text
  level : Int
  address : Aint
deriving DecidableEq, Repr

def TrackedLabel.item (l : TrackedLabel) : SizeofStackItem := ⟨l.name, l.level⟩

/-- The label that an event starts to track: one for an address that `SIZEOF` was used with. -/
def tracked (s : SizeofState) : SourceEvent → Option TrackedLabel
  | .label l =>
    if ((s.symbols l.tp).any fun label => label.traits.hasSize) && !l.isEQU && !l.isDEFL &&
        l.smcOffset = 0 then
      some ⟨l.tp, s.sourceBlockLevel + l.isLocal.toInt, s.phAddress⟩
    else none
  | _ => none

/-- The levels that an event is a boundary for, in a state. -/
abbrev Boundary := SizeofState → SourceEvent → Int → Bool

/-- The boundaries of a level: a label, a tag or the end of a block on it or further out, and what ends
every count. -/
def boundary : Boundary := fun s e level => match e with
  | .label l => s.sourceBlockLevel + l.isLocal.toInt ≤ level
  | .structInstance l => s.sourceBlockLevel + l.isLocal.toInt ≤ level
  | .tag isLocal => s.sourceBlockLevel + isLocal.toInt ≤ level
  | .closeFile | .closeMacro | .dirENDMODULE => s.sourceBlockLevel ≤ level
  | .org _ => s.pseudoORG = .none
  | .dirMODULE _ | .mmuAddress _ | .wrapAround | .startSource => true
  | _ => false

/-- The steps of a run, as what they close and open. -/
def turns (B : Boundary) : SizeofState → List SourceEvent → List (Levels.Turn Int TrackedLabel)
  | _, [] => []
  | s, e :: events => ⟨B s e, tracked s e⟩ :: turns B (e.step s) events

/-- The labels without a later boundary for their level, the latest first. -/
def openLabels (B : Boundary) (s : SizeofState) (events : List SourceEvent) : List TrackedLabel :=
  Levels.openAfter TrackedLabel.level (turns B s events)

/-- **The sizes of labels are tracked** in a pass. -/
structure TracksSizes (B : Boundary) (s : SizeofState) (sources : List (List SourceEvent)) : Prop where
  /-- The stack holds the labels without a later boundary for their level. -/
  stack : ∀ before, before <+: passEvents sources →
    (s.run before).sizeofStack = (openLabels B s before).map TrackedLabel.item
  /-- Their levels are strictly increasing, from the front of the stack to its back. -/
  increasing : ∀ before, before <+: passEvents sources →
    (s.run before).sizeofStack.Pairwise fun a b => b.srcLevel < a.srcLevel
  /-- A label keeps the address of its definition as its `ph_value`. -/
  phValue : ∀ before, before <+: passEvents sources → ∀ l ∈ openLabels B s before,
    ((s.run before).symbols l.name).map (·.phValue) = some l.address
  /-- A boundary sets the sizes of the labels that are open on its levels, and no others. -/
  sizes : ∀ before e, before ++ [e] <+: passEvents sources →
    (s.run (before ++ [e])).sizes = (s.run before).sizes ++
      ((openLabels B s before).filter fun l => B (s.run before) e l.level).map fun l =>
        (l.name, (s.run before).phAddress - l.address)
  /-- It sets them in the table of labels. -/
  sized : ∀ before e, before ++ [e] <+: passEvents sources → ∀ l ∈ openLabels B s before,
    B (s.run before) e l.level = true →
      ((s.run (before ++ [e])).symbols l.name).map (·.size)
        = some ((s.run before).phAddress - l.address)
  /-- A label keeps the size that it got last. -/
  kept : ∀ before, before <+: passEvents sources → ∀ name size,
    (s.run before).sizes.reverse.lookup name = some size →
      ((s.run before).symbols name).map (·.size) = some size
  /-- Nothing is left at the end of a file of the command line. -/
  empty : ∀ files, files <+: sources → (s.run (passEvents files)).sizeofStack = []

/-! ### Boundaries -/

namespace SizeofState

/-- The size that a boundary gives to a label, when the table has it. -/
def sizeOfItem (s : SizeofState) (item : SizeofStackItem) : Option (Text × Aint) :=
  (s.symbols item.label).map fun label => (item.label, s.phAddress - label.phValue)

/-- The label with the size that a boundary gives to it. -/
def resize (s : SizeofState) (label : SizedLabel) : SizedLabel :=
  { label with size := s.phAddress - label.phValue }

/-- The same addresses, level and module. -/
structure SamePlace (s t : SizeofState) : Prop where
  pass : t.pass = s.pass
  sourceBlockLevel : t.sourceBlockLevel = s.sourceBlockLevel
  moduleName : t.moduleName = s.moduleName
  pseudoORG : t.pseudoORG = s.pseudoORG
  curAddress : t.curAddress = s.curAddress
  adrdisp : t.adrdisp = s.adrdisp

namespace SamePlace

variable {s t u : SizeofState}

theorem refl (s : SizeofState) : SamePlace s s := ⟨rfl, rfl, rfl, rfl, rfl, rfl⟩

theorem trans (h : SamePlace s t) (h' : SamePlace t u) : SamePlace s u :=
  ⟨h'.pass.trans h.pass, h'.sourceBlockLevel.trans h.sourceBlockLevel,
    h'.moduleName.trans h.moduleName, h'.pseudoORG.trans h.pseudoORG,
    h'.curAddress.trans h.curAddress, h'.adrdisp.trans h.adrdisp⟩

theorem phAddress (h : SamePlace s t) : t.phAddress = s.phAddress := by
  rw [SizeofState.phAddress, SizeofState.phAddress, h.pseudoORG, h.curAddress, h.adrdisp]

end SamePlace

/-- What a sequence of assignments to sizes does. -/
structure SetSizes (s : SizeofState) (items : List SizeofStackItem) (t : SizeofState) : Prop
    extends SamePlace s t where
  symbols : ∀ name, t.symbols name = (s.symbols name).map fun label =>
    if name ∈ items.map (·.label) then s.resize label else label
  sizes : t.sizes = s.sizes ++ items.filterMap s.sizeOfItem

/-- No assignment at all. -/
theorem SetSizes.nil {s t : SizeofState} (hplace : SamePlace s t) (hsymbols : t.symbols = s.symbols)
    (hsizes : t.sizes = s.sizes) : SetSizes s [] t where
  toSamePlace := hplace
  symbols name := by simp [hsymbols]
  sizes := by simp [hsizes]

/-- One assignment more in front. -/
theorem SetSizes.cons {s t : SizeofState} {item : SizeofStackItem} {items : List SizeofStackItem}
    (h : SetSizes (s.setSize item) items t) : SetSizes s (item :: items) t := by
  unfold setSize at h
  -- an item whose label is unknown sets nothing
  rcases hlabel : s.symbols item.label with _ | label
  · rw [hlabel] at h
    refine ⟨h.toSamePlace, fun name => ?_, ?_⟩
    · rw [h.symbols]
      by_cases hname : name = item.label
      · rw [hname, hlabel]
        rfl
      · simp [hname]
    · simp [h.sizes, sizeOfItem, hlabel]
  · rw [hlabel] at h
    set u : SizeofState := { s.setSymbol item.label { label with
      size := s.phAddress - label.phValue } with
        sizes := s.sizes ++ [(item.label, s.phAddress - label.phValue)] } with hu
    have hplace : SamePlace s u := ⟨rfl, rfl, rfl, rfl, rfl, rfl⟩
    -- the size that is set depends on the place and on the value of the label, which both stay
    have hresize : u.resize = s.resize := by
      funext other
      rw [resize, resize, hplace.phAddress]
    have hsize : u.sizeOfItem = s.sizeOfItem := by
      funext other
      rw [sizeOfItem, sizeOfItem, hplace.phAddress]
      by_cases hname : other.label = item.label
      · simp [hu, setSymbol, hname, hlabel]
      · simp [hu, setSymbol, hname]
    refine ⟨hplace.trans h.toSamePlace, fun name => ?_, ?_⟩
    · rw [h.symbols, hresize]
      by_cases hname : name = item.label
      · subst hname
        simp [setSymbol, hlabel, resize]
      · simp [setSymbol, hname]
    · rw [h.sizes, hsize]
      simp [sizeOfItem, hlabel]

/-- One sequence of assignments behind another. -/
theorem SetSizes.append {s t u : SizeofState} {items items' : List SizeofStackItem}
    (h : SetSizes s items t) (h' : SetSizes t items' u) : SetSizes s (items ++ items') u := by
  have hresize : t.resize = s.resize := by
    funext label
    rw [resize, resize, h.toSamePlace.phAddress]
  -- a label on both lists is set to the same size again
  have hidem : ∀ label : SizedLabel, s.resize (s.resize label) = s.resize label := fun _ => rfl
  have hsize : t.sizeOfItem = s.sizeOfItem := by
    funext item
    rw [sizeOfItem, sizeOfItem, h.toSamePlace.phAddress, h.symbols, Option.map_map]
    congr 1
    funext label
    dsimp only [Function.comp_apply]
    split_ifs <;> rfl
  refine ⟨h.toSamePlace.trans h'.toSamePlace, fun name => ?_, ?_⟩
  · rw [h'.symbols, h.symbols, Option.map_map, hresize]
    congr 1
    funext label
    by_cases hfirst : name ∈ items.map (·.label) <;> by_cases hsecond : name ∈ items'.map (·.label) <;>
      simp only [Function.comp_apply, List.map_append, List.mem_append, hfirst, hsecond, if_true,
        if_false, or_true, or_false, hidem]
  · rw [h'.sizes, h.sizes, hsize, List.filterMap_append, List.append_assoc]

end SizeofState

open SizeofState

/-- The loops of `SizeBoundary`. -/
theorem setSizes_popSizes (closes : Int → Bool) (items : List SizeofStackItem) (s : SizeofState) :
    SetSizes s (items.takeWhile fun item => closes item.srcLevel) (popSizes closes items s) ∧
      (popSizes closes items s).sizeofStack
        = items.dropWhile fun item => closes item.srcLevel := by
  induction items generalizing s with
  | nil => exact ⟨.nil ⟨rfl, rfl, rfl, rfl, rfl, rfl⟩ rfl rfl, rfl⟩
  | cons item items ih =>
    rw [popSizes, List.takeWhile_cons, List.dropWhile_cons]
    split_ifs
    · exact ⟨.cons (ih _).1, (ih _).2⟩
    · exact ⟨.nil ⟨rfl, rfl, rfl, rfl, rfl, rfl⟩ rfl rfl, rfl⟩

/-- A warning changes the log only. -/
theorem setSizes_warning (s : SizeofState) (c : Prop) [Decidable c] (message : String) :
    SetSizes s [] (if c then s.warning message else s) ∧
      (if c then s.warning message else s).sizeofStack = s.sizeofStack := by
  split_ifs <;> exact ⟨.nil ⟨rfl, rfl, rfl, rfl, rfl, rfl⟩ rfl rfl, rfl⟩

/-- The second loop of `SizeBoundary` takes what the first one has left. -/
theorem SizeofState.SetSizes.popAll {s u : SizeofState} (closes : Int → Bool)
    (h : SetSizes s (s.sizeofStack.takeWhile fun item => closes item.srcLevel) u)
    (hstack : u.sizeofStack = s.sizeofStack.dropWhile fun item => closes item.srcLevel)
    (c : Prop) [Decidable c] (message : String) :
    let t := if c then u.warning message else u
    let last := if u.sizeofStack = [] then u else popSizes (fun _ => true) t.sizeofStack t
    SetSizes s s.sizeofStack last ∧ last.sizeofStack = [] := by
  -- what the first loop left is exactly what the second one takes
  have hsplit : (s.sizeofStack.takeWhile fun item => closes item.srcLevel) ++ u.sizeofStack
      = s.sizeofStack := by rw [hstack, List.takeWhile_append_dropWhile]
  obtain ⟨hwarn, hwarnStack⟩ := setSizes_warning u c message
  intro t last
  obtain ⟨hpop, hpopStack⟩ := setSizes_popSizes (fun _ => true) t.sizeofStack t
  -- without anything left neither the warning nor the second loop comes
  by_cases hempty : u.sizeofStack = []
  · have hlast : last = u := if_pos hempty
    rw [hempty, List.append_nil] at hsplit
    rw [hlast, hempty]
    exact ⟨hsplit ▸ h, rfl⟩
  · have hlast : last = popSizes (fun _ => true) t.sizeofStack t := if_neg hempty
    have hall := (h.append hwarn).append hpop
    have hwhole : (s.sizeofStack.takeWhile fun item => closes item.srcLevel) ++ t.sizeofStack
        = s.sizeofStack := by rw [hwarnStack, hsplit]
    rw [List.append_nil, List.takeWhile_eq_self_iff.mpr fun _ _ => rfl, hwhole] at hall
    rw [hlast]
    exact ⟨hall, by simp [hpopStack]⟩

/-- The levels that a call of `SizeBoundary` is for. -/
def SizeofState.closesAt (s : SizeofState) : BoundaryLevel → Int → Bool
  | .flow, _ | .all, _ => true
  | .main, level => s.sourceBlockLevel ≤ level
  | .locals, level => s.sourceBlockLevel + 1 ≤ level

/-- The boundary of a label or a tag. -/
theorem SizeofState.closesAt_localOrMain (s : SizeofState) (isLocal : Bool) (level : Int) :
    s.closesAt (if isLocal then .locals else .main) level
      = decide (s.sourceBlockLevel + isLocal.toInt ≤ level) := by
  cases isLocal with
  | false => exact congrArg (fun k => decide (k ≤ level)) (add_zero _).symm
  | true => rfl

/-- A boundary for a level is one for the higher levels. -/
theorem SizeofState.closesAt_mono {s : SizeofState} {kind : BoundaryLevel} {level level' : Int}
    (hle : level ≤ level') (h : s.closesAt kind level = true) : s.closesAt kind level' = true := by
  cases kind with
  | flow | all => rfl
  | main | locals =>
    simp only [closesAt, decide_eq_true_eq] at h ⊢
    omega

/-- A boundary for all levels takes the whole stack. -/
theorem SizeofState.splitWhile_closesAt (s : SizeofState) {kind : BoundaryLevel}
    (h : ∀ level, s.closesAt kind level = true) :
    (s.sizeofStack.takeWhile fun item => s.closesAt kind item.srcLevel) = s.sizeofStack ∧
      (s.sizeofStack.dropWhile fun item => s.closesAt kind item.srcLevel) = [] :=
  ⟨List.takeWhile_eq_self_iff.mpr fun _ _ => h _, List.dropWhile_eq_nil_iff.mpr fun _ _ => h _⟩

/-- **A boundary** takes the labels on its levels off the stack and sets their sizes. -/
theorem setSizes_sizeBoundary (s : SizeofState) (kind : BoundaryLevel) :
    SetSizes s (s.sizeofStack.takeWhile fun item => s.closesAt kind item.srcLevel)
        (s.sizeBoundary kind) ∧
      (s.sizeBoundary kind).sizeofStack
        = s.sizeofStack.dropWhile fun item => s.closesAt kind item.srcLevel := by
  -- an empty stack makes the boundary return at once
  by_cases hstack : s.sizeofStack = []
  · rw [sizeBoundary, if_pos hstack, hstack]
    exact ⟨.nil (.refl s) rfl rfl, rfl⟩
  rw [sizeBoundary, if_neg hstack]
  obtain ⟨hwarn, hwarnStack⟩ := setSizes_warning s (kind = .flow)
    "SIZEOF-tracking does not work across wrap-around. Stopping count here."
  set t := if kind = .flow then s.warning
    "SIZEOF-tracking does not work across wrap-around. Stopping count here." else s
  -- the first loop takes the levels of the block, and for two kinds the second one the rest
  dsimp only
  obtain ⟨hpop, hpopStack⟩ := setSizes_popSizes
    (t.sourceBlockLevel + (decide (kind = .locals)).toInt ≤ ·) t.sizeofStack t
  set u := popSizes (t.sourceBlockLevel + (decide (kind = .locals)).toInt ≤ ·) t.sizeofStack t
  have hsoft := hwarn.append hpop
  rw [List.nil_append] at hsoft
  rw [hwarnStack] at hsoft hpopStack
  rw [hwarn.sourceBlockLevel] at hsoft hpopStack
  have hhard := hsoft.popAll (s.sourceBlockLevel + (decide (kind = .locals)).toInt ≤ ·) hpopStack
    (kind = .all)
    ("There are labels in parent scope being SIZEOF-tracked at this point. " ++
      "Stopping their count here.")
  -- a soft boundary ends behind the first loop, a hard one empties the stack
  cases kind with
  | main =>
    rw [if_pos (⟨nofun, nofun⟩ : BoundaryLevel.main ≠ .flow ∧ BoundaryLevel.main ≠ .all), ite_self]
    simpa [closesAt] using And.intro hsoft hpopStack
  | locals =>
    rw [if_pos (⟨nofun, nofun⟩ : BoundaryLevel.locals ≠ .flow ∧ BoundaryLevel.locals ≠ .all),
      ite_self]
    simpa [closesAt] using And.intro hsoft hpopStack
  | flow =>
    rw [if_neg fun h : BoundaryLevel.flow ≠ .flow ∧ BoundaryLevel.flow ≠ .all => h.1 rfl,
      (s.splitWhile_closesAt fun _ => rfl).1, (s.splitWhile_closesAt fun _ => rfl).2]
    exact hhard
  | all =>
    rw [if_neg fun h : BoundaryLevel.all ≠ .flow ∧ BoundaryLevel.all ≠ .all => h.2 rfl,
      (s.splitWhile_closesAt fun _ => rfl).1, (s.splitWhile_closesAt fun _ => rfl).2]
    exact hhard

/-! ### Tracked labels -/

/-- The table has a label that is tracked with the address of its definition, and it has been defined
in this pass. -/
def Found (s : SizeofState) (l : TrackedLabel) : Prop :=
  ∃ label, s.symbols l.name = some label ∧ label.isDefined = true ∧ label.phValue = l.address ∧
    label.traits.isDefl = false ∧ (s.pass ≠ lastPass → s.pass ≤ label.updatePass)

/-- The stack holds these labels, on increasing levels. -/
structure Tracks (s : SizeofState) (labels : List TrackedLabel) : Prop where
  stack : s.sizeofStack = labels.map TrackedLabel.item
  increasing : labels.Pairwise fun a b => b.level < a.level
  found : ∀ l ∈ labels, Found s l

/-- Nothing happens to the labels on the stack. -/
structure KeepsTracked (s t : SizeofState) : Prop where
  stack : t.sizeofStack = s.sizeofStack
  sizes : t.sizes = s.sizes
  found : ∀ l, l.item ∈ s.sizeofStack → Found s l → Found t l

namespace KeepsTracked

variable {s t u : SizeofState}

/-- A change that the table does not see. -/
theorem of_symbols (hpass : t.pass = s.pass) (hsymbols : t.symbols = s.symbols)
    (hstack : t.sizeofStack = s.sizeofStack) (hsizes : t.sizes = s.sizes) : KeepsTracked s t where
  stack := hstack
  sizes := hsizes
  found l _ h := by rwa [Found, hpass, hsymbols]

theorem trans (h : KeepsTracked s t) (h' : KeepsTracked t u) : KeepsTracked s u where
  stack := h'.stack.trans h.stack
  sizes := h'.sizes.trans h.sizes
  found l hl hs := h'.found l (h.stack ▸ hl) (h.found l hl hs)

end KeepsTracked

namespace Tracks

variable {s t : SizeofState} {labels : List TrackedLabel}

theorem keep (h : Tracks s labels) (hkeep : KeepsTracked s t) : Tracks t labels where
  stack := hkeep.stack.trans h.stack
  increasing := h.increasing
  found l hl := hkeep.found l (h.stack ▸ List.mem_map_of_mem hl) (h.found l hl)

/-- A label stays in the table when a boundary sets its size. -/
theorem found_of_setSizes {items : List SizeofStackItem} {l : TrackedLabel} (h : SetSizes s items t)
    (hl : Found s l) : Found t l := by
  obtain ⟨label, hlabel, hdefined, haddress, hdefl, hpass⟩ := hl
  have hsame : ∀ other : SizedLabel, (if l.name ∈ items.map (·.label) then s.resize other else other)
      = { other with size := if l.name ∈ items.map (·.label) then s.phAddress - other.phValue
          else other.size } := by
    intro other
    split_ifs <;> rfl
  rw [Found, h.symbols, hlabel, h.pass]
  exact ⟨_, congrArg some (hsame label), hdefined, haddress, hdefl, hpass⟩

/-- **What a boundary does to the tracked labels**: those on its levels get their sizes. -/
theorem sizeBoundary (h : Tracks s labels) (kind : BoundaryLevel) :
    Tracks (s.sizeBoundary kind) (labels.filter fun l => !s.closesAt kind l.level) ∧
      (s.sizeBoundary kind).sizes = s.sizes ++
        (labels.filter fun l => s.closesAt kind l.level).map (fun l =>
          (l.name, s.phAddress - l.address)) ∧
      ∀ l ∈ labels, s.closesAt kind l.level = true →
        ((s.sizeBoundary kind).symbols l.name).map (·.size) = some (s.phAddress - l.address) := by
  obtain ⟨hset, hstack⟩ := setSizes_sizeBoundary s kind
  have hupward : ∀ level level', level ≤ level' → s.closesAt kind level = true →
      s.closesAt kind level' = true := fun _ _ => closesAt_mono
  -- the levels grow upward on the stack, so that the loop takes all it should
  have htaken : (s.sizeofStack.takeWhile fun item => s.closesAt kind item.srcLevel)
      = (labels.filter fun l => s.closesAt kind l.level).map TrackedLabel.item := by
    rw [h.stack, List.takeWhile_map, ← Levels.takeWhile_eq_filter h.increasing hupward]
    rfl
  have hleft : (s.sizeofStack.dropWhile fun item => s.closesAt kind item.srcLevel)
      = (labels.filter fun l => !s.closesAt kind l.level).map TrackedLabel.item := by
    rw [h.stack, List.dropWhile_map, ← Levels.dropWhile_eq_filter h.increasing hupward]
    rfl
  -- the labels that are left, the sizes that are logged, and the sizes in the table
  refine ⟨⟨hstack.trans hleft, h.increasing.filter _, fun l hl => ?_⟩, ?_, fun l hl hcloses => ?_⟩
  · exact found_of_setSizes hset (h.found l (List.mem_of_mem_filter hl))
  · rw [hset.sizes, htaken, List.filterMap_map]
    congr 1
    rw [← List.filterMap_eq_map']
    refine List.filterMap_congr fun l hl => ?_
    obtain ⟨label, hlabel, -, haddress, -⟩ := h.found l (List.mem_of_mem_filter hl)
    simp [sizeOfItem, TrackedLabel.item, hlabel, haddress]
  · obtain ⟨label, hlabel, -, haddress, -⟩ := h.found l hl
    have hmem : l.name ∈ ((labels.filter fun l => s.closesAt kind l.level).map
        TrackedLabel.item).map (·.label) :=
      List.mem_map_of_mem (List.mem_map_of_mem (List.mem_filter.mpr ⟨hl, hcloses⟩))
    rw [hset.symbols, htaken, hlabel, Option.map_some, if_pos hmem, ← haddress]
    rfl

end Tracks

/-! ### Steady passes -/

namespace SizeofState

variable (s : SizeofState)

/-- `Insert` refreshes an entry of a `DEFL`, of a label that is only used, or of an earlier pass. -/
def refreshable (name : Text) : Bool :=
  (s.symbols name).all fun label => label.traits.isDefl || !label.isDefined || label.updatePass < s.pass

end SizeofState

/-- The pass finds the labels as the pass before has found them: a label is in the table, of the same
kind and with the same physical address.  A `DEFL`, which may be set many times, is no label that the
pass has found already. -/
def steady (s : SizeofState) : SourceEvent → Bool
  | .label l =>
    if l.isDEFL then s.refreshable l.tp && s.sizeofStack.all fun item => item.label ≠ l.tp
    else (s.symbols l.tp).any fun label => label.isDefined && label.phValue = s.phAddress &&
      label.traits = { l.traits with hasSize := label.traits.hasSize }
  | _ => true

/-- A property of every step of a run. -/
def along (p : SizeofState → SourceEvent → Bool) : SizeofState → List SourceEvent → Bool
  | _, [] => true
  | s, e :: events => p s e && along p (e.step s) events

/-- A label with its value: the rest of the table is as before. -/
structure Stored (s : SizeofState) (l : ParsedLabel) (t : SizeofState) : Prop
    extends SamePlace s t where
  stack : t.sizeofStack = s.sizeofStack
  sizes : t.sizes = s.sizes
  others : ∀ name, name ≠ l.tp → t.symbols name = s.symbols name
  label : ∃ label, t.symbols l.tp = some label ∧ label.isDefined = true ∧
    label.traits = { l.traits with hasSize := (s.symbols l.tp).any (·.traits.hasSize) } ∧
    (l.isDEFL = false → label.phValue = s.phAddress ∧
      (s.pass ≠ lastPass → s.pass ≤ label.updatePass))

/-- The entry of the label changes once more. -/
theorem Stored.setSymbol {s t u : SizeofState} {l : ParsedLabel} {label : SizedLabel} (h : Stored s l t)
    (hplace : SamePlace t u) (hstack : u.sizeofStack = t.sizeofStack) (hsizes : u.sizes = t.sizes)
    (hsymbols : u.symbols = (t.setSymbol l.tp label).symbols) (hdefined : label.isDefined = true)
    (htraits : label.traits = { l.traits with hasSize := (s.symbols l.tp).any (·.traits.hasSize) })
    (hvalue : l.isDEFL = false → label.phValue = s.phAddress ∧
      (s.pass ≠ lastPass → s.pass ≤ label.updatePass)) : Stored s l u where
  toSamePlace := h.toSamePlace.trans hplace
  stack := hstack.trans h.stack
  sizes := hsizes.trans h.sizes
  others name hname := by
    rw [hsymbols, ← h.others name hname]
    exact if_neg hname
  label := ⟨label, by rw [hsymbols]; exact if_pos rfl, hdefined, htraits, hvalue⟩

/-- The label is set twice. -/
theorem Stored.trans {s t u : SizeofState} {l : ParsedLabel} (h : Stored s l t) (h' : Stored t l u) :
    Stored s l u where
  toSamePlace := h.toSamePlace.trans h'.toSamePlace
  stack := h'.stack.trans h.stack
  sizes := h'.sizes.trans h.sizes
  others name hname := (h'.others name hname).trans (h.others name hname)
  label := by
    obtain ⟨first, hfirst, -, htraits, -⟩ := h.label
    obtain ⟨label, hlabel, hdefined, htraits', hvalue⟩ := h'.label
    refine ⟨label, hlabel, hdefined, ?_, ?_⟩
    · rw [htraits', hfirst, Option.any_some, htraits]
    · rwa [h.toSamePlace.phAddress, h.pass] at hvalue

namespace SizeofState

variable {s : SizeofState} {l : ParsedLabel} {val : Aint}

/-- `Insert` of a label that it may refresh. -/
theorem insert_refreshable (h : s.refreshable l.tp = true) (val : Aint) :
    ∃ t, s.insert l.tp val l.traits = some t ∧ Stored s l t ∧ t.refreshable l.tp = l.isDEFL := by
  unfold insert
  rcases hlabel : s.symbols l.tp with _ | label
  · refine ⟨_, rfl, ⟨⟨rfl, rfl, rfl, rfl, rfl, rfl⟩, rfl, rfl, fun name hname => if_neg hname,
      ⟨_, if_pos rfl, rfl, ?_, fun _ => ⟨rfl, fun _ => le_rfl⟩⟩⟩, ?_⟩
    · rw [hlabel]
      rfl
    · simp [refreshable, setSymbol, ParsedLabel.traits]
  · rw [refreshable, hlabel, Option.all_some] at h
    dsimp only
    rw [if_pos h]
    refine ⟨_, rfl, ⟨⟨rfl, rfl, rfl, rfl, rfl, rfl⟩, rfl, rfl, fun name hname => if_neg hname,
      ⟨_, if_pos rfl, rfl, ?_, fun _ => ⟨rfl, fun _ => le_rfl⟩⟩⟩, ?_⟩
    · simp [hlabel, ParsedLabel.traits]
    · simp [refreshable, setSymbol, ParsedLabel.traits]

/-- `Insert` of any other label does nothing. -/
theorem insert_eq_none {name : Text} (h : s.refreshable name = false) (val : Aint)
    (traits : SizeTraits) : s.insert name val traits = none := by
  unfold insert
  rcases hlabel : s.symbols name with _ | label
  · rw [refreshable, hlabel] at h
    cases h
  · rw [refreshable, hlabel, Option.all_some] at h
    exact if_neg (by rw [h]; exact Bool.false_ne_true)

/-- The entry of a label that the pass finds where the pass before has found it. -/
theorem of_steady (h : steady s (.label l) = true) (hdefl : l.isDEFL = false) :
    ∃ label, s.symbols l.tp = some label ∧ label.isDefined = true ∧ label.phValue = s.phAddress ∧
      label.traits = { l.traits with hasSize := (s.symbols l.tp).any (·.traits.hasSize) } := by
  rw [steady, if_neg (by simp [hdefl]), Option.any_eq_true] at h
  obtain ⟨label, hlabel, h⟩ := h
  simp only [Bool.and_eq_true, decide_eq_true_eq] at h
  refine ⟨label, hlabel, h.1.1, h.1.2, ?_⟩
  rw [hlabel, Option.any_some]
  exact h.2

/-- The last pass compares the value with the one in the table. -/
theorem stored_compare {t : SizeofState} (h : Stored s l t) (hlast : s.pass = lastPass) (val : Aint) :
    ∃ u, (match t.symbols l.tp with
        | none => (t, true)
        | some label =>
          if val ≠ label.value then
            ((t.warning "Label has different value in pass 3").update l.tp val, true)
          else (t.setSymbol l.tp { label with updatePass := t.pass }, true)) = (u, true) ∧
      Stored s l u := by
  obtain ⟨label, hlabel, hdefined, htraits, hvalue⟩ := h.label
  have hplace : SamePlace s t := h.toSamePlace
  rw [hlabel]
  dsimp only
  -- another value is a warning and replaces the old one
  split_ifs
  · have hupdate : (t.warning "Label has different value in pass 3").update l.tp val
        = (t.warning "Label has different value in pass 3").setSymbol l.tp
          { label with value := val, phValue := t.phAddress } := by
      rw [update, show (t.warning "Label has different value in pass 3").symbols l.tp = some label
        from hlabel]
      rfl
    rw [hupdate]
    exact ⟨_, rfl, h.setSymbol ⟨rfl, rfl, rfl, rfl, rfl, rfl⟩ rfl rfl rfl hdefined htraits
      fun _ => ⟨hplace.phAddress, fun hnot => absurd hlast hnot⟩⟩
  · exact ⟨_, rfl, h.setSymbol ⟨rfl, rfl, rfl, rfl, rfl, rfl⟩ rfl rfl rfl hdefined htraits
      fun hdefl => ⟨(hvalue hdefl).1, fun hnot => absurd hlast hnot⟩⟩

/-- A label of the table that is defined. -/
theorem find_eq_some {name : Text} {label : SizedLabel} (h : s.symbols name = some label)
    (hdefined : label.isDefined = true) : s.find name = some label := by
  rw [find, h, Option.filter_some, if_pos hdefined]

/-- The last pass. -/
theorem stored_checkLabel (h : steady s (.label l) = true) (hlast : s.pass = lastPass) (val : Aint) :
    ∃ t, s.checkLabel l val = (t, true) ∧ Stored s l t := by
  rcases hdefl : l.isDEFL with _ | _
  · -- nothing is inserted
    obtain ⟨label, hlabel, hdefined, haddress, htraits⟩ := of_steady h hdefl
    have hstored : Stored s l s := ⟨.refl s, rfl, rfl, fun _ _ => rfl,
      ⟨label, hlabel, hdefined, htraits, fun _ => ⟨haddress, fun hnot => absurd hlast hnot⟩⟩⟩
    rw [checkLabel, hdefl, Bool.and_false, if_neg Bool.false_ne_true,
      if_neg (by simp [find_eq_some hlabel hdefined])]
    exact stored_compare hstored hlast val
  · -- the label is set, perhaps a second time
    have hrefresh : s.refreshable l.tp = true := by
      rw [steady, if_pos hdefl, Bool.and_eq_true] at h
      exact h.1
    have hfirst : ∃ t, (if (s.find l.tp).isNone && l.isDEFL then (s.insert l.tp val l.traits).getD s
        else s) = t ∧ t.pass = s.pass ∧ t.refreshable l.tp = true ∧ (t.find l.tp).isNone = false ∧
          ∀ u, Stored t l u → Stored s l u := by
      by_cases hnone : (s.find l.tp).isNone = true
      · obtain ⟨t, ht, hstored, hagain⟩ := insert_refreshable hrefresh val
        obtain ⟨label, hlabel, hdefined, -⟩ := hstored.label
        rw [hnone, hdefl, if_pos (Bool.and_self true), ht]
        exact ⟨t, rfl, hstored.pass, by rw [hagain, hdefl], by simp [find_eq_some hlabel hdefined],
          fun u => hstored.trans⟩
      · rw [hdefl, Bool.and_true, if_neg hnone]
        exact ⟨s, rfl, rfl, hrefresh, Bool.not_eq_true _ ▸ hnone, fun u h => h⟩
    obtain ⟨t, ht, hpass, hagain, hfound, hall⟩ := hfirst
    obtain ⟨u, hu, hstored, -⟩ := insert_refreshable hagain val
    have hsecond : (if l.isDEFL then (t.insert l.tp val l.traits).getD t else t) = u := by
      rw [if_pos hdefl, hu, Option.getD_some]
    rw [checkLabel, ht, hfound, if_neg Bool.false_ne_true, hsecond]
    exact stored_compare (hall u hstored) hlast val

/-- A label gets its value. -/
theorem stored_storeLabel (h : steady s (.label l) = true) :
    ∃ t, s.storeLabel l = (t, true) ∧ Stored s l t := by
  rw [storeLabel]
  -- the last pass checks the label, the passes before insert or update it
  by_cases hlast : s.pass = lastPass
  · rw [if_pos hlast]
    exact stored_checkLabel h hlast _
  rw [if_neg hlast]
  rcases hrefresh : s.refreshable l.tp with _ | _
  · -- the label is there already
    have hdefl : l.isDEFL = false := by
      by_contra hdefl
      rw [steady, if_pos (by simpa using hdefl), hrefresh] at h
      cases h
    obtain ⟨label, hlabel, hdefined, haddress, htraits⟩ := of_steady h hdefl
    have hpass : s.pass ≤ label.updatePass := by
      rw [refreshable, hlabel] at hrefresh
      simp at hrefresh
      exact hrefresh.2
    rw [insert_eq_none hrefresh]
    dsimp only
    split_ifs
    · refine ⟨_, rfl, ?_⟩
      rw [update, hlabel]
      exact ⟨⟨rfl, rfl, rfl, rfl, rfl, rfl⟩, rfl, rfl, fun name hname => if_neg hname,
        ⟨_, if_pos rfl, hdefined, htraits, fun _ => ⟨rfl, fun _ => hpass⟩⟩⟩
    · exact ⟨_, rfl, ⟨rfl, rfl, rfl, rfl, rfl, rfl⟩, rfl, rfl, fun _ _ => rfl,
        ⟨label, hlabel, hdefined, htraits, fun _ => ⟨haddress, fun _ => hpass⟩⟩⟩
  · obtain ⟨t, ht, hstored, -⟩ := insert_refreshable hrefresh (s.labelValue l)
    rw [ht]
    exact ⟨t, rfl, hstored⟩

/-- The labels on the stack do not change when one gets its value. -/
theorem keepsTracked_stored {t : SizeofState} (h : steady s (.label l) = true) (hstored : Stored s l t) :
    KeepsTracked s t where
  stack := hstored.stack
  sizes := hstored.sizes
  found tracked hmem hfound := by
    obtain ⟨entry, hentry, hdefined, haddress, hdefl, hpass⟩ := hfound
    rw [Found, hstored.pass]
    by_cases hname : tracked.name = l.tp
    · -- the address of the label is that of this pass, so it is the one that was tracked
      have hnot : l.isDEFL = false := by
        by_contra hdefl
        rw [steady, if_pos (by simpa using hdefl), Bool.and_eq_true, List.all_eq_true] at h
        have hother := h.2 _ hmem
        simp [TrackedLabel.item, hname] at hother
      obtain ⟨old, hold, -, hsame, -⟩ := of_steady h hnot
      obtain ⟨label, hlabel, hdefined', htraits, hvalue⟩ := hstored.label
      obtain ⟨hvalue, hpass'⟩ := hvalue hnot
      rw [hname] at hentry ⊢
      obtain rfl : old = entry := Option.some.inj (hold.symm.trans hentry)
      refine ⟨label, hlabel, hdefined', ?_, ?_, hpass'⟩
      · rw [hvalue, ← hsame, haddress]
      · rw [htraits]
        exact hnot
    · rw [hstored.others _ hname]
      exact ⟨entry, hentry, hdefined, haddress, hdefl, hpass⟩

/-- The label behind a boundary. -/
theorem find_sizeBoundary {t : SizeofState} (hstored : Stored s l t) (kind : BoundaryLevel) :
    ∃ label, (t.sizeBoundary kind).find l.tp = some label ∧
      label.traits = { l.traits with hasSize := (s.symbols l.tp).any (·.traits.hasSize) } ∧
      (l.isDEFL = false → label.phValue = s.phAddress ∧
        (s.pass ≠ lastPass → s.pass ≤ label.updatePass)) := by
  obtain ⟨label, hlabel, hdefined, htraits, hvalue⟩ := hstored.label
  have hsymbols := (setSizes_sizeBoundary t kind).1.symbols l.tp
  rw [hlabel, Option.map_some] at hsymbols
  split_ifs at hsymbols
  · exact ⟨_, find_eq_some hsymbols hdefined, htraits, hvalue⟩
  · exact ⟨_, find_eq_some hsymbols hdefined, htraits, hvalue⟩

end SizeofState

/-! ### Structures and `SIZEOF` -/

namespace SizeofState

variable {s t : SizeofState}

/-- A label that has been found in this pass is not inserted again. -/
theorem refreshable_of_found {l : TrackedLabel} (h : Found s l) (hlast : s.pass ≠ lastPass) :
    s.refreshable l.name = false := by
  obtain ⟨label, hlabel, hdefined, -, hdefl, hpass⟩ := h
  rw [refreshable, hlabel, Option.all_some, hdefined, hdefl]
  simpa using hpass hlast

/-- What `Insert` changes is no label on the stack. -/
theorem keepsTracked_insert {name : Text} {value : Aint} {traits : SizeTraits}
    (hlast : s.pass ≠ lastPass) (h : s.insert name value traits = some t) : KeepsTracked s t := by
  have hrefresh : s.refreshable name = true := by
    by_contra hnot
    rw [insert_eq_none (by simpa using hnot)] at h
    cases h
  obtain ⟨label, rfl⟩ : ∃ label, t = s.setSymbol name label := by
    unfold insert at h
    split at h
    · split_ifs at h
      exact ⟨_, (Option.some.inj h).symm⟩
    · exact ⟨_, (Option.some.inj h).symm⟩
  refine ⟨rfl, rfl, fun l _ hl => ?_⟩
  have hname : l.name ≠ name := by
    rintro rfl
    rw [refreshable_of_found hl hlast] at hrefresh
    cases hrefresh
  have hsame : (s.setSymbol name label).symbols l.name = s.symbols l.name := if_neg hname
  rwa [Found, hsame]

theorem samePlace_insert {name : Text} {value : Aint} {traits : SizeTraits}
    (h : s.insert name value traits = some t) : SamePlace s t := by
  unfold insert at h
  split at h
  · split_ifs at h
    exact Option.some.inj h ▸ ⟨rfl, rfl, rfl, rfl, rfl, rfl⟩
  · exact Option.some.inj h ▸ ⟨rfl, rfl, rfl, rfl, rfl, rfl⟩

/-- A label of a structure. -/
theorem keepsTracked_insertSingleStructLabel (fullName : Text) (isLocal : Bool) (value : Aint) :
    KeepsTracked s (s.insertSingleStructLabel fullName isLocal value) ∧
      SamePlace s (s.insertSingleStructLabel fullName isLocal value) := by
  have hsame : ∀ log, KeepsTracked s { s with log := log } ∧ SamePlace s { s with log := log } :=
    fun log => ⟨.of_symbols rfl rfl rfl rfl, rfl, rfl, rfl, rfl, rfl, rfl⟩
  unfold insertSingleStructLabel
  split_ifs with hlast
  · split
    · exact hsame _
    · split_ifs <;> exact hsame _
  · rcases h : s.insert fullName value { isLocal := isLocal } with _ | t
    · exact hsame _
    · exact ⟨keepsTracked_insert hlast h, samePlace_insert h⟩

/-- A change of a size or of a trait. -/
theorem keepsTracked_setSymbol {name : Text} {label label' : SizedLabel}
    (h : s.symbols name = some label) (hdefined : label'.isDefined = label.isDefined)
    (haddress : label'.phValue = label.phValue) (hdefl : label'.traits.isDefl = label.traits.isDefl)
    (hpass : label'.updatePass = label.updatePass) : KeepsTracked s (s.setSymbol name label') where
  stack := rfl
  sizes := rfl
  found l _ hl := by
    by_cases hname : l.name = name
    · obtain ⟨entry, hentry, hrest⟩ := hl
      rw [hname, h] at hentry
      obtain rfl := Option.some.inj hentry
      exact ⟨label', if_pos hname, by rwa [hdefined, haddress, hdefl, hpass]⟩
    · have hsame : (s.setSymbol name label').symbols l.name = s.symbols l.name := if_neg hname
      rwa [Found, hsame]

/-- The labels of an instance of a structure. -/
theorem keepsTracked_emitlab (l : StructInstance) :
    KeepsTracked s (s.emitlab l) ∧ SamePlace s (s.emitlab l) := by
  -- by induction on the members: each of them is a label with a value and no item
  have hmembers : ∀ (members : List (Text × Aint)) (u : SizeofState),
      KeepsTracked u (members.foldl (fun s member => s.insertSingleStructLabel
        (l.fullName ++ '.' :: member.1) l.isLocal (member.2 + l.address)) u) ∧
      SamePlace u (members.foldl (fun s member => s.insertSingleStructLabel
        (l.fullName ++ '.' :: member.1) l.isLocal (member.2 + l.address)) u) := by
    intro members
    induction members with
    | nil => exact fun u => ⟨.of_symbols rfl rfl rfl rfl, .refl u⟩
    | cons member members ih =>
      intro u
      obtain ⟨hkeep, hplace⟩ := keepsTracked_insertSingleStructLabel (s := u)
        (l.fullName ++ '.' :: member.1) l.isLocal (member.2 + l.address)
      exact ⟨hkeep.trans (ih _).1, hplace.trans (ih _).2⟩
  obtain ⟨hkeep, hplace⟩ := keepsTracked_insertSingleStructLabel (s := s) l.fullName l.isLocal
    l.address
  obtain ⟨hkeep', hplace'⟩ := hmembers l.members
    (s.insertSingleStructLabel l.fullName l.isLocal l.address)
  rw [emitlab]
  split
  · exact ⟨hkeep.trans hkeep', hplace.trans hplace'⟩
  · rename_i label hlabel
    rw [find, Option.filter_eq_some_iff] at hlabel
    exact ⟨(hkeep.trans hkeep').trans (keepsTracked_setSymbol hlabel.1 rfl rfl rfl rfl),
      (hplace.trans hplace').trans ⟨rfl, rfl, rfl, rfl, rfl, rfl⟩⟩

/-- The operator `SIZEOF`. -/
theorem keepsTracked_getLabelSize (name : Text) :
    KeepsTracked s (s.getLabelSize name) ∧ SamePlace s (s.getLabelSize name) := by
  unfold getLabelSize
  rcases h : s.symbols name with _ | label
  · have hinsert : (s.insert name 0 { isUndefined := true, hasSize := true })
        = some (s.setSymbol name ⟨0, s.phAddress, 0, false,
          { isUndefined := true, hasSize := true }, s.pass⟩) := by
      rw [insert, h]
      rfl
    rw [hinsert]
    refine ⟨⟨rfl, rfl, fun l _ hl => ?_⟩, rfl, rfl, rfl, rfl, rfl, rfl⟩
    obtain ⟨entry, hentry, hrest⟩ := hl
    have hname : l.name ≠ name := by
      rintro rfl
      rw [h] at hentry
      cases hentry
    exact ⟨entry, (if_neg hname).trans hentry, hrest⟩
  · exact ⟨keepsTracked_setSymbol h rfl rfl rfl rfl, rfl, rfl, rfl, rfl, rfl, rfl⟩

end SizeofState

/-! ### One event -/

/-- No instance of a structure gets a label while a label of its level is tracked, nor one that is
written like the name of a label whose size has been set. -/
def noInstance (s : SizeofState) : SourceEvent → Bool
  | .structInstance l =>
    (s.sizeofStack.all fun item => item.srcLevel < s.sourceBlockLevel + l.isLocal.toInt) &&
      s.sizes.all fun size => size.1 ≠ l.iid
  | _ => true

/-- `ENDMODULE` finds a module. -/
def closable (s : SizeofState) : SourceEvent → Bool
  | .dirENDMODULE => s.moduleName ≠ []
  | _ => true

/-- What one event does to the tracked labels. -/
structure StepTracks (s : SizeofState) (labels : List TrackedLabel) (e : SourceEvent) : Prop where
  tracks : Tracks (e.step s)
    ((tracked s e).toList ++ labels.filter fun l => !boundary s e l.level)
  sizes : (e.step s).sizes = s.sizes ++
    (labels.filter fun l => boundary s e l.level).map fun l => (l.name, s.phAddress - l.address)
  sized : ∀ l ∈ labels, boundary s e l.level = true →
    ((e.step s).symbols l.name).map (·.size) = some (s.phAddress - l.address)

namespace StepTracks

variable {s t : SizeofState} {labels : List TrackedLabel} {e : SourceEvent}

/-- An event that is no boundary for the labels on the stack. -/
theorem of_keep (h : Tracks s labels) (hkeep : KeepsTracked s (e.step s))
    (hlevels : ∀ l ∈ labels, boundary s e l.level = false) (htracked : tracked s e = none) :
    StepTracks s labels e := by
  have hleft : (labels.filter fun l => !boundary s e l.level) = labels :=
    List.filter_eq_self.mpr fun l hl => by simp [hlevels l hl]
  have hnone : (labels.filter fun l => boundary s e l.level) = [] :=
    List.filter_eq_nil_iff.mpr fun l hl => by simp [hlevels l hl]
  refine ⟨?_, ?_, fun l hl hcloses => ?_⟩
  · rw [htracked, hleft]
    exact h.keep hkeep
  · rw [hnone, hkeep.sizes, List.map_nil, List.append_nil]
  · rw [hlevels l hl] at hcloses
    cases hcloses

/-- An event that is a boundary, and does nothing to the labels in front of it and behind it. -/
theorem of_boundary (h : Tracks s labels) (kind : BoundaryLevel) (hfront : KeepsTracked s t)
    (haddress : t.phAddress = s.phAddress) (hlevels : ∀ level, boundary s e level = t.closesAt kind level)
    (hkeep : KeepsTracked (t.sizeBoundary kind) (e.step s))
    (hsymbols : (e.step s).symbols = (t.sizeBoundary kind).symbols) (htracked : tracked s e = none) :
    StepTracks s labels e := by
  obtain ⟨htracks, hsizes, hsized⟩ := (h.keep hfront).sizeBoundary kind
  refine ⟨?_, ?_, fun l hl hcloses => ?_⟩
  · rw [htracked]
    simp only [hlevels]
    exact htracks.keep hkeep
  · simp only [hlevels]
    rw [hkeep.sizes, hsizes, hfront.sizes, haddress]
  · rw [hsymbols, ← haddress]
    exact hsized l hl (hlevels l.level ▸ hcloses)

/-- A label that is tracked comes on the stack behind its boundary. -/
theorem of_push (h : Tracks s labels) (kind : BoundaryLevel) (hfront : KeepsTracked s t)
    (haddress : t.phAddress = s.phAddress) (hlevels : ∀ level, boundary s e level = t.closesAt kind level)
    {l : TrackedLabel} (hfound : Found (t.sizeBoundary kind) l) (htracked : tracked s e = some l)
    (hlevel : boundary s e l.level = true)
    (hstep : e.step s = { t.sizeBoundary kind with
      sizeofStack := l.item :: (t.sizeBoundary kind).sizeofStack }) : StepTracks s labels e := by
  obtain ⟨htracks, hsizes, hsized⟩ := (h.keep hfront).sizeBoundary kind
  refine ⟨?_, ?_, fun other hother hcloses => ?_⟩
  · rw [htracked, hstep]
    simp only [hlevels]
    refine ⟨congrArg (l.item :: ·) htracks.stack, ?_, fun other hother => ?_⟩
    · refine List.pairwise_cons.mpr ⟨fun other hother => ?_, htracks.increasing⟩
      -- what is not below the label has been taken off
      have hkept : boundary s e other.level = false := by
        simpa [hlevels] using (List.mem_filter.mp hother).2
      by_contra hnot
      have hclosed : boundary s e other.level = true := by
        rw [hlevels] at hlevel ⊢
        exact closesAt_mono (not_lt.mp hnot) hlevel
      rw [hclosed] at hkept
      cases hkept
    · rcases List.mem_cons.mp hother with rfl | hother
      · exact hfound
      · exact htracks.found other hother
  · rw [hstep]
    simp only [hlevels]
    rw [hsizes, hfront.sizes, haddress]
  · rw [hstep, ← haddress]
    exact hsized other hother (hlevels other.level ▸ hcloses)

/-- A label. -/
theorem label (h : Tracks s labels) (l : ParsedLabel) (hsteady : steady s (.label l) = true) :
    StepTracks s labels (.label l) := by
  obtain ⟨t, ht, hstored⟩ := stored_storeLabel hsteady
  have hplace := hstored.toSamePlace
  have hfront := keepsTracked_stored hsteady hstored
  have hlevels : ∀ level, boundary s (.label l) level
      = t.closesAt (if l.isLocal then .locals else .main) level := by
    intro level
    rw [t.closesAt_localOrMain, hplace.sourceBlockLevel]
    rfl
  obtain ⟨entry, hentry, htraits, hvalue⟩ :=
    find_sizeBoundary hstored (if l.isLocal then .locals else .main)
  obtain ⟨hset, -⟩ := setSizes_sizeBoundary t (if l.isLocal then .locals else .main)
  set u := t.sizeBoundary (if l.isLocal then .locals else .main) with hu
  have hplaceU : SamePlace s u := hplace.trans hset.toSamePlace
  have hstep : (SourceEvent.label l).step s
      = if entry.traits.hasSize then u.trackForSize l.tp entry else u := by
    show s.defineLabel l = _
    rw [defineLabel, ht]
    show (match u.find l.tp with
      | none => u
      | some label => if label.traits.hasSize then u.trackForSize l.tp label else u) = _
    rw [hentry]
  have hkept : KeepsTracked u u := .of_symbols rfl rfl rfl rfl
  have hequal : entry.traits.hasSize = (s.symbols l.tp).any (·.traits.hasSize) ∧
      entry.traits.isEqu = l.isEQU ∧ entry.traits.isDefl = l.isDEFL ∧
      entry.traits.isSmc = decide (l.smcOffset ≠ 0) ∧ entry.traits.isLocal = l.isLocal := by
    rw [htraits]
    exact ⟨rfl, rfl, rfl, rfl, rfl⟩
  obtain ⟨hhasSize, hequ, hdefl, hsmc, hlocal⟩ := hequal
  by_cases hsized : entry.traits.hasSize = true
  · by_cases hspecial : (entry.traits.isEqu || entry.traits.isDefl || entry.traits.isSmc) = true
    · -- no size for these labels
      have hnone : tracked s (.label l) = none := by
        rw [tracked, if_neg]
        rw [hequ, hdefl, hsmc] at hspecial
        simp only [Bool.or_eq_true, decide_eq_true_eq] at hspecial
        simp only [Bool.and_eq_true, Bool.not_eq_true', decide_eq_true_eq]
        rintro ⟨⟨⟨-, hequ⟩, hdefl⟩, hsmc⟩
        simp [hequ, hdefl, hsmc] at hspecial
      rw [if_pos hsized, trackForSize, if_pos hspecial] at hstep
      exact of_boundary h _ hfront hplace.phAddress hlevels
        (hstep ▸ .of_symbols rfl rfl rfl rfl) (hstep ▸ rfl) hnone
    · rw [if_pos hsized, trackForSize, if_neg hspecial] at hstep
      have hitem : (⟨l.tp, u.sourceBlockLevel + entry.traits.isLocal.toInt⟩ : SizeofStackItem)
          = ⟨l.tp, s.sourceBlockLevel + l.isLocal.toInt⟩ := by
        rw [hlocal, hplaceU.sourceBlockLevel]
      rw [hequ, hdefl, hsmc] at hspecial
      simp only [Bool.or_eq_true, decide_eq_true_eq, not_or, Bool.not_eq_true, not_not] at hspecial
      obtain ⟨⟨hequ, hdefl⟩, hsmc⟩ := hspecial
      have hsome : tracked s (.label l)
          = some ⟨l.tp, s.sourceBlockLevel + l.isLocal.toInt, s.phAddress⟩ := by
        rw [tracked, ← hhasSize, hsized, hequ, hdefl, hsmc]
        rfl
      have hfound : Found u ⟨l.tp, s.sourceBlockLevel + l.isLocal.toInt, s.phAddress⟩ := by
        rw [find, Option.filter_eq_some_iff] at hentry
        obtain ⟨haddress, hpass⟩ := hvalue hdefl
        refine ⟨entry, hentry.1, hentry.2, haddress, ?_, by rwa [hplaceU.pass]⟩
        rw [htraits]
        exact hdefl
      exact of_push h _ hfront hplace.phAddress hlevels hfound hsome (decide_eq_true le_rfl)
        (hstep.trans (congrArg (fun item => { u with sizeofStack := item :: u.sizeofStack }) hitem))
  · have hnone : tracked s (.label l) = none := by
      rw [tracked, if_neg]
      rw [← hhasSize]
      simp [hsized]
    rw [if_neg hsized] at hstep
    exact of_boundary h _ hfront hplace.phAddress hlevels (hstep ▸ hkept) (hstep ▸ rfl) hnone

/-- **What an event does to the tracked labels.** -/
theorem step (h : Tracks s labels) (hsteady : steady s e = true) (hinstance : noInstance s e = true)
    (hclosable : closable s e = true) : StepTracks s labels e := by
  have hrefl : ∀ u : SizeofState, KeepsTracked u u := fun _ => .of_symbols rfl rfl rfl rfl
  -- one case for each event: those that are boundaries, and those that keep the labels
  cases e with
  | label l => exact label h l hsteady
  | structInstance l =>
    refine of_keep h (keepsTracked_emitlab l).1 (fun other hother => ?_) rfl
    rw [noInstance, Bool.and_eq_true, List.all_eq_true] at hinstance
    have hbelow := hinstance.1 other.item (h.stack ▸ List.mem_map_of_mem hother)
    exact decide_eq_false (not_le.mpr (of_decide_eq_true hbelow))
  | tag isLocal =>
    exact of_boundary h (if isLocal then .locals else .main) (hrefl s) rfl
      (fun level => (s.closesAt_localOrMain isLocal level).symm) (hrefl _) rfl rfl
  | sizeOf name => exact of_keep h (keepsTracked_getLabelSize name).1 (fun _ _ => rfl) rfl
  | org val =>
    have hbehind : ∀ t, (if s.pseudoORG = .none then s.sizeBoundary .all else s) = t →
        KeepsTracked t ((SourceEvent.org val).step s) ∧
          ((SourceEvent.org val).step s).symbols = t.symbols := by
      rintro _ rfl
      cases val <;> exact ⟨.of_symbols rfl rfl rfl rfl, rfl⟩
    -- an `ORG` within a displacement is no boundary
    by_cases hdisp : s.pseudoORG = .none
    · obtain ⟨hkeep, hsymbols⟩ := hbehind _ (if_pos hdisp)
      exact of_boundary h .all (hrefl s) rfl (fun _ => decide_eq_true hdisp) hkeep hsymbols rfl
    · exact of_keep h (hbehind _ (if_neg hdisp)).1 (fun _ _ => decide_eq_false hdisp) rfl
  | mmuAddress address =>
    exact of_boundary h .all (hrefl s) rfl (fun _ => rfl) (.of_symbols rfl rfl rfl rfl) rfl rfl
  | wrapAround => exact of_boundary h .flow (hrefl s) rfl (fun _ => rfl) (hrefl _) rfl rfl
  | move => exact of_keep h (.of_symbols rfl rfl rfl rfl) (fun _ _ => rfl) rfl
  | openFile | openMacro => exact of_keep h (.of_symbols rfl rfl rfl rfl) (fun _ _ => rfl) rfl
  | closeFile | closeMacro =>
    exact of_boundary h .main (hrefl s) rfl (fun _ => rfl) (.of_symbols rfl rfl rfl rfl) rfl rfl
  | dirMODULE name =>
    have hbehind : KeepsTracked (s.sizeBoundary .all) ((SourceEvent.dirMODULE name).step s) ∧
        ((SourceEvent.dirMODULE name).step s).symbols = (s.sizeBoundary .all).symbols := by
      show KeepsTracked _ (s.dirMODULE name) ∧ (s.dirMODULE name).symbols = _
      unfold dirMODULE
      cases name with
      | none => exact ⟨.of_symbols rfl rfl rfl rfl, rfl⟩
      | some n => dsimp only; split_ifs <;> exact ⟨.of_symbols rfl rfl rfl rfl, rfl⟩
    exact of_boundary h .all (hrefl s) rfl (fun _ => rfl) hbehind.1 hbehind.2 rfl
  | dirENDMODULE =>
    have hstep : SourceEvent.dirENDMODULE.step s = { s.sizeBoundary .main with
        sourceBlockLevel := (s.sizeBoundary .main).sourceBlockLevel - 2
        moduleName := parentModule (s.sizeBoundary .main).moduleName } :=
      if_neg (of_decide_eq_true hclosable)
    exact of_boundary h .main (hrefl s) rfl (fun _ => rfl) (hstep ▸ .of_symbols rfl rfl rfl rfl)
      (hstep ▸ rfl) rfl
  | startSource =>
    exact of_boundary (t := { s with sourceBlockLevel := -2 }) h .flow (.of_symbols rfl rfl rfl rfl)
      rfl (fun _ => rfl) (hrefl _) rfl rfl

end StepTracks

/-! ### Sizes in the table -/

/-- The table has the sizes that boundaries have set last. -/
def SizesKept (s : SizeofState) : Prop :=
  ∀ name size, s.sizes.reverse.lookup name = some size →
    (s.symbols name).map (·.size) = some size

/-- Nothing happens to the sizes that have been set. -/
structure KeepsSizes (s t : SizeofState) : Prop where
  sizes : t.sizes = s.sizes
  symbols : ∀ name ∈ s.sizes.map Prod.fst, ∀ size,
    (s.symbols name).map (·.size) = some size → (t.symbols name).map (·.size) = some size

namespace KeepsSizes

variable {s t u : SizeofState}

theorem of_symbols (hsymbols : t.symbols = s.symbols) (hsizes : t.sizes = s.sizes) :
    KeepsSizes s t where
  sizes := hsizes
  symbols name _ size h := by rwa [hsymbols]

theorem trans (h : KeepsSizes s t) (h' : KeepsSizes t u) : KeepsSizes s u where
  sizes := h'.sizes.trans h.sizes
  symbols name hname size hsize :=
    h'.symbols name (h.sizes ▸ hname) size (h.symbols name hname size hsize)

/-- An entry gets another size only when none has been set for it. -/
theorem setSymbol {name : Text} {label : SizedLabel}
    (h : name ∈ s.sizes.map Prod.fst → ∀ size, (s.symbols name).map (·.size) = some size →
      label.size = size) : KeepsSizes s (s.setSymbol name label) where
  sizes := rfl
  symbols other hother size hsize := by
    by_cases hname : other = name
    · subst hname
      have hentry : (s.setSymbol other label).symbols other = some label := if_pos rfl
      rw [hentry, Option.map_some, h hother size hsize]
    · have hentry : (s.setSymbol name label).symbols other = s.symbols other := if_neg hname
      rwa [hentry]

/-- An entry changes, but not its size. -/
theorem setSymbol_of_size {name : Text} {label label' : SizedLabel}
    (hlabel : s.symbols name = some label) (hsize : label'.size = label.size) :
    KeepsSizes s (s.setSymbol name label') :=
  setSymbol fun _ size h => by
    rw [hlabel] at h
    exact hsize.trans (Option.some.inj h)

/-- A new entry. -/
theorem setSymbol_of_none {name : Text} {label : SizedLabel} (h : s.symbols name = none) :
    KeepsSizes s (s.setSymbol name label) :=
  setSymbol fun _ size hsize => by
    rw [h] at hsize
    cases hsize

theorem keep (h : KeepsSizes s t) (hkept : SizesKept s) : SizesKept t := by
  intro name size hlast
  rw [h.sizes] at hlast
  refine h.symbols name ?_ size (hkept name size hlast)
  obtain ⟨front, back, hsplit, -⟩ := List.lookup_eq_some_iff.mp hlast
  have hmem : (name, size) ∈ s.sizes.reverse := by
    rw [hsplit]
    exact List.mem_append_right _ List.mem_cons_self
  exact List.mem_map_of_mem (List.mem_reverse.mp hmem)

end KeepsSizes

/-- A boundary sets the sizes that it logs. -/
theorem SizeofState.SetSizes.sizesKept {s t : SizeofState} {items : List SizeofStackItem}
    (h : SetSizes s items t) (hkept : SizesKept s) : SizesKept t := by
  intro name size hlast
  rw [h.sizes, List.reverse_append, List.lookup_append] at hlast
  rcases hset : (items.filterMap s.sizeOfItem).reverse.lookup name with _ | last
  · -- the size is an earlier one, and none of the labels is this one
    rw [hset, Option.none_or] at hlast
    obtain ⟨label, hlabel, hsize⟩ := Option.map_eq_some_iff.mp (hkept name size hlast)
    have hnot : name ∉ items.map (·.label) := by
      intro hname
      obtain ⟨item, hitem, rfl⟩ := List.mem_map.mp hname
      have hlog : (item.label, s.phAddress - label.phValue) ∈
          (items.filterMap s.sizeOfItem).reverse :=
        List.mem_reverse.mpr (List.mem_filterMap.mpr ⟨item, hitem, by rw [sizeOfItem, hlabel]; rfl⟩)
      exact absurd (List.lookup_eq_none_iff.mp hset _ hlog) (by simp)
    rw [h.symbols, hlabel, Option.map_some, if_neg hnot, Option.map_some, hsize]
  · rw [hset, Option.some_or] at hlast
    obtain rfl := Option.some.inj hlast
    obtain ⟨front, back, hsplit, -⟩ := List.lookup_eq_some_iff.mp hset
    have hmem : (name, last) ∈ items.filterMap s.sizeOfItem := by
      rw [← List.mem_reverse, hsplit]
      exact List.mem_append_right _ List.mem_cons_self
    obtain ⟨item, hitem, hsized⟩ := List.mem_filterMap.mp hmem
    rw [sizeOfItem, Option.map_eq_some_iff] at hsized
    obtain ⟨label, hlabel, hpair⟩ := hsized
    obtain ⟨rfl, rfl⟩ := Prod.mk.inj hpair
    rw [h.symbols, hlabel, Option.map_some, if_pos (List.mem_map_of_mem hitem)]
    rfl

namespace SizeofState

variable {s : SizeofState}

theorem keepsSizes_insert {t : SizeofState} {name : Text} {value : Aint} {traits : SizeTraits}
    (h : s.insert name value traits = some t) : KeepsSizes s t := by
  unfold insert at h
  rcases hlabel : s.symbols name with _ | label
  · rw [hlabel] at h
    exact Option.some.inj h ▸ .setSymbol_of_none hlabel
  · rw [hlabel] at h
    dsimp only at h
    split_ifs at h
    exact Option.some.inj h ▸ .setSymbol_of_size hlabel rfl

/-- `Insert`, or what is done without it. -/
theorem keepsSizes_getD_insert {name : Text} {value : Aint} {traits : SizeTraits} {t : SizeofState}
    (ht : KeepsSizes s t) : KeepsSizes s ((s.insert name value traits).getD t) := by
  rcases h : s.insert name value traits with _ | u
  · exact ht
  · exact keepsSizes_insert h

theorem keepsSizes_refl (s : SizeofState) : KeepsSizes s s := .of_symbols rfl rfl

theorem keepsSizes_update (name : Text) (value : Aint) : KeepsSizes s (s.update name value) := by
  unfold update
  rcases h : s.symbols name with _ | label
  · exact keepsSizes_refl s
  · exact .setSymbol_of_size h rfl

/-- The last pass compares the value with the one in the table. -/
theorem keepsSizes_compare (l : ParsedLabel) (val : Aint) :
    KeepsSizes s (match s.symbols l.tp with
      | none => (s, true)
      | some label =>
        if val ≠ label.value then
          ((s.warning "Label has different value in pass 3").update l.tp val, true)
        else (s.setSymbol l.tp { label with updatePass := s.pass }, true)).1 := by
  rcases hlabel : s.symbols l.tp with _ | label
  · exact keepsSizes_refl s
  · dsimp only
    split_ifs
    · have hwarning : KeepsSizes s (s.warning "Label has different value in pass 3") :=
        .of_symbols rfl rfl
      exact hwarning.trans (keepsSizes_update l.tp val)
    · exact .setSymbol_of_size hlabel rfl

/-- The last pass sets no sizes when it checks a label. -/
theorem keepsSizes_checkLabel (l : ParsedLabel) (val : Aint) :
    KeepsSizes s (s.checkLabel l val).1 := by
  -- what a `DEFL` inserts
  have hdefl : ∀ (u : SizeofState) (c : Bool), KeepsSizes u
      (if c then (u.insert l.tp val l.traits).getD u else u) := by
    intro u c
    cases c
    · exact keepsSizes_refl u
    · exact keepsSizes_getD_insert (keepsSizes_refl u)
  have hfirst := hdefl s ((s.find l.tp).isNone && l.isDEFL)
  unfold checkLabel
  dsimp only
  set t := if (s.find l.tp).isNone && l.isDEFL then (s.insert l.tp val l.traits).getD s else s
  by_cases hnone : (t.find l.tp).isNone = true
  · rw [if_pos hnone]
    exact hfirst.trans (.of_symbols rfl rfl)
  · rw [if_neg hnone]
    exact (hfirst.trans (hdefl t l.isDEFL)).trans (keepsSizes_compare l val)

theorem keepsSizes_storeLabel (l : ParsedLabel) : KeepsSizes s (s.storeLabel l).1 := by
  unfold storeLabel
  dsimp only
  split_ifs
  · exact keepsSizes_checkLabel l _
  · rcases h : s.insert l.tp (s.labelValue l) l.traits with _ | t
    · dsimp only
      exact keepsSizes_update _ _
    · exact keepsSizes_insert h
  · rcases h : s.insert l.tp (s.labelValue l) l.traits with _ | t
    · exact .of_symbols rfl rfl
    · exact keepsSizes_insert h

theorem keepsSizes_insertSingleStructLabel (fullName : Text) (isLocal : Bool) (value : Aint) :
    KeepsSizes s (s.insertSingleStructLabel fullName isLocal value) := by
  unfold insertSingleStructLabel
  split_ifs
  · rcases s.find fullName with _ | label
    · exact .of_symbols rfl rfl
    · dsimp only
      split_ifs <;> exact .of_symbols rfl rfl
  · exact keepsSizes_getD_insert (.of_symbols rfl rfl)

/-- An instance of a structure only sets the size of the label that is written like its own. -/
theorem keepsSizes_emitlab {l : StructInstance} (h : l.iid ∉ s.sizes.map Prod.fst) :
    KeepsSizes s (s.emitlab l) := by
  have hmembers : ∀ (members : List (Text × Aint)) (u : SizeofState),
      KeepsSizes u (members.foldl (fun s member => s.insertSingleStructLabel
        (l.fullName ++ '.' :: member.1) l.isLocal (member.2 + l.address)) u) := by
    intro members
    induction members with
    | nil => exact fun u => keepsSizes_refl u
    | cons member members ih =>
      exact fun u => (keepsSizes_insertSingleStructLabel _ _ _).trans (ih _)
  have hlabels := (keepsSizes_insertSingleStructLabel (s := s) l.fullName l.isLocal
    l.address).trans (hmembers l.members _)
  unfold emitlab
  dsimp only
  split
  · exact hlabels
  · refine hlabels.trans (.setSymbol fun hname => absurd hname ?_)
    rwa [hlabels.sizes]

theorem keepsSizes_getLabelSize (name : Text) : KeepsSizes s (s.getLabelSize name) := by
  unfold getLabelSize
  rcases h : s.symbols name with _ | label
  · exact keepsSizes_getD_insert (keepsSizes_refl s)
  · exact .setSymbol_of_size h rfl

theorem keepsSizes_trackForSize (name : Text) (label : SizedLabel) :
    KeepsSizes s (s.trackForSize name label) := by
  unfold trackForSize
  split_ifs <;> exact .of_symbols rfl rfl

theorem sizesKept_sizeBoundary (h : SizesKept s) (kind : BoundaryLevel) :
    SizesKept (s.sizeBoundary kind) := (setSizes_sizeBoundary s kind).1.sizesKept h

end SizeofState

/-- **What an event does to the sizes in the table**: only a boundary sets them, and an instance of a
structure that is written like a label with a size. -/
theorem SizesKept.step {s : SizeofState} {e : SourceEvent} (h : SizesKept s)
    (hinstance : noInstance s e = true) : SizesKept (e.step s) := by
  -- one case for each event; most of them are a boundary and a change of the place
  cases e with
  | label l =>
    have hstored := (keepsSizes_storeLabel l).keep h
    show SizesKept (s.defineLabel l)
    unfold defineLabel
    dsimp only
    by_cases hfound : (!(s.storeLabel l).2) = true
    · rwa [if_pos hfound]
    rw [if_neg hfound]
    have hboundary := sizesKept_sizeBoundary hstored (if l.isLocal then .locals else .main)
    split
    · exact hboundary
    · rename_i label _
      by_cases hsized : label.traits.hasSize = true
      · rw [if_pos hsized]
        exact (keepsSizes_trackForSize _ _).keep hboundary
      · rwa [if_neg hsized]
  -- an instance that would reset a size is excluded
  | structInstance l =>
    rw [noInstance, Bool.and_eq_true, List.all_eq_true, List.all_eq_true] at hinstance
    refine (keepsSizes_emitlab fun hname => ?_).keep h
    obtain ⟨size, hsize, heq⟩ := List.mem_map.mp hname
    exact of_decide_eq_true (hinstance.2 size hsize) heq
  | tag isLocal => exact sizesKept_sizeBoundary h _
  | sizeOf name => exact (keepsSizes_getLabelSize name).keep h
  | org val =>
    have hboundary : SizesKept (if s.pseudoORG = .none then s.sizeBoundary .all else s) := by
      split_ifs
      · exact sizesKept_sizeBoundary h .all
      · exact h
    cases val <;> exact KeepsSizes.keep (.of_symbols rfl rfl) hboundary
  | mmuAddress address =>
    exact KeepsSizes.keep (.of_symbols rfl rfl) (sizesKept_sizeBoundary h .all)
  | wrapAround => exact sizesKept_sizeBoundary h .flow
  | move | openFile | openMacro => exact KeepsSizes.keep (.of_symbols rfl rfl) h
  | closeFile | closeMacro =>
    exact KeepsSizes.keep (.of_symbols rfl rfl) (sizesKept_sizeBoundary h .main)
  | dirMODULE name =>
    have hboundary := sizesKept_sizeBoundary h .all
    show SizesKept (s.dirMODULE name)
    unfold dirMODULE
    cases name with
    | none => exact KeepsSizes.keep (.of_symbols rfl rfl) hboundary
    | some n =>
      dsimp only
      split_ifs <;> exact KeepsSizes.keep (.of_symbols rfl rfl) hboundary
  | dirENDMODULE =>
    show SizesKept s.dirENDMODULE
    unfold dirENDMODULE
    split_ifs
    · exact KeepsSizes.keep (.of_symbols rfl rfl) h
    · exact KeepsSizes.keep (.of_symbols rfl rfl) (sizesKept_sizeBoundary h .main)
  | startSource =>
    exact sizesKept_sizeBoundary (s := { s with sourceBlockLevel := -2 })
      (KeepsSizes.keep (.of_symbols rfl rfl) h) .flow

/-! ### Runs -/

namespace SizeofState

variable (s : SizeofState)

theorem run_append (events events' : List SourceEvent) :
    s.run (events ++ events') = (s.run events).run events' := List.foldl_append

theorem run_concat (events : List SourceEvent) (e : SourceEvent) :
    s.run (events ++ [e]) = e.step (s.run events) := List.foldl_concat ..

end SizeofState

theorem along_append (p : SizeofState → SourceEvent → Bool) (s : SizeofState)
    (events events' : List SourceEvent) :
    along p s (events ++ events') = (along p s events && along p (s.run events) events') := by
  induction events generalizing s with
  | nil => rfl
  | cons e events ih =>
    rw [List.cons_append, along, along, ih, Bool.and_assoc]
    rfl

theorem along_initial {p : SizeofState → SourceEvent → Bool} {s : SizeofState}
    {before events : List SourceEvent} (h : along p s events = true) (hbefore : before <+: events) :
    along p s before = true := by
  obtain ⟨rest, rfl⟩ := hbefore
  rw [along_append, Bool.and_eq_true] at h
  exact h.1

theorem turns_concat (B : Boundary) (s : SizeofState) (events : List SourceEvent) (e : SourceEvent) :
    turns B s (events ++ [e]) = turns B s events ++ [⟨B (s.run events) e, tracked (s.run events) e⟩] := by
  induction events generalizing s with
  | nil => rfl
  | cons first events ih =>
    rw [List.cons_append, turns, ih]
    rfl

theorem openLabels_concat (B : Boundary) (s : SizeofState) (events : List SourceEvent)
    (e : SourceEvent) : openLabels B s (events ++ [e])
      = (tracked (s.run events) e).toList ++
        (openLabels B s events).filter fun l => !B (s.run events) e l.level := by
  rw [openLabels, turns_concat, Levels.openAfter_concat]
  rfl

theorem tracks_nil {s : SizeofState} (h : s.sizeofStack = []) : Tracks s [] :=
  ⟨h, List.Pairwise.nil, fun _ hl => by cases hl⟩

/-- **In every run** the stack holds the labels without a later boundary. -/
theorem tracks_run {s : SizeofState} {events : List SourceEvent} (hstart : s.sizeofStack = [])
    (hsteady : along steady s events = true) (hinstance : along noInstance s events = true)
    (hclosable : along closable s events = true) :
    Tracks (s.run events) (openLabels boundary s events) := by
  induction events using List.reverseRecOn with
  | nil => exact tracks_nil hstart
  | append_singleton events e ih =>
    simp only [along_append, Bool.and_eq_true, along, and_true] at hsteady hinstance hclosable
    rw [SizeofState.run_concat, openLabels_concat]
    exact (StepTracks.step (ih hsteady.1 hinstance.1 hclosable.1) hsteady.2 hinstance.2
      hclosable.2).tracks

/-- **In every run** the table keeps the sizes. -/
theorem sizesKept_run {s : SizeofState} {events : List SourceEvent} (hstart : SizesKept s)
    (hinstance : along noInstance s events = true) : SizesKept (s.run events) := by
  induction events using List.reverseRecOn with
  | nil => exact hstart
  | append_singleton events e ih =>
    simp only [along_append, Bool.and_eq_true, along, and_true] at hinstance
    rw [SizeofState.run_concat]
    exact (ih hinstance.1).step hinstance.2

/-! ### Nested blocks -/

/-- The level and the labels on the stack are not below a level. -/
structure Above (base : Int) (s : SizeofState) : Prop where
  level : base ≤ s.sourceBlockLevel
  labels : ∃ labels, Tracks s labels ∧ ∀ l ∈ labels, base ≤ l.level

theorem Above.step {base : Int} {s : SizeofState} {e : SourceEvent} (h : Above base s)
    (hsteady : steady s e = true) (hinstance : noInstance s e = true)
    (hclosable : closable s e = true) (hlevel : base ≤ (e.step s).sourceBlockLevel) :
    Above base (e.step s) := by
  obtain ⟨labels, htracks, hlabels⟩ := h.labels
  refine ⟨hlevel, _, (StepTracks.step htracks hsteady hinstance hclosable).tracks, fun l hl => ?_⟩
  rcases List.mem_append.mp hl with hl | hl
  · have htracked : tracked s e = some l := by simpa using hl
    have hbase := h.level
    cases e with
    | label other =>
      rw [tracked] at htracked
      split_ifs at htracked
      obtain rfl := Option.some.inj htracked
      have : 0 ≤ other.isLocal.toInt := by cases other.isLocal <;> decide
      show base ≤ s.sourceBlockLevel + other.isLocal.toInt
      omega
    | _ => cases htracked
  · exact hlabels l (List.mem_of_mem_filter hl)

/-- A boundary leaves the level and the module. -/
theorem samePlace_sizeBoundary (s : SizeofState) (kind : BoundaryLevel) :
    SamePlace s (s.sizeBoundary kind) := (setSizes_sizeBoundary s kind).1.toSamePlace

theorem samePlace_trackForSize (s : SizeofState) (name : Text) (label : SizedLabel) :
    SamePlace s (s.trackForSize name label) := by
  unfold trackForSize
  split_ifs <;> exact ⟨rfl, rfl, rfl, rfl, rfl, rfl⟩

/-- A line leaves the level and the module. -/
theorem samePlace_line {s : SizeofState} {e : SourceEvent} (hline : e.isLine = true)
    (hsteady : steady s e = true) : (e.step s).sourceBlockLevel = s.sourceBlockLevel ∧
      (e.step s).moduleName = s.moduleName := by
  have hplace : ∀ t, SamePlace s t → t.sourceBlockLevel = s.sourceBlockLevel ∧
      t.moduleName = s.moduleName := fun t h => ⟨h.sourceBlockLevel, h.moduleName⟩
  -- the events of a line; the starts and ends of blocks are none of them
  cases e with
  | label l =>
    obtain ⟨t, ht, hstored⟩ := stored_storeLabel hsteady
    have hboundary := hstored.toSamePlace.trans
      (samePlace_sizeBoundary t (if l.isLocal then .locals else .main))
    show (s.defineLabel l).sourceBlockLevel = _ ∧ (s.defineLabel l).moduleName = _
    rw [defineLabel, ht]
    dsimp only
    rw [Bool.not_true, if_neg Bool.false_ne_true]
    split
    · exact hplace _ hboundary
    · rename_i label _
      by_cases hsized : label.traits.hasSize = true
      · rw [if_pos hsized]
        exact hplace _ (hboundary.trans (samePlace_trackForSize _ _ _))
      · rw [if_neg hsized]
        exact hplace _ hboundary
  | structInstance l => exact hplace _ (keepsTracked_emitlab l).2
  | tag isLocal => exact hplace _ (samePlace_sizeBoundary s _)
  | sizeOf name => exact hplace _ (keepsTracked_getLabelSize name).2
  | org val =>
    have hboundary := samePlace_sizeBoundary s .all
    show (s.dirORG val).sourceBlockLevel = _ ∧ (s.dirORG val).moduleName = _
    unfold dirORG
    split_ifs <;> cases val
    · exact ⟨hboundary.sourceBlockLevel, hboundary.moduleName⟩
    · exact ⟨hboundary.sourceBlockLevel, hboundary.moduleName⟩
    · exact ⟨rfl, rfl⟩
    · exact ⟨rfl, rfl⟩
  | mmuAddress address =>
    have hboundary := samePlace_sizeBoundary s .all
    exact ⟨hboundary.sourceBlockLevel, hboundary.moduleName⟩
  | wrapAround => exact hplace _ (samePlace_sizeBoundary s _)
  | move => exact ⟨rfl, rfl⟩
  | _ => cases hline

/-- The name of a module is cut off again. -/
theorem parentModule_append {moduleName name : Text} (h : '.' ∉ name) :
    parentModule (moduleName ++ '.' :: name) = moduleName := by
  have hname : ∀ c ∈ name.reverse, decide (c ≠ '.') = true := by
    intro c hc
    exact decide_eq_true fun hdot => h (List.mem_reverse.mp (hdot ▸ hc))
  rw [parentModule, List.reverse_append, List.reverse_cons, List.append_assoc,
    List.dropWhile_append_of_pos hname]
  simp

theorem parentModule_self {name : Text} (h : '.' ∉ name) : parentModule name = [] := by
  have hname : ∀ c ∈ name.reverse, decide (c ≠ '.') = true := by
    intro c hc
    exact decide_eq_true fun hdot => h (List.mem_reverse.mp (hdot ▸ hc))
  rw [parentModule, List.dropWhile_eq_nil_iff.mpr hname]
  rfl

/-- **The start and the end of a block** match: the end finds the module, and restores the level and
the name. -/
theorem block_restores {b : SourceBlock} (hb : b.Valid) (s : SizeofState) :
    (b.start.step s).sourceBlockLevel = s.sourceBlockLevel + 2 ∧
      ∀ u : SizeofState, u.moduleName = (b.start.step s).moduleName →
        closable u b.stop = true ∧ (b.stop.step u).sourceBlockLevel = u.sourceBlockLevel - 2 ∧
          (b.stop.step u).moduleName = s.moduleName := by
  -- a file and a macro count the level, a module also has its name
  cases b with
  | file | expansion =>
    refine ⟨rfl, fun u hu => ⟨rfl, ?_⟩⟩
    have hboundary := samePlace_sizeBoundary u .main
    exact ⟨congrArg (· - 2) hboundary.sourceBlockLevel, hboundary.moduleName.trans hu⟩
  | module name =>
    obtain ⟨hname, hdots⟩ := hb
    have hboundary := samePlace_sizeBoundary s .all
    have hstart : (SourceBlock.module name).start.step s = { s.sizeBoundary .all with
        sourceBlockLevel := (s.sizeBoundary .all).sourceBlockLevel + 2
        moduleName := if (s.sizeBoundary .all).moduleName = [] then name
          else (s.sizeBoundary .all).moduleName ++ '.' :: name } := if_neg hdots
    rw [hstart]
    refine ⟨congrArg (· + 2) hboundary.sourceBlockLevel, fun u hu => ?_⟩
    dsimp only at hu
    rw [hboundary.moduleName] at hu
    -- the name without its last part is the one from before, as the part has no dot
    have hparent : parentModule u.moduleName = s.moduleName := by
      rw [hu]
      split_ifs with hempty
      · rw [hempty, parentModule_self hdots]
      · exact parentModule_append hdots
    have hsome : u.moduleName ≠ [] := by
      rw [hu]
      split_ifs
      · exact hname
      · simp
    have hstop : (SourceBlock.module name).stop.step u = { u.sizeBoundary .main with
        sourceBlockLevel := (u.sizeBoundary .main).sourceBlockLevel - 2
        moduleName := parentModule (u.sizeBoundary .main).moduleName } := if_neg hsome
    have hend := samePlace_sizeBoundary u .main
    rw [hstop]
    exact ⟨decide_eq_true hsome, congrArg (· - 2) hend.sourceBlockLevel,
      by rw [hend.moduleName, hparent]⟩

/-- **Lines with nested blocks** keep the level and the module, and every `ENDMODULE` in them finds its
module. -/
theorem Balanced.run {events : List SourceEvent} (h : Balanced events) {base : Int} {s : SizeofState}
    (habove : Above base s) (hsteady : along steady s events = true)
    (hinstance : along noInstance s events = true) : Above base (s.run events) ∧
      (s.run events).sourceBlockLevel = s.sourceBlockLevel ∧
      (s.run events).moduleName = s.moduleName ∧ along closable s events = true := by
  induction h generalizing s with
  | nil => exact ⟨habove, rfl, rfl, rfl⟩
  | @line e events he _ ih =>
    rw [along, Bool.and_eq_true] at hsteady hinstance
    have hclosable : closable s e = true := by
      cases e <;> first | rfl | cases he
    obtain ⟨hlevel, hmodule⟩ := samePlace_line he hsteady.1
    have hstep := habove.step hsteady.1 hinstance.1 hclosable (by rw [hlevel]; exact habove.level)
    obtain ⟨hrun, hrunLevel, hrunModule, hall⟩ := ih hstep hsteady.2 hinstance.2
    refine ⟨hrun, hrunLevel.trans hlevel, hrunModule.trans hmodule, ?_⟩
    rw [along, hclosable, hall]
    rfl
  | @block b body events hb _ _ ihbody ihevents =>
    rw [along, Bool.and_eq_true, along_append, Bool.and_eq_true, along, Bool.and_eq_true]
      at hsteady hinstance
    obtain ⟨hstart, hrestores⟩ := block_restores hb s
    have hopen : closable s b.start = true := by cases b <;> rfl
    have hlevel := habove.level
    -- the start, the lines of the block, its end
    have hfront := habove.step hsteady.1 hinstance.1 hopen (by omega)
    obtain ⟨hbody, hbodyLevel, hbodyModule, hbodyAll⟩ := ihbody hfront hsteady.2.1 hinstance.2.1
    obtain ⟨hclosable, hstop, hmodule⟩ := hrestores _ hbodyModule
    have hbehind := hbody.step hsteady.2.2.1 hinstance.2.2.1 hclosable (by omega)
    obtain ⟨hrun, hrunLevel, hrunModule, hall⟩ := ihevents hbehind hsteady.2.2.2 hinstance.2.2.2
    have hsplit : s.run (b.start :: (body ++ b.stop :: events))
        = (b.stop.step ((b.start.step s).run body)).run events :=
      (b.start.step s).run_append body (b.stop :: events)
    rw [hsplit]
    refine ⟨hrun, by omega, hrunModule.trans hmodule, ?_⟩
    rw [along, hopen, along_append, hbodyAll, along, hclosable, hall]
    rfl

/-- **A file of the command line** leaves nothing on the stack. -/
theorem run_sourceEvents {s : SizeofState} {labels : List TrackedLabel} {body : List SourceEvent}
    (h : Tracks s labels) (hbody : Balanced body)
    (hsteady : along steady s (sourceEvents body) = true)
    (hinstance : along noInstance s (sourceEvents body) = true) :
    (s.run (sourceEvents body)).sizeofStack = [] ∧ along closable s (sourceEvents body) = true := by
  rw [sourceEvents, along, along, along_append, along] at hsteady hinstance ⊢
  simp only [Bool.and_eq_true] at hsteady hinstance
  -- the reset closes whatever is left of the file before
  have hreset := (StepTracks.step h hsteady.1 hinstance.1 rfl).tracks
  have hnone : (labels.filter fun l => !boundary s .startSource l.level) = [] :=
    List.filter_eq_nil_iff.mpr fun _ _ => Bool.false_ne_true
  have hplace := samePlace_sizeBoundary { s with sourceBlockLevel := -2 } .flow
  set t := SourceEvent.startSource.step s
  have hlevel : t.sourceBlockLevel = -2 := hplace.sourceBlockLevel
  set u := SourceEvent.openFile.step t
  have hopen : u.sourceBlockLevel = 0 := by
    show t.sourceBlockLevel + 2 = 0
    rw [hlevel]
    rfl
  have hstack : u.sizeofStack = [] := by
    have hempty := hreset.stack
    rwa [hnone] at hempty
  have habove : Above 0 u := ⟨hopen.ge, [], tracks_nil hstack, fun _ hl => by cases hl⟩
  obtain ⟨⟨-, left, hleft, hlevels⟩, hend, -, hall⟩ := hbody.run habove hsteady.2.2.1 hinstance.2.2.1
  have hlast := (StepTracks.step hleft hsteady.2.2.2.1 hinstance.2.2.2.1 rfl).tracks.stack
  have hclosed : (left.filter fun l => !boundary (u.run body) .closeFile l.level) = [] := by
    refine List.filter_eq_nil_iff.mpr fun l hl => ?_
    have hcloses : boundary (u.run body) .closeFile l.level = true :=
      decide_eq_true (by rw [hend, hopen]; exact hlevels l hl)
    rw [hcloses]
    exact Bool.false_ne_true
  constructor
  · have hsplit : s.run (.startSource :: .openFile :: (body ++ [.closeFile]))
        = SourceEvent.closeFile.step (u.run body) := u.run_concat body .closeFile
    rw [hsplit, hlast, hclosed]
    rfl
  · rw [hall]
    rfl

theorem passEvents_cons (body : List SourceEvent) (sources : List (List SourceEvent)) :
    passEvents (body :: sources) = sourceEvents body ++ passEvents sources := List.flatMap_cons ..

/-- A pass over nested lines leaves nothing on the stack, and its modules match. -/
theorem run_passEvents {s : SizeofState} {sources : List (List SourceEvent)}
    (hstart : s.sizeofStack = []) (hsources : ∀ body ∈ sources, Balanced body)
    (hsteady : along steady s (passEvents sources) = true)
    (hinstance : along noInstance s (passEvents sources) = true) :
    (s.run (passEvents sources)).sizeofStack = [] ∧ along closable s (passEvents sources) = true := by
  induction sources generalizing s with
  | nil => exact ⟨hstart, rfl⟩
  | cons body sources ih =>
    rw [passEvents_cons, along_append, Bool.and_eq_true] at hsteady hinstance
    obtain ⟨hempty, hall⟩ := run_sourceEvents (tracks_nil hstart) (hsources body List.mem_cons_self)
      hsteady.1 hinstance.1
    obtain ⟨hlast, hrest⟩ := ih hempty (fun b hb => hsources b (List.mem_cons_of_mem _ hb))
      hsteady.2 hinstance.2
    rw [passEvents_cons, SizeofState.run_append, along_append, hall, hrest]
    exact ⟨hlast, rfl⟩

/-! ### Passes -/

/-- **The sizes of labels are tracked in every pass**: files, macros and modules are nested, the labels
are where the pass before has found them, and no instance of a structure gets a label while a label of
its level is tracked, or one that is written like the name of a label with its size. -/
theorem tracksSizes_pass {s : SizeofState} {sources : List (List SourceEvent)}
    (hstart : s.sizeofStack = []) (hsizes : s.sizes = [])
    (hsources : ∀ body ∈ sources, Balanced body)
    (hsteady : along steady s (passEvents sources) = true)
    (hinstance : along noInstance s (passEvents sources) = true) :
    TracksSizes boundary s sources := by
  obtain ⟨-, hclosable⟩ := run_passEvents hstart hsources hsteady hinstance
  -- the invariant holds behind every beginning of the pass
  have htracks : ∀ before, before <+: passEvents sources →
      Tracks (s.run before) (openLabels boundary s before) := fun before hbefore =>
    tracks_run hstart (along_initial hsteady hbefore) (along_initial hinstance hbefore)
      (along_initial hclosable hbefore)
  have hstep : ∀ before e, before ++ [e] <+: passEvents sources →
      StepTracks (s.run before) (openLabels boundary s before) e := by
    intro before e hbefore
    have hsteady := along_initial hsteady hbefore
    have hinstance := along_initial hinstance hbefore
    have hclosable := along_initial hclosable hbefore
    simp only [along_append, Bool.and_eq_true, along, and_true] at hsteady hinstance hclosable
    exact StepTracks.step (htracks before ((List.prefix_append _ _).trans hbefore)) hsteady.2
      hinstance.2 hclosable.2
  -- the properties of the tracking, each from the invariant or from its step
  refine ⟨fun before hbefore => (htracks before hbefore).stack, fun before hbefore => ?_,
    fun before hbefore l hl => ?_, fun before e hbefore => ?_, fun before e hbefore l hl => ?_,
    fun before hbefore => ?_, fun files hfiles => ?_⟩
  · rw [(htracks before hbefore).stack, List.pairwise_map]
    exact (htracks before hbefore).increasing
  · obtain ⟨label, hlabel, -, haddress, -⟩ := (htracks before hbefore).found l hl
    rw [hlabel, Option.map_some, haddress]
  · rw [SizeofState.run_concat]
    exact (hstep before e hbefore).sizes
  · rw [SizeofState.run_concat]
    exact (hstep before e hbefore).sized l hl
  -- no size is logged at the start of the pass
  · have hnone : SizesKept s := fun name size hlast => by
      rw [hsizes] at hlast
      cases hlast
    exact sizesKept_run hnone (along_initial hinstance hbefore)
  · have hinitial : passEvents files <+: passEvents sources := by
      obtain ⟨rest, rfl⟩ := hfiles
      exact ⟨passEvents rest, List.flatMap_append.symm⟩
    exact (run_passEvents hstart (fun body hbody => hsources body (hfiles.subset hbody))
      (along_initial hsteady hinitial) (along_initial hinstance hinitial)).1

/-- The last pass, which has found the labels `x`, `s`, `y` and `y.z` before. -/
def exampleSized : SizeofState where
  pass := 3
  symbols name :=
    if name = ['x'] then some ⟨0x8000, 0x8000, 0, true, { hasSize := true }, 2⟩
    else if name = ['s'] then some ⟨0x8001, 0x8001, 1, true, {}, 2⟩
    else if name = ['y'] then some ⟨0x8002, 0x8002, 0, true, { hasSize := true }, 2⟩
    else if name = ['y', '.', 'z'] then
      some ⟨0x8003, 0x8003, 0, true, { isLocal := true, hasSize := true }, 2⟩
    else none
  sizeofStack := []
  sourceBlockLevel := 0
  moduleName := []
  pseudoORG := .none
  curAddress := 0x8000
  adrdisp := 0
  log := []
  sizes := []

/-- `x: DISP 0xA000`, a byte, `ORG 0xB000`, one more byte, `ENT` and the tag `::`. -/
def displacedOrg : List SourceEvent :=
  [.label ⟨['x'], false, false, false, 0, 0⟩, .move .active 0xA000 0x8000,
    .move .active 0xA001 0x8001, .org (some 0xB000), .move .active 0xB001 0x8002,
    .move .none 0x8002 0x8002, .tag false]

theorem balanced_displacedOrg : Balanced displacedOrg :=
  .line rfl (.line rfl (.line rfl (.line rfl (.line rfl (.line rfl (.line rfl .nil))))))

/-- The label `x`, a byte, and a macro with an instance `s` of a structure of one byte and the labels `y`
and `.z`, with a byte behind each; then one more byte and the tag `::`. -/
def nestedLabels : List SourceEvent :=
  [.label ⟨['x'], false, false, false, 0, 0⟩, .move .none 0x8001 0, .openMacro,
    .structInstance ⟨['s'], ['s'], false, 0x8001, 1, []⟩, .move .none 0x8002 0,
    .label ⟨['y'], false, false, false, 0, 0⟩, .move .none 0x8003 0,
    .label ⟨['y', '.', 'z'], true, false, false, 0, 0⟩, .move .none 0x8004 0, .closeMacro,
    .move .none 0x8005 0, .tag false]

theorem balanced_nestedLabels : Balanced nestedLabels :=
  .line rfl (.line rfl (.block (show SourceBlock.expansion.Valid from trivial)
    (.line rfl (.line rfl (.line rfl (.line rfl (.line rfl (.line rfl .nil))))))
    (.line rfl (.line rfl .nil))))

theorem tracksSizes_nestedLabels : TracksSizes boundary exampleSized [nestedLabels] :=
  tracksSizes_pass rfl rfl (fun _ h => List.mem_singleton.mp h ▸ balanced_nestedLabels) (by decide)
    (by decide)

-- each label is counted up to the end of its own block
example : (exampleSized.run (passEvents [nestedLabels])).sizes
    = [(['y', '.', 'z'], 1), (['y'], 2), (['x'], 5)] := by decide

-- the two bytes around the displaced `ORG`
example : ((exampleSized.run (passEvents [displacedOrg])).symbols ['x']).map (·.size) = some 2 := by
  decide

/-- Every `ORG` as a boundary for all labels. -/
def anyOrgBoundary : Boundary := fun s e level => match e with
  | .org _ => true
  | e => boundary s e level

/-- **`ORG` in a displaced block** is no boundary: it moves the displacement only. -/
theorem not_tracksSizes_displacedOrg :
    ¬∀ (s : SizeofState) (sources : List (List SourceEvent)), s.sizeofStack = [] → s.sizes = [] →
      (∀ body ∈ sources, Balanced body) → along steady s (passEvents sources) = true →
      along noInstance s (passEvents sources) = true → TracksSizes anyOrgBoundary s sources := by
  intro h
  have htracks := h exampleSized [displacedOrg] rfl rfl
    (fun _ hbody => List.mem_singleton.mp hbody ▸ balanced_displacedOrg) (by decide) (by decide)
  have hstack := htracks.stack ((passEvents [displacedOrg]).take 6) (List.take_prefix _ _)
  exact absurd hstack (by decide)

end Sjasmplus
