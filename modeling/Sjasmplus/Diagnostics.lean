import Sjasmplus.Text

/-!
# Errors and warnings (`io_err.cpp`)

Every call of `Error`, `Warning` and `WarningById` is an `Event`.  Which of them are counted depends
on the pass: `Event.active` is the filter at the start of `Error` and of `Warning`.  An error that
passes it may still be skipped when an error was already counted on the same line, so a line counts
an error exactly when one of its events is an active error.
-/

namespace Sjasmplus

/-- `LASTPASS`. -/
def lastPass : Nat := 3

/-- `EStatus`: in which passes an error is reported, and what it does to later ones. -/
inductive EStatus
  | all | fatal | early | pass3 | ifFirst | suppress | pass03
deriving DecidableEq, Repr

/-- `EWStatus`: in which passes a warning is reported. -/
inductive EWStatus
  | all | early | pass3 | pass03
deriving DecidableEq, Repr

/-- The identified warnings (`W_…`) of the modelled code. -/
inductive WarningId
  | readLowMem | relDiverts | relUnstable | zeroDecimal | nonZeroDecimal | emptyString | fake
  | opKeyword | nexStack | relocatableAlign | displacedOrg | fileOrg | orgPage | sna48 | sna128
  | trdExtInvalid | trdExt3 | trdExtB | trdDuplicate
deriving DecidableEq, Repr

/-- One call of the message functions.  Two more effects are kept in the same order: `undefined` marks
an operation that the C++ standard leaves undefined, where the program reports nothing, and
`labelNotFound` is a look-up that sets `IsLabelNotFound` and may ask for a placeholder label. -/
inductive Event
  | error (message : String) (badValueMessage : Option Text) (type : EStatus)
  | warning (message : String) (badValueMessage : Option Text) (type : EWStatus)
  | warningById (id : WarningId) (badValueMessage : Option Text) (type : EWStatus)
  | undefined (operation : String)
  | labelNotFound (findName : Text) (placeholder : Bool)
deriving DecidableEq, Repr

/-- `Error` returns at once when its type is not for the current pass. -/
def EStatus.active (pass : Nat) : EStatus → Bool
  | .all | .fatal => true
  | .early => pass < lastPass
  | .suppress | .ifFirst | .pass3 => lastPass ≤ pass
  | .pass03 => pass = 0 || lastPass ≤ pass

/-- `isInactiveTypeInCurrentPass`, negated. -/
def EWStatus.active (pass : Nat) : EWStatus → Bool
  | .all => true
  | .early => pass < lastPass
  | .pass3 => lastPass ≤ pass
  | .pass03 => pass = 0 || lastPass ≤ pass

/-- The event is a call of `Error`, counted in this pass or not. -/
def Event.isErrorCall : Event → Bool
  | .error .. => true
  | _ => false

/-- The event is an error that is counted in this pass. -/
def Event.isError (pass : Nat) : Event → Bool
  | .error _ _ type => type.active pass
  | _ => false

/-- The event is a warning that is issued in this pass. -/
def Event.isWarning (pass : Nat) : Event → Bool
  | .warning _ _ type => type.active pass
  | .warningById _ _ type => type.active pass
  | _ => false

/-- The messages contain no counted error. -/
def noError (pass : Nat) (log : List Event) : Bool := log.all (!·.isError pass)

/-- The messages contain no issued warning. -/
def noWarning (pass : Nat) (log : List Event) : Bool := log.all (!·.isWarning pass)

@[simp] theorem noError_nil (pass : Nat) : noError pass [] = true := rfl

@[simp] theorem noError_append (pass : Nat) (l l' : List Event) :
    noError pass (l ++ l') = (noError pass l && noError pass l') := List.all_append

@[simp] theorem noWarning_append (pass : Nat) (l l' : List Event) :
    noWarning pass (l ++ l') = (noWarning pass l && noWarning pass l') := List.all_append

/-- A parse function over the source text. -/
abbrev Reader (α : Type) := Parsing.ParseFn Char Event α

end Sjasmplus
