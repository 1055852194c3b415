import Sjasmplus.DefineOrder
import Sjasmplus.MacroArguments

/-!
# Named arguments of macro calls (`CMacroTable::Emit` of `tables.cpp`)

The arguments of a macro call are values in the order of its parameters, or all of them are given with
the names of their parameters, in any order.  A call with names does what the one without them does
(`emit_named`), unless the text of a value starts with an equals sign: `x==1` is a comparison, and not a
value for `x`.
-/

namespace Sjasmplus

open Program

variable {ω : Type}

/-! ### The texts of calls -/

/-- An argument of a call: the name of its parameter, its text, and the value that is read from it. -/
structure CallArgument where
  name : Text
  text : Text
  value : Text
  isArgument : IsArgument text value

/-- The define that the argument makes. -/
def CallArgument.define (a : CallArgument) : Text × Text := (a.name, a.value)

/-- The argument with its name. -/
def CallArgument.named (a : CallArgument) : Text := a.name ++ '=' :: a.text

/-- A name that `GetID` reads to its end. -/
def IsName (name : Text) : Prop := AsmProgram.getID name = (some name, [])

instance (name : Text) : Decidable (IsName name) :=
  inferInstanceAs (Decidable (AsmProgram.getID name = (some name, [])))

/-- A name is not empty, has no blanks in front, and only characters of labels. -/
theorem IsName.chars {name : Text} (hname : IsName name) :
    skipBlanks name = name ∧ (∀ c ∈ name, islabchar c = true) ∧
      ¬(cur name = '\x00' ∨ (!isLabelStart name false ∧ cur name ≠ '.')) := by
  rw [IsName, AsmProgram.getID] at hname
  by_cases hstart : cur (skipBlanks name) = '\x00' ∨
      (!isLabelStart (skipBlanks name) false ∧ cur (skipBlanks name) ≠ '.')
  · rw [if_pos hstart] at hname
    cases hname
  · rw [if_neg hstart, Prod.mk.injEq, Option.some_inj] at hname
    obtain ⟨htake, hdrop⟩ := hname
    -- the whole of the name is read, so that no blank stands in front of it
    have hskip : skipBlanks name = name := by
      have hsplit := List.takeWhile_append_dropWhile (p := islabchar) (l := skipBlanks name)
      rw [htake, hdrop, List.append_nil] at hsplit
      exact hsplit.symm
    rw [hskip] at htake hstart
    exact ⟨hskip, fun c hc => List.mem_takeWhile_imp (htake.symm ▸ hc), hstart⟩

theorem getID_name {name : Text} (hname : IsName name) {front rest : Text}
    (hfront : ∀ c ∈ front, white c = true) (hrest : islabchar (cur rest) = false) :
    AsmProgram.getID (front ++ (name ++ rest)) = (some name, rest) := by
  obtain ⟨hskip, hchars, hstart⟩ := hname.chars
  have hrestdrop : rest.takeWhile islabchar = [] ∧ rest.dropWhile islabchar = rest := by
    cases rest with
    | nil => exact ⟨rfl, rfl⟩
    | cons c rest => exact ⟨List.takeWhile_cons_of_neg (by simpa using hrest),
        List.dropWhile_cons_of_neg (by simpa using hrest)⟩
  match name with
  | [] => exact absurd (.inl rfl) hstart
  | c :: name =>
    -- the blanks in front are skipped, and the name starts with a letter
    have hskiprest : skipBlanks (front ++ (c :: name ++ rest)) = c :: name ++ rest := by
      rw [skipBlanks_append hfront, List.cons_append]
      refine skipBlanks_cons ?_ _
      rw [← Bool.not_eq_true]
      intro hwhite
      rw [skipBlanks, List.dropWhile_cons_of_pos hwhite] at hskip
      have hlength := (List.dropWhile_suffix white (l := name)).length_le
      rw [hskip] at hlength
      exact absurd hlength (by simp)
    have hstart : ¬(cur (c :: name ++ rest) = '\x00' ∨
        (!isLabelStart (c :: name ++ rest) false ∧ cur (c :: name ++ rest) ≠ '.')) := hstart
    rw [AsmProgram.getID, hskiprest, if_neg hstart]
    rw [List.takeWhile_append_of_pos hchars, List.dropWhile_append_of_pos hchars, hrestdrop.1,
      hrestdrop.2, List.append_nil]

/-! ### Reading arguments -/

/-- The state behind the arguments. -/
def withArguments (own : List (Text × Text)) (log : List Event) (s : ExpandState ω) : ExpandState ω :=
  { s with
    defs := own.reverse ++ s.defs
    used := fun slot => own.any (fun entry => slot = nameSlot entry.1) || s.used slot
    log := s.log ++ log }

theorem withArguments_cons (entry : Text × Text) (own : List (Text × Text)) (log log' : List Event)
    (s : ExpandState ω) :
    withArguments own log' (withArguments [entry] log s) = withArguments (entry :: own) (log ++ log') s := by
  simp only [withArguments, List.reverse_cons, List.append_assoc, List.any_cons, List.any_nil,
    Bool.or_false, List.reverse_nil, List.nil_append]
  congr 1
  funext slot
  rw [← Bool.or_assoc]
  congr 1
  exact Bool.or_comm _ _

/-- One argument of a call. -/
theorem exec_parseArguments_cons {args next seen : List Text}
    {macName a p p' argName ml rest rest' : Text}
    {isNamed : Bool} (hname : argumentName args macName isNamed seen a p = (.ok argName, p'))
    (hvalue : argumentLoop none none [] 0 (skipBlanks p') = (some ml, rest))
    (hseparated : (if next = [] then (true, rest) else takeComma rest) = (true, rest'))
    (s : ExpandState ω) :
    ∃ log, EmptyValues log ∧ (parseArguments args macName isNamed (a :: next) seen p).exec s =
      (parseArguments args macName isNamed next (argName :: seen) rest').exec
        (withArguments [(argName, ml)] log s) := by
  obtain ⟨log, hlog, hexec⟩ := exec_getMacroArgumentValue p' s
  refine ⟨log, hlog, ?_⟩
  rw [parseArguments, hname]
  dsimp only
  rw [exec_bind_of_some hexec, hvalue]
  dsimp only
  rw [hseparated]
  dsimp only
  rw [if_pos rfl, addMacro, exec_bind_of_some (exec_modify _ _)]
  simp [withArguments]

/-! ### Arguments in their order -/

/-- The text is that of these arguments; a call without arguments may have blanks. -/
def IsCall (p : Text) (arguments : List CallArgument) : Prop :=
  if arguments = [] then skipBlanks p = [] else p = joinArguments (arguments.map CallArgument.text)

/-- An argument in front of those behind its comma. -/
theorem IsCall.cons {a : CallArgument} {arguments : List CallArgument} {p p' rest : Text}
    (hp : p = a.text ++ rest) (hrest : EndsArgument rest)
    (hseparated : (if arguments = [] then (true, rest) else takeComma rest) = (true, p'))
    (h : IsCall p' arguments) : IsCall p (a :: arguments) := by
  rw [IsCall, if_neg (List.cons_ne_nil _ _), List.map_cons, joinArguments_cons, hp]
  -- the texts of the arguments are joined by commas
  congr 1
  match arguments with
  | [] =>
    rw [if_pos rfl, Prod.mk.injEq] at hseparated
    rw [IsCall, if_pos rfl, ← hseparated.2] at h
    match rest, hrest with
    | [], _ => rfl
    | c :: rest, .inr hc =>
      obtain rfl : c = ',' := hc
      cases h
  | b :: arguments =>
    rw [if_neg (List.cons_ne_nil _ _)] at hseparated
    rw [IsCall, if_neg (List.cons_ne_nil _ _)] at h
    match rest, hrest with
    | [], _ => cases hseparated
    | c :: rest, .inr hc =>
      obtain rfl : c = ',' := hc
      have hskip : skipBlanks (',' :: rest) = ',' :: rest := skipBlanks_cons rfl _
      rw [takeComma, hskip] at hseparated
      split_ifs at hseparated
      · cases hseparated
      · obtain rfl := congrArg Prod.snd hseparated
        exact congrArg (',' :: ·) h

/-- The arguments of a call without names that is accepted: they are those of its text. -/
theorem arguments_of_accepted {args list seen : List Text} {macName p rest : Text} {s t : ExpandState ω}
    (h : (parseArguments args macName false list seen p).exec s = (some (none, rest), t))
    (hrest : skipBlanks rest = []) :
    ∃ arguments : List CallArgument, arguments.map CallArgument.name = list ∧ IsCall p arguments ∧
      ∃ log, EmptyValues log ∧ t = withArguments (arguments.map CallArgument.define) log s := by
  -- by induction on the names: each has read one argument of the text
  induction list generalizing seen p s with
  | nil =>
    rw [parseArguments, exec_pure, Prod.mk.injEq, Option.some_inj, Prod.mk.injEq] at h
    obtain ⟨⟨-, rfl⟩, rfl⟩ := h
    refine ⟨[], rfl, hrest, [], List.forall_mem_nil _, ?_⟩
    simp [withArguments]
  | cons a next ih =>
    -- a named argument is refused here
    by_cases hnamed : isNamedMacroArg p
    · rw [parseArguments, argumentName, if_neg Bool.false_ne_true, if_pos hnamed] at h
      cases h
    · have hname : argumentName args macName false seen a p = (.ok a, p) := by
        rw [argumentName, if_neg Bool.false_ne_true, if_neg hnamed]
      obtain ⟨log, hlog, hexec⟩ := exec_getMacroArgumentValue p s
      rw [parseArguments, hname] at h
      dsimp only at h
      rw [exec_bind_of_some hexec] at h
      rcases hvalue : argumentLoop none none [] 0 (skipBlanks p) with ⟨_ | ml, behind⟩
      · rw [hvalue] at h
        cases h
      · rw [hvalue] at h
        dsimp only at h
        rcases hseparated : (if next = [] then (true, behind) else takeComma behind)
          with ⟨_ | _, p'⟩
        · rw [hseparated] at h
          cases h
        · rw [hseparated] at h
          dsimp only at h
          rw [if_pos rfl, addMacro, exec_bind_of_some (exec_modify _ _)] at h
          obtain ⟨arguments, hnames, hcall, log', hlog', rfl⟩ := ih h
          obtain ⟨hend, text, htext, hargument⟩ := isArgument_of_read hvalue
          refine ⟨⟨a, text, ml, hargument⟩ :: arguments, ?_, ?_, log ++ log', hlog.append hlog', ?_⟩
          · rw [List.map_cons, hnames]
          · refine IsCall.cons htext hend ?_ hcall
            have hnil : next = [] ↔ arguments = [] := by rw [← hnames, List.map_eq_nil_iff]
            simp only [hnil] at hseparated
            exact hseparated
          · rw [List.map_cons, ← withArguments_cons _ _ log]
            simp [withArguments, CallArgument.define]

/-! ### Arguments with their names -/

/-- The text of a call with names. -/
def namedText (arguments : List CallArgument) : Text := joinArguments (arguments.map CallArgument.named)

/-- An argument whose name can stand in front of it. -/
structure CallArgument.Nameable (a : CallArgument) : Prop where
  isName : IsName a.name
  plain : cur a.text ≠ '='

theorem namedText_cons (a : CallArgument) (arguments : List CallArgument) :
    namedText (a :: arguments) =
      a.name ++ ('=' :: (a.text ++ joinRest (arguments.map CallArgument.named))) := by
  rw [namedText, List.map_cons, joinArguments_cons, CallArgument.named, List.append_assoc,
    List.cons_append]

/-- The equals sign behind a name is a single one. -/
theorem CallArgument.Nameable.single {a : CallArgument} (ha : a.Nameable) (ts : List Text) :
    cur (a.text ++ joinRest ts) ≠ '=' := by
  match htext : a.text with
  | [] =>
    rcases endsArgument_joinRest ts with hnil | hcomma
    · rw [hnil]
      decide
    · rw [List.nil_append, hcomma]
      decide
  | c :: text =>
    have hplain := ha.plain
    rw [htext] at hplain
    exact hplain

/-- A name does not start with a comma. -/
theorem cur_namedText {a : CallArgument} (ha : a.Nameable) (arguments : List CallArgument) :
    cur (namedText (a :: arguments)) ≠ ',' := by
  obtain ⟨-, hchars, hstart⟩ := ha.isName.chars
  rw [namedText_cons]
  match hname : a.name with
  | [] => exact absurd (hname ▸ .inl rfl) hstart
  | c :: name =>
    rintro rfl
    exact absurd (hchars ',' (hname ▸ List.mem_cons_self ..)) (by decide)

theorem isNamedMacroArg_namedText {a : CallArgument} (ha : a.Nameable) (arguments : List CallArgument)
    {front : Text} (hfront : ∀ c ∈ front, white c = true) :
    isNamedMacroArg (front ++ namedText (a :: arguments)) = true := by
  have hsingle := ha.single (arguments.map CallArgument.named)
  have hskip (p : Text) : skipBlanks ('=' :: p) = '=' :: p := skipBlanks_cons rfl p
  rw [isNamedMacroArg, namedText_cons, getID_name ha.isName hfront rfl]
  dsimp only
  rw [hskip, List.tail_cons]
  simp [hsingle]

/-- The name of an argument that is given with it. -/
theorem argumentName_namedText (macName b : Text) {args seen : List Text} {a : CallArgument}
    (ha : a.Nameable) (hargs : a.name ∈ args) (hseen : a.name ∉ seen) (arguments : List CallArgument)
    {front : Text} (hfront : ∀ c ∈ front, white c = true) :
    argumentName args macName true seen b (front ++ namedText (a :: arguments)) =
      (.ok a.name, a.text ++ joinRest (arguments.map CallArgument.named)) := by
  have hsingle := ha.single (arguments.map CallArgument.named)
  have hskip (p : Text) : skipBlanks ('=' :: p) = '=' :: p := skipBlanks_cons rfl p
  rw [argumentName, if_pos rfl, namedText_cons, getID_name ha.isName hfront rfl]
  dsimp only
  rw [hskip, if_neg, if_neg (not_not.mpr hargs), if_neg hseen, List.tail_cons]
  rintro (h | h)
  · exact h rfl
  · exact hsingle h

/-- The arguments of a call with names are accepted, in the order of the call. -/
theorem exec_parseArguments_named (macName : Text) {args list seen : List Text}
    {arguments : List CallArgument} (hlength : arguments.length = list.length)
    (hnameable : ∀ a ∈ arguments, a.Nameable) (hargs : ∀ a ∈ arguments, a.name ∈ args ∧ a.name ∉ seen)
    (hnodup : (arguments.map CallArgument.name).Nodup) {front : Text}
    (hfront : ∀ c ∈ front, white c = true) (s : ExpandState ω) :
    ∃ rest log, skipBlanks rest = [] ∧ EmptyValues log ∧
      (parseArguments args macName true list seen (front ++ namedText arguments)).exec s =
        (some (none, rest), withArguments (arguments.map CallArgument.define) log s) := by
  -- by induction on the arguments: each of them takes one turn, whatever parameter it is for
  induction arguments generalizing list seen front s with
  | nil =>
    obtain rfl : list = [] := List.length_eq_zero_iff.mp hlength.symm
    refine ⟨front, [], ?_, List.forall_mem_nil _, ?_⟩
    · rw [← List.append_nil front, skipBlanks_append hfront]
      rfl
    · simp [parseArguments, withArguments, namedText, joinArguments]
  | cons a arguments ih =>
    cases list with
    | nil => cases hlength
    | cons b list =>
      have ha := hnameable a (List.mem_cons_self ..)
      obtain ⟨hmem, hseen⟩ := hargs a (List.mem_cons_self ..)
      rw [List.map_cons, List.nodup_cons] at hnodup
      have hname := argumentName_namedText macName b ha hmem hseen arguments hfront
      have hvalue := isArgument_append a.isArgument
        (endsArgument_joinRest (arguments.map CallArgument.named))
      -- behind a value comes the comma of the next name, which no second comma follows
      have hseparated : (if list = [] then (true, joinRest (arguments.map CallArgument.named))
          else takeComma (joinRest (arguments.map CallArgument.named))) =
            (true, namedText arguments) := by
        rcases list with _ | ⟨_, list⟩ <;> rcases arguments with _ | ⟨a', arguments⟩
        · rfl
        · cases hlength
        · cases hlength
        · have hcomma := cur_namedText (hnameable a' (by simp)) arguments
          have hskip (p : Text) : skipBlanks (',' :: p) = ',' :: p := skipBlanks_cons rfl p
          rw [if_neg (List.cons_ne_nil _ _)]
          show takeComma (',' :: namedText (a' :: arguments)) = _
          rw [takeComma, hskip, if_neg, List.tail_cons]
          rintro (h | h)
          · exact h rfl
          · exact hcomma h
      obtain ⟨log, hlog, hstep⟩ := exec_parseArguments_cons hname hvalue hseparated s
      -- the names of those behind it have not been seen
      have hrest : ∀ c ∈ arguments, c.name ∈ args ∧ c.name ∉ a.name :: seen := by
        intro c hc
        obtain ⟨hmem, hseen⟩ := hargs c (List.mem_cons_of_mem a hc)
        refine ⟨hmem, fun h => ?_⟩
        rcases List.mem_cons.mp h with hsame | h
        · exact hnodup.1 (List.mem_map.mpr ⟨c, hc, hsame⟩)
        · exact hseen h
      have hfront' : ∀ c ∈ ([] : Text), white c = true := List.forall_mem_nil _
      obtain ⟨rest, log', hblank, hlog', hexec⟩ := ih (Nat.succ.inj hlength)
        (fun c hc => hnameable c (List.mem_cons_of_mem a hc)) hrest hnodup.2 hfront'
        (withArguments [(a.name, a.value)] log s)
      refine ⟨rest, log ++ log', hblank, hlog.append hlog', ?_⟩
      rw [hstep]
      exact hexec.trans (by rw [withArguments_cons]; rfl)

/-- A call with names is seen to be one, unless the macro has no parameters. -/
theorem exec_parseArguments_namedText (macName : Text) {args : List Text}
    {arguments : List CallArgument} (hlength : arguments.length = args.length)
    (hnameable : ∀ a ∈ arguments, a.Nameable) (hargs : ∀ a ∈ arguments, a.name ∈ args)
    (hnodup : (arguments.map CallArgument.name).Nodup) {front : Text}
    (hfront : ∀ c ∈ front, white c = true) (s : ExpandState ω) :
    ∃ rest log, skipBlanks rest = [] ∧ EmptyValues log ∧
      (parseArguments args macName (isNamedMacroArg (front ++ namedText arguments)) args []
        (front ++ namedText arguments)).exec s =
        (some (none, rest), withArguments (arguments.map CallArgument.define) log s) := by
  have hnamed := exec_parseArguments_named macName hlength hnameable
    (fun a ha => ⟨hargs a ha, List.not_mem_nil⟩) hnodup hfront s
  match arguments with
  | [] =>
    obtain rfl : args = [] := List.length_eq_zero_iff.mp hlength.symm
    exact hnamed
  | a :: arguments =>
    rw [isNamedMacroArg_namedText (hnameable a (List.mem_cons_self ..)) arguments hfront]
    exact hnamed

/-! ### The order of the defines -/

/-- Among defines with different names the order does not matter. -/
theorem lookup_append_perm {own own' : List (Text × Text)} (h : own.Perm own')
    (hnodup : (own.map Prod.fst).Nodup) (defs : List (Text × Text)) :
    SameValues (own ++ defs) (own' ++ defs) := by
  intro name
  -- by induction on the permutation, whose swaps are of different names
  induction h with
  | nil => rfl
  | cons entry _ ih =>
    rw [List.map_cons, List.nodup_cons] at hnodup
    rw [List.cons_append, List.cons_append, List.lookup_cons, List.lookup_cons, ih hnodup.2]
  | swap entry entry' own =>
    obtain ⟨k, v⟩ := entry
    obtain ⟨k', v'⟩ := entry'
    have hne : k ≠ k' := by
      rintro rfl
      simp at hnodup
    simp only [List.cons_append, List.lookup_cons]
    have hother : (k == k') = false := beq_false_of_ne hne
    by_cases hname : name = k
    · simp [hname, hother]
    · simp [beq_false_of_ne hname]
  | trans hfirst _ ih ih' =>
    exact (ih hnodup).trans (ih' ((hfirst.map Prod.fst).nodup_iff.mp hnodup))

/-- Behind the arguments of the two calls, names have the same values. -/
theorem sameValues_defines {arguments named : List CallArgument} (hperm : named.Perm arguments)
    (hnodup : (arguments.map CallArgument.name).Nodup) (defs : List (Text × Text)) :
    SameValues ((arguments.map CallArgument.define).reverse ++ defs)
      ((named.map CallArgument.define).reverse ++ defs) := by
  refine lookup_append_perm ?_ ?_ defs
  · have hdefines := hperm.symm.map CallArgument.define
    exact (List.reverse_perm _).trans (hdefines.trans (List.reverse_perm _).symm)
  · rw [List.map_reverse, List.nodup_reverse, List.map_map]
    exact hnodup

/-! ### The lines of a call -/

section

variable {front front' : List Event}

/-- The two states are those of calls on different lines. -/
def SameCall (front front' : List Event) (s t : ExpandState ω) : Prop :=
  SameDefines front front' s { t with line := s.line }

theorem SameDefines.sameCall {s t : ExpandState ω} (h : SameDefines front front' s t) :
    SameCall front front' s t := by
  obtain ⟨defs, log, rfl, hlog, hvalues⟩ := h
  exact ⟨defs, log, rfl, hlog, hvalues⟩

theorem SameCall.exists_eq {s t : ExpandState ω} (h : SameCall front front' s t) :
    ∃ defs log line, t = { s with defs := defs, log := front' ++ log, line := line } ∧
      s.log = front ++ log ∧ SameValues s.defs defs := by
  obtain ⟨defs, log, ht, hlog, hvalues⟩ := h
  refine ⟨defs, log, t.line, ?_, hlog, hvalues⟩
  show { { t with line := s.line } with line := t.line } = _
  rw [ht]

/-- The states behind the arguments of the two calls. -/
theorem sameCall_withArguments {arguments named : List CallArgument} (hperm : named.Perm arguments)
    (hnodup : (arguments.map CallArgument.name).Nodup) (log log' : List Event) (line : Text)
    (s : ExpandState ω) :
    SameCall (s.log ++ log) (s.log ++ log')
      (withArguments (arguments.map CallArgument.define) log s)
      (withArguments (named.map CallArgument.define) log' { s with line := line }) := by
  have hused : (fun slot => (named.map CallArgument.define).any (fun entry => slot = nameSlot entry.1) ||
      s.used slot) = fun slot => (arguments.map CallArgument.define).any
        (fun entry => slot = nameSlot entry.1) || s.used slot := by
    funext slot
    rw [(hperm.map CallArgument.define).any_eq]
  refine ⟨_, [], ?_, (List.append_nil _).symm, sameValues_defines hperm hnodup s.defs⟩
  simp only [withArguments, hused, List.append_nil]

/-- A line of the body replaces the line of the call. -/
theorem runsLike_line {α : Type} {p q : ExpandProgram ω α} (hp : RunsSame front front' p q)
    (string : Text) (rest : List BodyLine) :
    RunsLike (SameCall front front') Eq
      (modify (fun s => { s with line := string, lijstp := rest }) >>= fun _ => p)
      (modify (fun s => { s with line := string, lijstp := rest }) >>= fun _ => q) := by
  intro s t hst
  obtain ⟨defs, log, line, rfl, hlog, hvalues⟩ := hst.exists_eq
  rw [exec_bind_of_some (exec_modify _ _), exec_bind_of_some (exec_modify _ _),
    final_bind_of_some (exec_modify _ _), final_bind_of_some (exec_modify _ _)]
  obtain ⟨hresult, hbehind⟩ := hp { s with line := string, lijstp := rest }
    { s with defs := defs, log := front' ++ log, line := string, lijstp := rest }
    ⟨defs, log, rfl, hlog, hvalues⟩
  exact ⟨hresult, hbehind.sameCall⟩

variable {parse : ExpandProgram ω Unit} (hparse : RunsSame front front' parse parse) (fuel : Nat)

include hparse

theorem runsLike_emitTurn (u : Unit) :
    RunsLike (SameCall front front') Eq (emitTurn parse u) (emitTurn parse u) := by
  refine RunsLike.get.bind fun s t hst => ?_
  obtain ⟨defs, log, line, rfl, -, -⟩ := hst.exists_eq
  dsimp only
  match s.lijstp with
  | [] => exact RunsLike.pure rfl
  | ⟨string, source⟩ :: rest =>
    refine RunsLike.bind_eq (RunsLike.modify fun s t hst => ?_) fun _ => ?_
    · obtain ⟨defs, log, line, rfl, hlog, hvalues⟩ := hst.exists_eq
      exact ⟨defs, log, rfl, hlog, hvalues⟩
    · cases string with
      | some string => exact runsLike_line (hparse.bind_eq fun _ => RunsLike.pure rfl) string rest
      -- a line without a text is undefined in both calls
      | none =>
        intro s t hst
        obtain ⟨defs, log, line, rfl, hlog, hvalues⟩ := hst.exists_eq
        refine ⟨.none, defs, log ++ [.undefined "strcpy"], ?_, ?_, hvalues⟩
        · rw [← List.append_assoc]
          rfl
        · rw [← List.append_assoc, ← hlog]
          rfl

theorem runsLike_emitBody (body : List BodyLine) :
    RunsLike (SameCall front front') Eq (emitBody parse fuel body) (emitBody parse fuel body) := by
  refine RunsLike.bracket (RunsLike.loop (runsLike_emitTurn hparse) fuel ()) ?_ ?_
  · intro s t hst
    obtain ⟨defs, log, line, rfl, hlog, hvalues⟩ := hst.exists_eq
    exact ⟨defs, log, rfl, hlog, hvalues⟩
  · intro olds oldt s t hold hst
    obtain ⟨defs, log, line, rfl, hlog, hvalues⟩ := hst.exists_eq
    obtain ⟨_, _, _, rfl, -, -⟩ := hold.exists_eq
    exact ⟨defs, log, rfl, hlog, hvalues⟩

end

/-! ### The main result -/

/-- The call is accepted: its arguments are read, and nothing but blanks is behind them. -/
def CallAccepted (s : ExpandState ω) (entry : MacroTableEntry) (macName p : Text) : Prop :=
  ∃ u rest t, startEmit.exec s = (some (), u) ∧
    (parseArguments entry.args macName (isNamedMacroArg p) entry.args [] p).exec u =
      (some (none, rest), t) ∧ skipBlanks rest = []

/-- A call with these arguments runs the body behind them, and takes them back. -/
theorem exec_emitFound {s u t : ExpandState ω} {entry : MacroTableEntry} {macName p rest : Text}
    (parse : ExpandProgram ω Unit) (fuel : Nat) (hstart : startEmit.exec s = (some (), u))
    (hread : (parseArguments entry.args macName (isNamedMacroArg p) entry.args [] p).exec u =
      (some (none, rest), t)) (hrest : skipBlanks rest = []) :
    (emitFound parse fuel macName entry p).exec s =
      (emitBody parse fuel entry.body >>= fun _ => do
        modify fun v => { v with defs := u.defs, macrolabp := s.macrolabp }
        pure (2, [])).exec t := by
  rw [emitFound, exec_bind_of_some (exec_asks _ s), exec_bind_of_some hstart,
    exec_bind_of_some (exec_asks _ u), exec_bind_of_some hread]
  dsimp only
  rw [if_neg (not_not.mpr hrest), hrest]

/-- The start of a call does not see its line. -/
theorem exec_startEmit_line {s u : ExpandState ω} (line : Text)
    (h : startEmit.exec s = (some (), u)) :
    startEmit.exec { s with line := line } = (some (), { u with line := line }) := by
  rw [startEmit, exec_bind_of_some (exec_get _)] at h ⊢
  dsimp only at h ⊢
  cases hlabel : emitLabel s.macronummer s.macrolabp with
  | none =>
    rw [hlabel] at h
    cases h
  | some labnr =>
    rw [hlabel] at h
    dsimp only at h ⊢
    rw [exec_bind_of_some (exec_modify _ _)] at h ⊢
    by_cases houter : s.macrolabp = none
    · rw [when, if_pos houter] at h ⊢
      obtain rfl := congrArg Prod.snd h
      rfl
    · rw [when, if_neg houter] at h ⊢
      obtain rfl := congrArg Prod.snd h
      rfl

theorem exec_macroEmit {s : ExpandState ω} {naam : Text} {entry : MacroTableEntry}
    (hused : s.macsUsed (nameSlot naam) = true) (hentry : s.macs naam = some entry)
    (parse : ExpandProgram ω Unit) (fuel : Nat) (p : Text) :
    (macroEmit parse fuel naam p).exec s = (emitFound parse fuel naam entry p).exec s := by
  rw [macroEmit, exec_bind_of_some (exec_get s), if_pos hused, hentry]

theorem log_startEmit {s u : ExpandState ω} (h : startEmit.exec s = (some (), u)) : u.log = s.log := by
  rw [startEmit, exec_bind_of_some (exec_get _)] at h
  cases hlabel : emitLabel s.macronummer s.macrolabp with
  | none =>
    rw [hlabel] at h
    cases h
  | some labnr =>
    rw [hlabel] at h
    dsimp only at h
    rw [exec_bind_of_some (exec_modify _ _), when] at h
    split_ifs at h <;> exact congrArg (fun r => r.2.log) h.symm

/-- Two calls of a macro do the same, with lines of their own and messages about their arguments. -/
def EmitsSame (parser : StatementParser ω) (naam p p' : Text) (s t : ExpandState ω) : Prop :=
  ∃ log log', EmptyValues log ∧ EmptyValues log' ∧ ∀ fuel,
    ((macroEmit (parseLine parser fuel) fuel naam p').exec t).1 =
      ((macroEmit (parseLine parser fuel) fuel naam p).exec s).1 ∧
    SameCall (s.log ++ log) (s.log ++ log')
      ((macroEmit (parseLine parser fuel) fuel naam p).final s)
      ((macroEmit (parseLine parser fuel) fuel naam p').final t)

/-- **Named arguments.**  A call without names that is accepted has arguments, one for each parameter.
When none of their texts starts with an equals sign, the call with their names, in any order, is accepted
too.  It gives the same values to all names, and does the same. -/
theorem emit_named {parser : StatementParser ω} (hparser : parser.ByName) {s : ExpandState ω}
    {naam p : Text} {entry : MacroTableEntry} (hused : s.macsUsed (nameSlot naam) = true)
    (hentry : s.macs naam = some entry) (hnodup : entry.args.Nodup)
    (hnames : ∀ name ∈ entry.args, IsName name) (hpositional : isNamedMacroArg p = false)
    (haccepted : CallAccepted s entry naam p) :
    ∃ arguments : List CallArgument, arguments.map CallArgument.name = entry.args ∧
      IsCall p arguments ∧
      ((∀ a ∈ arguments, cur a.text ≠ '=') →
        ∀ named : List CallArgument, named.Perm arguments →
          ∀ front line : Text, (∀ c ∈ front, white c = true) →
            CallAccepted { s with line := line } entry naam (front ++ namedText named) ∧
            (∀ defs, SameValues ((arguments.map CallArgument.define).reverse ++ defs)
              ((named.map CallArgument.define).reverse ++ defs)) ∧
            EmitsSame parser naam p (front ++ namedText named) s { s with line := line }) := by
  obtain ⟨u, rest, t, hstart, hread, hrest⟩ := haccepted
  have hpositionalread := hread
  rw [hpositional] at hpositionalread
  obtain ⟨arguments, hargs, hcall, log, hlog, rfl⟩ := arguments_of_accepted hpositionalread hrest
  refine ⟨arguments, hargs, hcall, fun hplain named hperm front line hfront => ?_⟩
  -- the arguments of the call without names are those of the parameters, in their order
  have hnodup' : (arguments.map CallArgument.name).Nodup := hargs ▸ hnodup
  have hmem (a : CallArgument) (ha : a ∈ named) : a.name ∈ entry.args :=
    hargs ▸ List.mem_map_of_mem (hperm.mem_iff.mp ha)
  have hnameable (a : CallArgument) (ha : a ∈ named) : a.Nameable :=
    ⟨hnames a.name (hmem a ha), hplain a (hperm.mem_iff.mp ha)⟩
  obtain ⟨rest', log', hrest', hlog', hread'⟩ := exec_parseArguments_namedText naam
    (by rw [hperm.length_eq, ← hargs, List.length_map]) hnameable hmem
    ((hperm.map CallArgument.name).nodup_iff.mpr hnodup') hfront { u with line := line }
  refine ⟨⟨_, rest', _, exec_startEmit_line line hstart, hread', hrest'⟩, ?_, ?_⟩
  · exact fun defs => sameValues_defines hperm hnodup' defs
  · refine ⟨log, log', hlog, hlog', fun fuel => ?_⟩
    -- behind the arguments both calls do the same, and put back the same defines
    have hbody : RunsLike (SameCall (u.log ++ log) (u.log ++ log')) Eq
        (emitBody (parseLine parser fuel) fuel entry.body >>= fun _ => do
          modify fun v => { v with defs := u.defs, macrolabp := s.macrolabp }
          pure ((2, []) : Nat × Text))
        (emitBody (parseLine parser fuel) fuel entry.body >>= fun _ => do
          modify fun v => { v with defs := u.defs, macrolabp := s.macrolabp }
          pure (2, [])) := by
      refine (runsLike_emitBody (runsSame_parseLine hparser fuel _ _) fuel entry.body).bind_eq ?_
      refine fun _ => RunsLike.bind_eq (RunsLike.modify fun v w hvw => ?_) fun _ => RunsLike.pure rfl
      obtain ⟨defs, log, line, rfl, hlog, -⟩ := hvw.exists_eq
      exact ⟨u.defs, log, rfl, hlog, fun _ => rfl⟩
    have hcalls := hbody _ _ (sameCall_withArguments hperm hnodup' log log' line u)
    rw [final, final, exec_macroEmit hused hentry, exec_emitFound _ _ hstart hread hrest,
      exec_macroEmit (s := { s with line := line }) hused hentry,
      exec_emitFound _ _ (exec_startEmit_line line hstart) hread' hrest', ← log_startEmit hstart]
    exact ⟨(RunsLike.eq_of_rel hcalls.1).symm, hcalls.2⟩

/-- A macro with two parameters. -/
def exampleMacro : MacroTableEntry := ⟨[['x'], ['y']], [⟨some " DB x, y".toList, ⟨1, 0, 0⟩⟩]⟩

/-- The macro is called `M`, and no call is around. -/
def exampleCaller : ExpandState Unit :=
  { exampleExpandState with
    macs := fun naam => if naam = ['M'] then some exampleMacro else none
    macrolabp := none
    defs := []
    used := fun _ => false }

theorem byName_exampleParser : exampleParser.ByName where
  parseLabel _ _ _ _ := rfl
  macroCall _ _ _ _ := rfl
  instruction _ _ _ _ _ := rfl
  ifExpression _ _ _ _ := rfl
  repeatExpression _ _ _ _ _ := rfl
  indexVariable _ _ _ _ _ _ := rfl

/-- A call with two arguments is accepted. -/
theorem callAccepted_exampleCaller {p : Text}
    (h : ((parseArguments exampleMacro.args ['M'] (isNamedMacroArg p) exampleMacro.args [] p).exec
      (startEmit.final exampleCaller)).1 = some (none, [])) :
    CallAccepted exampleCaller exampleMacro ['M'] p :=
  ⟨_, [], _, exec_of_fst (by decide), exec_of_fst h, rfl⟩

/-- The call `M 1, 2`. -/
theorem emit_named_exampleCaller :
    ∃ arguments : List CallArgument, arguments.map CallArgument.name = exampleMacro.args ∧
      IsCall " 1, 2".toList arguments ∧
      ((∀ a ∈ arguments, cur a.text ≠ '=') →
        ∀ named : List CallArgument, named.Perm arguments →
          ∀ front line : Text, (∀ c ∈ front, white c = true) →
            CallAccepted { exampleCaller with line := line } exampleMacro ['M']
              (front ++ namedText named) ∧
            (∀ defs, SameValues ((arguments.map CallArgument.define).reverse ++ defs)
              ((named.map CallArgument.define).reverse ++ defs)) ∧
            EmitsSame exampleParser ['M'] " 1, 2".toList (front ++ namedText named) exampleCaller
              { exampleCaller with line := line }) :=
  emit_named byName_exampleParser (by decide) rfl (by decide) (by decide) (by decide)
    (callAccepted_exampleCaller (by decide))

/-- The second value is `=5`. -/
def exampleArguments : List CallArgument :=
  [⟨['x'], " 1".toList, ['1'], by decide⟩, ⟨['y'], "=5".toList, "=5".toList, by decide⟩]

/-- The call `M 1,=5` is accepted, and `M x= 1,y==5` is not. -/
theorem not_callAccepted_named :
    IsCall " 1,=5".toList exampleArguments ∧
      CallAccepted exampleCaller exampleMacro ['M'] " 1,=5".toList ∧
      ¬ CallAccepted exampleCaller exampleMacro ['M'] (namedText exampleArguments) := by
  refine ⟨rfl, callAccepted_exampleCaller (by decide), ?_⟩
  rintro ⟨u, rest, t, hstart, hread, -⟩
  obtain rfl : u = startEmit.final exampleCaller := (congrArg Prod.snd hstart).symm
  have hfails : (((parseArguments exampleMacro.args ['M'] (isNamedMacroArg (namedText exampleArguments))
      exampleMacro.args [] (namedText exampleArguments)).exec
        (startEmit.final exampleCaller)).1.map Prod.fst) ≠ some none := by
    decide
  exact hfails (congrArg (fun r => r.1.map Prod.fst) hread)

end Sjasmplus
