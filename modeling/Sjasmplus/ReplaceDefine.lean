import Sjasmplus.Defines
import Sjasmplus.Lib.Guardian

/-!
# Substitution in a line (`ReplaceDefineInternal` and `ReplaceDefine` of `parser.cpp`)

A pass over a line copies it to a buffer, with values in the place of the names of macro arguments and
defines.  A name may stand inside of an identifier, between underscores, so an identifier is looked up
part by part.  Passes are repeated as long as something was replaced, at most 31 times, and between two
buffers of `LINEMAX2` characters.

Here the text in front of `lp` and the output behind `rp` are not kept.  The loops of a pass are one
loop: `subId` has the variables of the inner one, over the parts of an identifier, while it runs.
-/

namespace Sjasmplus

open Program

variable {ω : Type}

/-- `LINEMAX2`. -/
def lineMax2 : Nat := lineMax * 2

/-- `GLUE_TAG`, which stands for a `_` between blanks that joins what is around it. -/
def glueTag : Char := '\n'

/-- `GLUE_CHAR`. -/
def glueChar : Char := '_'

/-! ### Globals and variables -/

/-- The variables of the loop over the parts of an identifier.  `isWhole` says that the first one of the
parts in `nid` is the first one of the identifier. -/
structure SubId where
  nid : Text
  nextSubIdLp : Text
  isWhole : Bool
deriving DecidableEq, Repr

/-- What `ParseExpressionInSubstitution` does: the value, if there is one, the number of characters that
it moves over, `IsLabelNotFound`, and its messages. -/
structure IndexRead where
  val : Option Aint
  length : Nat
  isLabelNotFound : Bool
  log : List Event

/-- What a pass reads: an option, the arguments of the macro around the line (`MacroDefineTable.getverv`,
nothing outside of macros), the line of the source position, and expressions in the index of an array. -/
structure SubstContext (ω : Type) where
  isSubwordSubstitution : Bool
  macroDefine : Text → Option Text
  line : Int
  parseExpressionInSubstitution : ω → Text → IndexRead × ω

/-- What a pass works on.  `inLine` says that `lp` points into `line`. -/
structure SubstState (ω : Type) where
  lp : Text
  nl : Text
  subId : Option SubId
  isDefDir : Bool
  afterNonAlphaNumNext : Bool
  definegereplaced : Bool
  comlin : Nat
  inLine : Bool
  eolComment : Option Text
  glueToProcess : Bool
  defineTable : DefineTable
  predefinedCounter : Int
  world : ω
  log : List Event

abbrev SubstProgram (ω : Type) := Program (SubstState ω)

/-- `Error`. -/
def substError (message : String) (badValueMessage : Option Text) (type : EStatus) :
    SubstProgram ω Unit :=
  modify fun s => { s with log := s.log ++ [.error message badValueMessage type] }

/-! ### String literals -/

/-- The text of a string literal behind its first delimiter, and the text behind it.  In double quotes a
backslash takes the next character with it. -/
def literalRest (c1 : Char) : Text → Text × Text
  | [] => ([], [])
  | [c] => ([c], [])
  | c :: d :: p =>
    if c = c1 then ([c], d :: p)
    else if c1 = '"' ∧ c = '\\' then (c :: d :: (literalRest c1 p).1, (literalRest c1 p).2)
    else (c :: (literalRest c1 (d :: p)).1, (literalRest c1 (d :: p)).2)

/-- The text of a string literal with its delimiters, as far as they are there. -/
def literalText (p : Text) : Text := cur p :: (literalRest (cur p) p.tail).1

/-- A literal is text of the line, as it stands there. -/
theorem literalRest_append (c1 : Char) (p : Text) :
    (literalRest c1 p).1 ++ (literalRest c1 p).2 = p := by
  fun_induction literalRest c1 p with
  | case1 => rfl
  | case2 => rfl
  | case3 => rfl
  | case4 c d p _ _ ih => rw [List.cons_append, List.cons_append, ih]
  | case5 c d p _ _ ih => rw [List.cons_append, ih]

/-! ### Glue -/

/-- The look ahead in the output: a `_` between blanks becomes a tag. -/
def glueAhead (nl : Text) : Text × Bool :=
  let rest := nl.rdropWhile fun c => white c && c ≠ glueTag
  if rest.length < nl.length ∧ rest.getLast? = some glueChar ∧ rest.dropLast.getLast?.any white then
    (rest.dropLast ++ glueTag :: nl.drop rest.length, true)
  else (nl, false)

/-- The look behind in the source. -/
def glueBehind (lp : Text) : Text × Bool :=
  let rest := lp.dropWhile fun c => white c && c ≠ glueTag
  if rest.length < lp.length ∧ cur rest = glueChar ∧ white (cur rest.tail) then
    (lp.take (lp.length - rest.length) ++ glueTag :: rest.tail, true)
  else (lp, false)

/-- A tag takes the place of one character. -/
theorem length_glueAhead (nl : Text) : (glueAhead nl).1.length = nl.length := by
  rw [glueAhead]
  split_ifs with h
  · have hlast : nl.rdropWhile (fun c => white c && c ≠ glueTag) ≠ [] := by
      intro hnil
      rw [hnil] at h
      exact absurd h.2.1 nofun
    have hpos := List.length_pos_iff.mpr hlast
    simp only [List.length_append, List.length_dropLast, List.length_cons, List.length_drop]
    omega
  · rfl

theorem length_glueBehind (lp : Text) : (glueBehind lp).1.length = lp.length := by
  rw [glueBehind]
  split_ifs with h
  · have hrest : (lp.dropWhile fun c => white c && c ≠ glueTag) ≠ [] := by
      intro hnil
      rw [hnil] at h
      exact absurd h.2.1 (by decide)
    have hpos := List.length_pos_iff.mpr hrest
    simp only [List.length_append, List.length_take, List.length_cons, List.length_tail]
    omega
  · rfl

/-- The loop that joins the text around every tag: the output, and what is left of the line. -/
def glueTurns : Nat → Text → Text → Text
  | 0, nl, _ => nl
  | _ + 1, nl, [] => nl
  | fuel + 1, nl, c :: rp =>
    if c = glueTag then
      match nl.rdropWhile white, rp.dropWhile white with
      | left@(_ :: _), d :: rightp => glueTurns fuel (left ++ [d]) rightp
      -- nothing to glue with
      | _, _ => glueTurns fuel (nl ++ [glueChar]) rp
    else glueTurns fuel (nl ++ [c]) rp

/-- The line with everything joined. -/
def glueTogether (nl : Text) : Text := glueTurns nl.length [] nl

/-! ### Identifiers -/

/-- `GrowSubId`, with the identifier so far, up to the next part. -/
def growSubId (isSubwordSubstitution startsAtUnderscore : Bool) : Text → Text → Text × Text
  | nid, [] => (nid, [])
  | nid, c :: p =>
    if islabchar c = false then (nid, c :: p)
    else if isSubwordSubstitution && (decide (cur p = '_') != startsAtUnderscore) then (nid ++ [c], p)
    else growSubId isSubwordSubstitution startsAtUnderscore (nid ++ [c]) p

/-- The identifier grows by label characters, at least by the one under the pointer. -/
theorem growSubId_spec (isSubword startsAtUnderscore : Bool) (nid p : Text) :
    ∃ q, (growSubId isSubword startsAtUnderscore nid p).1 = nid ++ q ∧
      q ++ (growSubId isSubword startsAtUnderscore nid p).2 = p ∧ (∀ c ∈ q, islabchar c = true) ∧
      (islabchar (cur p) = true → q ≠ []) := by
  -- by induction on the text: a character of a label is taken, and it may be the last one
  induction p generalizing nid with
  | nil => exact ⟨[], (List.append_nil nid).symm, rfl, nofun, fun h => absurd h (by decide)⟩
  | cons c p ih =>
    rw [growSubId]
    by_cases hc : islabchar c = false
    · rw [if_pos hc]
      refine ⟨[], (List.append_nil nid).symm, rfl, nofun, fun h => ?_⟩
      rw [cur_cons, hc] at h
      exact absurd h Bool.false_ne_true
    · rw [if_neg hc]
      rw [Bool.not_eq_false] at hc
      split_ifs
      · refine ⟨[c], rfl, rfl, ?_, fun _ => List.cons_ne_nil _ _⟩
        simpa using hc
      · obtain ⟨q, hnid, hp, hq, -⟩ := ih (nid ++ [c])
        refine ⟨c :: q, ?_, ?_, ?_, fun _ => List.cons_ne_nil _ _⟩
        · rw [hnid, List.append_assoc]
          rfl
        · rw [List.cons_append, hp]
        · exact List.forall_mem_cons.mpr ⟨hc, hq⟩

/-- The buffer of the identifier is too short for it. -/
def idTooLong {α : Type} : SubstProgram ω α := do
  substError "ID too long, buffer overflow detected." none .fatal
  exit

/-- `GrowSubId`. -/
def growPart (env : SubstContext ω) (sub : SubId) : SubstProgram ω SubId := do
  let s ← get
  let grown := growSubId env.isSubwordSubstitution (cur s.lp = '_') sub.nid s.lp
  modify fun s => { s with lp := grown.2 }
  if lineMax ≤ grown.1.length then idTooLong else pure { sub with nid := grown.1 }

/-- `GrowSubIdByExtraChar` for so many characters. -/
def growByExtraChars (n : Nat) (sub : SubId) : SubstProgram ω SubId := do
  let s ← get
  let nid := sub.nid ++ s.lp.take n
  modify fun s => { s with lp := s.lp.drop n }
  if lineMax ≤ nid.length then idTooLong else pure { sub with nid := nid }

/-- A value goes to the output, as far as it fits, and the loop goes on behind the part if the identifier
does. -/
def writeSub (ver : Text) (s : SubstState ω) : SubstState ω :=
  { s with
    nl := s.nl ++ ver.take (lineMax - s.nl.length)
    subId := if islabchar (cur s.lp) then some ⟨[], s.lp, false⟩ else none }

/-- A replacement. -/
def replaceSub (ver : Text) (s : SubstState ω) : SubstState ω :=
  writeSub ver { s with
    definegereplaced := true
    nl := (glueAhead s.nl).1
    lp := (glueBehind s.lp).1
    glueToProcess := s.glueToProcess || (glueAhead s.nl).2 || (glueBehind s.lp).2 }

/-- What is found for an identifier, as far as it is grown. -/
inductive FoundSub
  | value (ver : Text)
  | array (list : List Text)
  | nothing

/-- The look-ups in the tables: macro arguments first, and defines outside of lines about defines. -/
def lookUpSub (env : SubstContext ω) (sub : SubId) (s : SubstState ω) : FoundSub × SubstState ω :=
  -- only the first part of an identifier may start with an underscore
  let canSubstituteInside := cur sub.nid ≠ '_' || sub.isWhole
  match if canSubstituteInside then env.macroDefine sub.nid else none with
  | some ver => (.value ver, s)
  | none =>
    if !s.isDefDir && canSubstituteInside then
      let found := s.defineTable.get sub.nid s.predefinedCounter env.line
      let t := { s with defineTable := found.2.1, predefinedCounter := found.2.2 }
      match found.1 with
      | some ver => (if found.2.1.defArrayList = [] then .value ver else .array found.2.1.defArrayList, t)
      | none => (.nothing, t)
    else (.nothing, s)

/-- The item of an array with an index. -/
def arrayItem (list : List Text) (val : Aint) : Option Text :=
  if val.toInt < 0 then none else list[val.toInt.toNat]?

/-- The index of an array, behind its opening bracket. -/
def substituteItem (env : SubstContext ω) (list : List Text) (sub : SubId) : SubstProgram ω Unit := do
  let s ← get
  let (index, world) := env.parseExpressionInSubstitution s.world s.lp
  modify fun s => { s with world := world, log := s.log ++ index.log }
  let lp := s.lp.drop index.length
  match if cur lp = ']' ∧ index.isLabelNotFound = false then index.val else none with
  | some val => do
    modify fun s => { s with lp := lp.tail }
    match arrayItem list val with
    | some item => modify (replaceSub item)
    | none => do
      substError "[ARRAY] index not in 0..<Size-1> range" (some sub.nextSubIdLp) .suppress
      modify (replaceSub [])
  -- no substitution is possible now, and the expression is copied like other text
  | none => modify (writeSub sub.nid)

/-- An array with an index, or its size. -/
def substituteArray (env : SubstContext ω) (list : List Text) (sub : SubId) : SubstProgram ω Unit := do
  let s ← get
  let sub ← growByExtraChars (s.lp.takeWhile white).length sub
  let s ← get
  if cur s.lp ≠ '[' then do
    substError "[ARRAY] Expression error" (some sub.nextSubIdLp) .suppress
    modify (writeSub sub.nid)
  else
    match stripPrefix "[#]".toList s.lp with
    | some lp => do
      modify fun s => { s with lp := lp }
      modify (replaceSub (toString list.length).toList)
    | none => do
      let sub ← growByExtraChars 1 sub
      substituteItem env list sub

/-- Without a substitution the identifier grows, and at its end the first part is copied. -/
def copyPart (env : SubstContext ω) (sub : SubId) : SubstProgram ω Unit := do
  let s ← get
  if islabchar (cur s.lp) then modify fun s => { s with subId := some sub }
  else do
    modify fun s => { s with lp := sub.nextSubIdLp }
    let sub ← growPart env { sub with nid := [] }
    modify (writeSub sub.nid)

/-- A turn of the loop over the parts of an identifier. -/
def subIdTurn (env : SubstContext ω) (sub : SubId) : SubstProgram ω Unit := do
  let sub ← growPart env sub
  let s ← get
  let (found, t) := lookUpSub env sub s
  modify fun _ => t
  match found with
  | .value ver => modify (replaceSub ver)
  | .array list => substituteArray env list sub
  | .nothing => copyPart env sub

/-! ### The line -/

/-- The words behind which only macro arguments are replaced. -/
def defineDirectives : List String :=
  ["define+", "define", "undefine", "defarray+", "defarray", "ifdef", "ifndef", "macro"]

/-- A string literal starts here. -/
def startsLiteral (s : SubstState ω) : Bool :=
  s.afterNonAlphaNumNext && (cur s.lp = '"' || cur s.lp = '\'')

/-- A turn of the loop over the line, and whether it goes on. -/
def scanTurn (s : SubstState ω) : Bool × SubstState ω :=
  let c1 := cur s.lp
  let c2 := cur s.lp.tail
  let t := { s with afterNonAlphaNumNext := !c1.isAlphanum }
  if s.lp = [] ∨ lineMax ≤ s.nl.length then (false, s)
  else if c1 = '/' ∧ c2 = '*' then (true, { t with lp := s.lp.drop 2, comlin := s.comlin + 1 })
  else if s.comlin ≠ 0 then
    if c1 = '*' ∧ c2 = '/' then
      -- a blank, if the comment may be between two words
      (true, { t with
        lp := s.lp.drop 2
        nl := if s.comlin = 1 then s.nl ++ [' '] else s.nl
        comlin := s.comlin - 1 })
    else (true, { t with lp := s.lp.tail })
  else if c1 = ';' ∨ (c1 = '/' ∧ c2 = '/') then
    (false, { t with
      eolComment := if s.eolComment = none ∧ s.inLine then some s.lp else s.eolComment })
  else if startsLiteral s then
    (true, { t with
      nl := s.nl ++ literalText s.lp
      lp := (literalRest c1 s.lp.tail).2 })
  else if isLabelStart s.lp false = false then (true, { t with nl := s.nl ++ [c1], lp := s.lp.tail })
  else
    (true, { t with
      isDefDir := s.isDefDir ||
        (s.afterNonAlphaNumNext && defineDirectives.any fun kw => (cmphstr s.lp kw.toList).isSome)
      subId := some ⟨[], s.lp, true⟩ })

/-- A turn of the loops of a pass. -/
def substTurn (env : SubstContext ω) (_ : Unit) : SubstProgram ω (Unit ⊕ Unit) := do
  let s ← get
  match s.subId with
  | some sub => do
    subIdTurn env sub
    pure (.inl ())
  | none => do
    let (more, t) := scanTurn s
    modify fun _ => t
    pure (if more then .inl () else .inr ())

/-- What the loops of a pass take down.  In an identifier the text from the part on comes first, since the
loop goes back to it. -/
def substMeasure (s : SubstState ω) : Nat :=
  match s.subId with
  | none => 2 * (s.lp.length * s.lp.length + s.lp.length) + 1
  | some sub => 2 * (sub.nextSubIdLp.length * sub.nextSubIdLp.length + s.lp.length)

/-- The loops of a pass. -/
def substLoop (env : SubstContext ω) : SubstProgram ω Unit :=
  whileLoop substMeasure (substTurn env) ()

/-- The state at the start of a pass. -/
def startPass (src : Text) (s : SubstState ω) : SubstState ω :=
  { s with
    lp := src
    nl := []
    subId := none
    isDefDir := false
    afterNonAlphaNumNext := true
    definegereplaced := false }

/-- `ReplaceDefineInternal`: whether something was replaced, and the content of the output buffer. -/
def replaceDefineInternal (env : SubstContext ω) (src : Text) : SubstProgram ω (Bool × Text) := do
  modify (startPass src)
  substLoop env
  let s ← get
  when (lineMax ≤ s.nl.length + 1) <|
    substError "line too long after macro expansion" (some s.nl) .suppress
  if !s.definegereplaced && s.glueToProcess then do
    modify fun s => { s with glueToProcess := false }
    pure (true, glueTogether s.nl)
  else
    -- a line of blanks is an empty one
    pure (s.definegereplaced, if !s.glueToProcess && skipBlanks s.nl = [] then [] else s.nl)

/-- The loop of `ReplaceDefine`. -/
def replaceDefinePasses (env : SubstContext ω) : Nat → Text → SubstProgram ω Text
  | 0, src => do
    substError "Unable to finish substitutions, line after last iteration" (some src) .suppress
    pure src
  | maxIter + 1, src => do
    let (replaced, dst) ← replaceDefineInternal env src
    if replaced then do
      modify fun s => { s with inLine := false }
      replaceDefinePasses env maxIter dst
    else pure dst

/-- `ReplaceDefine`. -/
def replaceDefine (env : SubstContext ω) (src : Text) : SubstProgram ω Text := do
  modify fun s => { s with glueToProcess := false }
  replaceDefinePasses env 31 src

end Sjasmplus
