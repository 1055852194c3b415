import Sjasmplus.MemoryAccess

/-!
# Operands of instructions (`z80.cpp`)

`getRegister` reads a register or a register in brackets; the readers behind it read the other operands.
Registers in brackets may have a displacement, which the source leaves in `GetRegister_lastIxyD`: here
`getRegister` returns it, `none` when nothing is stored.

* `getRegister_eq` — the recursive equation of the source;
* `getRegister_plain` — a register without brackets is read silently;
* `getRegister_memory` — how a register in brackets is read.

Relocation data and its warnings are left out, since no byte of an instruction depends on them.
-/

namespace Sjasmplus

open Parsing ParseFn

/-! ### Options -/

/-- The options that instructions depend on. -/
structure InstructionOptions where
  isI8080 : Bool
  isLR35902 : Bool
  fakeEnabled : Bool
  fakeWarning : Bool
  caseInsensitiveInstructions : Bool
  is_M_Memory : Bool
  memoryBrackets : Nat
  isNextEnabled : Nat
  isReversePOP : Bool
  /-- `MultiArg` is `comma`, and otherwise `doubleComma`. -/
  isMultiArgPlainComma : Bool

/-- The globals that instructions read. -/
structure InstructionEnv extends InstructionOptions where
  expr : ExprEnv
  bp : Text
  line : Text

namespace Z80

/-- `Z80Reg`. -/
inductive Z80Reg
  | b | c | d | e | h | l | memHL | a | i | r | f
  | bc | de | hl | sp | af
  | memHLI | memHLD
  | ix | iy | memIX | memIY | ixh | ixl | iyh | iyl
  | unk
deriving DecidableEq, Repr

namespace Z80Reg

def value : Z80Reg → Int
  | b => 0
  | c => 1
  | d => 2
  | e => 3
  | h => 4
  | l => 5
  | memHL => 6
  | a => 7
  | i => 8
  | r => 9
  | f => 10
  | bc => 0x10
  | de => 0x20
  | hl => 0x30
  | sp => 0x40
  | af => 0x50
  | memHLI => 0x22
  | memHLD => 0x32
  | ix => 0xDD
  | iy => 0xFD
  | memIX => 0x6DD
  | memIY => 0x6FD
  | ixh => 0x4DD
  | ixl => 0x5DD
  | iyh => 0x4FD
  | iyl => 0x5FD
  | unk => -1

/-- `reg&0xFF` and `Z80Reg(reg>>8)` of the registers that have an index prefix in front. -/
def indexed : Z80Reg → Option (Int × Z80Reg)
  | memIX => some (0xDD, memHL)
  | memIY => some (0xFD, memHL)
  | ixh => some (0xDD, h)
  | ixl => some (0xDD, l)
  | iyh => some (0xFD, h)
  | iyl => some (0xFD, l)
  | _ => none

end Z80Reg

/-- `GetRegister_r16High`. -/
def getRegister_r16High : Z80Reg → Z80Reg
  | .bc => .b
  | .de => .d
  | .hl => .h
  | .af => .a
  | .ix => .ixh
  | .iy => .iyh
  | _ => .unk

/-- `GetRegister_r16Low`. -/
def getRegister_r16Low : Z80Reg → Z80Reg
  | .bc => .c
  | .de => .e
  | .hl => .l
  | .af => .f
  | .ix => .ixl
  | .iy => .iyl
  | _ => .unk

section

variable (env : InstructionEnv)

/-! ### Values -/

/-- `val & 255`. -/
def lowByte (val : Aint) : Int := (val.toNat % 256 : Nat)

/-- `(val >> 8) & 255`. -/
def highByte (val : Aint) : Int := (val.toNat / 256 % 256 : Nat)

/-- `check8o`. -/
def check8o (val : Aint) : List Event :=
  if val.toInt < -128 ∨ 127 < val.toInt then
    [.error ("Offset out of range (" ++ (if 0 ≤ val.toInt then "+" else "") ++ toString val.toInt ++ ")")
      none .ifFirst]
  else []

/-- `ParseExpression`: its outcome does not depend on the relocation flags. -/
def parseExpression : Reader Aint := fun p =>
  (Sjasmplus.parseExpression env.expr ⟨false, .off⟩ p).1

/-- `ParseExpressionMemAccess`: its result and the value. -/
def parseExpressionMemAccess : Reader (Nat × Aint) := fun p =>
  let (result, o, _) := Sjasmplus.parseExpressionMemAccess env.memoryBrackets env.expr ⟨false, .off⟩ p
  ⟨some (result, o.val.getD 0), o.rest, o.log⟩

/-- The value of an expression, 0 with an error where there is none. -/
def getValue (check : Aint → List Event) : Reader Aint := do
  match ← attempt (parseExpression env) with
  | none =>
    ParseFn.report [.error "Operand expected" none .ifFirst]
    pure 0
  | some val =>
    ParseFn.report (check val)
    pure val

/-- The value of an expression that is no memory access, 0 with an error for anything else. -/
def getValueNoMem (check : Aint → List Event) : Reader Aint := do
  let oldP ← ParseFn.peek
  match ← parseExpressionMemAccess env with
  | (1, val) =>
    ParseFn.report (check val)
    pure val
  | (2, _) =>
    ParseFn.report [.error "Illegal instruction (can't access memory)" (some oldP) .pass3]
    pure 0
  | _ =>
    ParseFn.report [.error "Operand expected" (some oldP) .ifFirst]
    pure 0

/-- `GetByte`. -/
def getByte (signedCheck : Bool := false) : Reader Int := do
  return lowByte (← getValue env (if signedCheck then check8o else check8))

/-- `GetByteNoMem`. -/
def getByteNoMem (signedCheck : Bool := false) : Reader Int :=
  if env.memoryBrackets = 0 then getByte env signedCheck
  else do return lowByte (← getValueNoMem env (if signedCheck then check8o else check8))

/-- `GetWord`. -/
def getWord : Reader Aint := do return (← getValue env check16) &&& 65535

/-- `GetWordNoMem`. -/
def getWordNoMem : Reader Aint :=
  if env.memoryBrackets = 0 then getWord env
  else do return (← getValueNoMem env check16) &&& 65535

/-- `z80GetIDxoffset`. -/
def z80GetIDxoffset : Reader Int := do
  let p ← ParseFn.peek
  if cur (skipBlanks p) = ')' ∨ cur (skipBlanks p) = ']' then pure 0
  else getByte env true

/-! ### Commas and brackets -/

/-- `comma`: a double comma is none. -/
def comma : Reader Bool :=
  scan fun p =>
    let p := skipBlanks p
    if cur p = ',' ∧ cur p.tail ≠ ',' then (true, p.tail) else (false, p)

/-- `doubleComma`. -/
def doubleComma : Reader Bool :=
  scan fun p =>
    let p := skipBlanks p
    if cur p = ',' ∧ cur p.tail = ',' then (true, p.tail.tail) else (false, p)

/-- `MultiArg`. -/
def multiArg : Reader Bool := if env.isMultiArgPlainComma then comma else doubleComma

/-- `nonMaComma`. -/
def nonMaComma : Reader Bool := if env.isMultiArgPlainComma then pure false else comma

/-- `relaxedMaComma`. -/
def relaxedMaComma : Reader Bool :=
  scan fun p =>
    let p := skipBlanks p
    if cur p ≠ ',' then (false, p)
    else if cur p.tail = ',' then if env.isMultiArgPlainComma then (false, p) else (true, p.tail.tail)
    else (true, p.tail)

/-- `OpenBracket`. -/
def openBracket : Reader EBracketType := scan (Sjasmplus.openBracket env.memoryBrackets)

/-- `CloseBracket`, for the bracket that is open. -/
def closeBracket : EBracketType → Reader Bool
  | .round => need ')'
  | .curly => need '}'
  | .square => need ']'
  | .none => do
    blanks
    pure false

/-- `SkipToEol`. -/
def skipToEol : Reader Unit := seek []

/-! ### Registers -/

/-- The processor has neither the index registers nor `I` and `R`. -/
def nonZ80CPU : Bool := env.isI8080 || env.isLR35902

/-- The table of single letters. -/
def r8 (oneLetter : Nat) : Z80Reg :=
  match Char.ofNat oneLetter with
  | 'a' => .a
  | 'b' => .b
  | 'c' => .c
  | 'd' => .d
  | 'e' => .e
  | 'f' => .f
  | 'h' => .h
  | 'i' => if nonZ80CPU env then .unk else .i
  | 'l' => .l
  | 'm' => if env.is_M_Memory then .memHL else .unk
  | 'r' => if nonZ80CPU env then .unk else .r
  | _ => .unk

/-- The registers whose names start with a small letter, with what follows it in the name. -/
def registerNames : Char → List (List Char × Z80Reg)
  | 'a' => [(['f'], .af)]
  | 'b' => [(['c'], .bc)]
  | 'd' => [(['e'], .de)]
  | 'h' => (['l'], .hl) :: if nonZ80CPU env then [] else [(['x'], .ixh), (['y'], .iyh)]
  | 'i' => if nonZ80CPU env then [] else [(['x'], .ix), (['y'], .iy), (['x', 'h'], .ixh),
      (['x', 'l'], .ixl), (['y', 'h'], .iyh), (['y', 'l'], .iyl)]
  | 'x' => if nonZ80CPU env then [] else [(['h'], .ixh), (['l'], .ixl)]
  | 'y' => if nonZ80CPU env then [] else [(['h'], .iyh), (['l'], .iyl)]
  | 'l' => if nonZ80CPU env then [] else [(['x'], .ixl), (['y'], .iyl)]
  | 's' => [(['p'], .sp)]
  | _ => []

/-- `GetRegister_pair` and `GetRegister_3letter`. -/
def nameEnds (expect : List Char) (p : Text) : Bool :=
  let letter : Char → Nat := if env.caseInsensitiveInstructions then lower20 else Char.toNat
  expect.map letter = (p.take expect.length).map letter && !islabchar (cur (p.drop expect.length))

/-- The register with two letters or more, and the text behind its name. -/
def longRegister : Text → Option (Z80Reg × Text)
  | [] => none
  | c :: p =>
    let names := (registerNames env c.toLower).map fun name =>
      (if c.isUpper then name.1.map Char.toUpper else name.1, name.2)
    (names.find? fun name => nameEnds env name.1 p).map fun name => (name.2, p.drop name.1.length)

section Body

variable (inner : Reader (Z80Reg × Option Int))

/-- A half of the register pair at `q`; `pp` is the start of the operand. -/
def registerHalf (half : Z80Reg → Z80Reg) (pp q : Text) : Reader (Z80Reg × Option Int) := do
  seek q
  let (reg, d) ← inner
  if reg = .unk then do
    seek pp
    pure (.unk, d)
  else pure (half reg, d)

/-- The register in brackets, where the processor may step it. -/
def memoryStep (memReg : Z80Reg) : Reader Z80Reg :=
  scan fun p =>
    if env.isLR35902 ∧ memReg = .hl then
      if cur p = '+' then (.memHLI, p.tail) else if cur p = '-' then (.memHLD, p.tail) else (memReg, p)
    else (memReg, p)

/-- The displacement behind an index register. -/
def displacement (memReg : Z80Reg) (d : Option Int) : Reader (Option Int) :=
  if memReg = .ix ∨ memReg = .iy then do return some (← z80GetIDxoffset env) else pure d

/-- The operand that a register in brackets is. -/
def inBrackets : Z80Reg → Z80Reg
  | .hl => .memHL
  | .ix => .memIX
  | .iy => .memIY
  | .memHLI => .memHLI
  | .memHLD => .memHLD
  | _ => .unk

/-- The end of a register in brackets. -/
def closeMemory (memClose : Char) (pp : Text) (memReg : Z80Reg) (d : Option Int) :
    Reader (Z80Reg × Option Int) := do
  blanks
  let p ← ParseFn.peek
  if cur p = memClose ∧ inBrackets memReg ≠ .unk then do
    skip 1
    pure (inBrackets memReg, d)
  else do
    seek pp
    pure (.unk, d)

/-- A register in brackets, with the text `q` behind the opening one. -/
def registerMemory (memClose : Char) (pp q : Text) : Reader (Z80Reg × Option Int) := do
  seek q
  let (memReg, d) ← inner
  let memReg ← memoryStep env memReg
  let d ← displacement env memReg d
  closeMemory memClose pp memReg d

/-- A register of one letter. -/
def registerLetter (pp : Text) (reg : Z80Reg) : Reader (Z80Reg × Option Int) :=
  match reg with
  | .unk => do
    seek pp
    pure (.unk, none)
  | reg => do
    skip 1
    pure (reg, none)

/-- `GetRegister` at `p` behind its blanks; `pp` is the start of the operand. -/
def registerAt (pp p : Text) : Reader (Z80Reg × Option Int) :=
  if 'a'.toNat ≤ lower20 (cur p) ∧ lower20 (cur p) ≤ 'r'.toNat ∧ islabchar (cur p.tail) = false then
    registerLetter pp (r8 env (lower20 (cur p)))
  else
    match cmphstr p ['h', 'i', 'g', 'h'], cmphstr p ['l', 'o', 'w'], longRegister env p with
    | some q, _, _ => registerHalf inner getRegister_r16High pp q
    | none, some q, _ => registerHalf inner getRegister_r16Low pp q
    | none, none, some (reg, q) => do
      seek q
      pure (reg, none)
    | none, none, none =>
      if cur p = '(' ∧ env.memoryBrackets ≠ 2 then registerMemory env inner ')' pp p.tail
      else if cur p = '[' then registerMemory env inner ']' pp p.tail
      else do
        seek pp
        pure (.unk, none)

/-- `GetRegister`, with the recursive calls as a parameter. -/
def getRegisterBody : Reader (Z80Reg × Option Int) := do
  let pp ← ParseFn.peek
  blanks
  registerAt env inner pp (← ParseFn.peek)

end Body

/-- `GetRegister` with a bound on the depth of the recursion. -/
def getRegisterFuel : Nat → Reader (Z80Reg × Option Int)
  | 0 => pure (.unk, none)
  | fuel + 1 => getRegisterBody env (getRegisterFuel fuel)

/-- `GetRegister`: the register, and the displacement that it stores. -/
def getRegister : Reader (Z80Reg × Option Int) := fun p => getRegisterFuel env (p.length + 1) p

/-! ### The recursion -/

theorem getRegisterBody_apply (inner : Reader (Z80Reg × Option Int)) (p : Text) :
    getRegisterBody env inner p = registerAt env inner p (skipBlanks p) (skipBlanks p) := rfl

/-- The recursive calls are behind a character that is consumed. -/
theorem getRegisterBody_congr {inner inner' : Reader (Z80Reg × Option Int)} {p : Text}
    (h : ∀ q : Text, q.length < p.length → inner q = inner' q) :
    getRegisterBody env inner p = getRegisterBody env inner' p := by
  have hskip := length_skipBlanks_le p
  -- behind `HIGH` and `LOW`
  have hhalf : ∀ {q : Text} (half : Z80Reg → Z80Reg), q.length < p.length →
      registerHalf inner half p q (skipBlanks p) = registerHalf inner' half p q (skipBlanks p) := by
    intro q half hq
    rw [registerHalf, registerHalf, bind_silent (seek_apply q _), bind_silent (seek_apply q _)]
    exact bind_congr (h q hq) fun _ _ => rfl
  -- behind an opening bracket
  have hmemory : ∀ (c : Char), cur (skipBlanks p) ≠ '\x00' →
      registerMemory env inner c p (skipBlanks p).tail (skipBlanks p)
        = registerMemory env inner' c p (skipBlanks p).tail (skipBlanks p) := by
    intro c hcur
    have htail : (skipBlanks p).tail.length < p.length := by
      cases hq : skipBlanks p with
      | nil => exact absurd (by rw [hq]; rfl) hcur
      | cons d q =>
        rw [hq, List.length_cons] at hskip
        exact hskip
    rw [registerMemory, registerMemory, bind_silent (seek_apply _ _), bind_silent (seek_apply _ _)]
    exact bind_congr (h _ htail) fun _ _ => rfl
  rw [getRegisterBody_apply, getRegisterBody_apply, registerAt, registerAt]
  by_cases hletter : 'a'.toNat ≤ lower20 (cur (skipBlanks p)) ∧ lower20 (cur (skipBlanks p)) ≤ 'r'.toNat ∧
      islabchar (cur (skipBlanks p).tail) = false
  · rw [if_pos hletter, if_pos hletter]
  rw [if_neg hletter, if_neg hletter]
  rcases hhigh : cmphstr (skipBlanks p) ['h', 'i', 'g', 'h'] with _ | q
  · rcases hlow : cmphstr (skipBlanks p) ['l', 'o', 'w'] with _ | q
    · rcases longRegister env (skipBlanks p) with _ | ⟨reg, q⟩
      · dsimp only
        split_ifs with hround hsquare
        · exact hmemory ')' (by rw [hround.1]; decide)
        · exact hmemory ']' (by rw [hsquare]; decide)
        · rfl
      · rfl
    · have hlt := length_of_cmphstr hlow
      exact hhalf _ (by simp only [List.length_cons] at hlt; omega)
  · have hlt := length_of_cmphstr hhigh
    exact hhalf _ (by simp only [List.length_cons] at hlt; omega)

/-- The length of the text is enough fuel. -/
theorem getRegisterFuel_congr {fuel fuel' : Nat} {p : Text} (h : p.length < fuel)
    (h' : p.length < fuel') : getRegisterFuel env fuel p = getRegisterFuel env fuel' p := by
  induction fuel generalizing fuel' p with
  | zero => exact absurd h (Nat.not_lt_zero _)
  | succ fuel ih =>
    obtain ⟨fuel', rfl⟩ : ∃ n, fuel' = n + 1 := ⟨fuel' - 1, by omega⟩
    exact getRegisterBody_congr env fun q hq => ih (by omega) (by omega)

/-- **The recursive equation of `GetRegister`.** -/
theorem getRegister_eq (p : Text) : getRegister env p = getRegisterBody env (getRegister env) p :=
  getRegisterBody_congr env fun _ hq => getRegisterFuel_congr env hq (Nat.lt_succ_self _)

/-! ### Registers without brackets -/

variable {env}

/-- A register that is not in brackets. -/
def isPlain : Z80Reg → Bool
  | .memHL | .memHLI | .memHLD | .memIX | .memIY | .unk => false
  | _ => true

theorem registerMemory_yields (inner : Reader (Z80Reg × Option Int)) (memClose : Char) (pp q : Text) :
    Yields (registerMemory env inner memClose pp q) fun result => isPlain result.1 = false := by
  have hbrackets : ∀ {reg : Z80Reg}, isPlain (inBrackets reg) = false := by
    intro reg
    cases reg <;> rfl
  have hclose : ∀ reg d, Yields (closeMemory memClose pp reg d) fun result =>
      isPlain result.1 = false := by
    intro reg d
    refine Yields.after _ fun _ => Yields.after _ fun p => Yields.ite (fun _ => ?_) fun _ => ?_
    · exact Yields.after _ fun _ => Yields.pure hbrackets
    · exact Yields.after _ fun _ => Yields.pure rfl
  exact Yields.after _ fun _ => Yields.after _ fun result => Yields.after _ fun reg =>
    Yields.after _ fun d => hclose reg d

/-- A register without brackets is read silently, and stores no displacement. -/
theorem getRegisterFuel_plain {fuel : Nat} {p : Text} {reg : Z80Reg} {d : Option Int}
    (hplain : isPlain reg = true) (h : (getRegisterFuel env fuel p).val = some (reg, d)) :
    d = none ∧ (getRegisterFuel env fuel p).log = [] := by
  -- by induction on the fuel: only `HIGH` and `LOW` go on to a plain register
  induction fuel generalizing p reg d with
  | zero =>
    obtain ⟨rfl, rfl⟩ := Prod.mk.inj (Option.some.inj h)
    exact absurd hplain (by decide)
  | succ fuel ih =>
    have hhalf : ∀ {half : Z80Reg → Z80Reg} {q : Text},
        (∀ pair, isPlain (half pair) = true → isPlain pair = true) →
        (registerHalf (getRegisterFuel env fuel) half p q (skipBlanks p)).val = some (reg, d) →
        d = none ∧ (registerHalf (getRegisterFuel env fuel) half p q (skipBlanks p)).log = [] := by
      intro half q hback hval
      rw [registerHalf, bind_silent (seek_apply q _), bind_apply] at hval ⊢
      rcases hinner : getRegisterFuel env fuel q with ⟨_ | ⟨reg', d'⟩, q', l'⟩
      · rw [hinner] at hval
        exact absurd hval (by simp)
      rw [hinner, andThen_some] at hval
      rw [andThen_some]
      dsimp only at hval ⊢
      split_ifs at hval ⊢ with hunk
      · obtain ⟨rfl, -⟩ := Prod.mk.inj (Option.some.inj hval)
        exact absurd hplain (by decide)
      · obtain ⟨rfl, rfl⟩ := Prod.mk.inj (Option.some.inj hval)
        obtain ⟨hd, hl⟩ := ih (hback reg' hplain) (by rw [hinner])
        rw [hinner] at hl
        exact ⟨hd, by rw [show l' = [] from hl]; rfl⟩
    -- memory never reads as a register without brackets
    have hmemory : ∀ {memClose : Char} {q : Text},
        (registerMemory env (getRegisterFuel env fuel) memClose p q (skipBlanks p)).val = some (reg, d) →
        False := by
      intro memClose q hval
      have hnot : isPlain reg = false := registerMemory_yields (getRegisterFuel env fuel) memClose p q _ _ hval
      rw [hplain] at hnot
      exact absurd hnot (by decide)
    rw [getRegisterFuel, getRegisterBody_apply, registerAt] at h ⊢
    by_cases hletter : 'a'.toNat ≤ lower20 (cur (skipBlanks p)) ∧
        lower20 (cur (skipBlanks p)) ≤ 'r'.toNat ∧ islabchar (cur (skipBlanks p).tail) = false
    · rw [if_pos hletter] at h ⊢
      generalize r8 env (lower20 (cur (skipBlanks p))) = letter at h ⊢
      have hlog : (registerLetter p letter (skipBlanks p)).log = [] ∧
          (registerLetter p letter (skipBlanks p)).val = some (letter, none) := by
        cases letter <;> exact ⟨rfl, rfl⟩
      rw [hlog.2] at h
      exact ⟨(Prod.mk.inj (Option.some.inj h)).2.symm, hlog.1⟩
    rw [if_neg hletter] at h ⊢
    -- the order of the source: the two words, the long names, and memory
    rcases hhigh : cmphstr (skipBlanks p) ['h', 'i', 'g', 'h'] with _ | q
    · rcases hlow : cmphstr (skipBlanks p) ['l', 'o', 'w'] with _ | q
      · rcases hname : longRegister env (skipBlanks p) with _ | ⟨reg', q⟩
        · simp only [hhigh, hlow, hname] at h ⊢
          split_ifs at h ⊢ with hround hsquare
          · exact (hmemory h).elim
          · exact (hmemory h).elim
          · obtain ⟨rfl, -⟩ := Prod.mk.inj (Option.some.inj h)
            exact absurd hplain (by decide)
        · simp only [hhigh, hlow, hname] at h ⊢
          obtain ⟨-, rfl⟩ := Prod.mk.inj (Option.some.inj h)
          exact ⟨rfl, rfl⟩
      · simp only [hhigh, hlow] at h ⊢
        exact hhalf (by intro pair; cases pair <;> decide) h
    · simp only [hhigh] at h ⊢
      exact hhalf (by intro pair; cases pair <;> decide) h

/-- **A register without brackets** is read silently, and stores no displacement. -/
theorem getRegister_plain {p : Text} {reg : Z80Reg} (hplain : isPlain reg = true)
    (h : (getRegister env p).val.map Prod.fst = some reg) :
    getRegister env p = ⟨some (reg, none), (getRegister env p).rest, []⟩ := by
  obtain ⟨⟨reg', d⟩, hval, rfl⟩ := Option.map_eq_some_iff.mp h
  obtain ⟨rfl, hlog⟩ := getRegisterFuel_plain hplain hval
  exact Outcome.ext hval rfl hlog

/-! ### Registers in brackets -/


/-- The opening bracket that is found. -/
theorem openBracket_eq {p p₁ : Text} {bt : EBracketType} (hopen : openBracket env p = ⟨some bt, p₁, []⟩)
    (hbt : bt ≠ .none) :
    (bt = .round ∧ env.memoryBrackets ≠ 2 ∧ skipBlanks p = '(' :: p₁) ∨
      (bt = .square ∧ skipBlanks p = '[' :: p₁) := by
  have hcons : ∀ {c : Char} {q : Text}, c ≠ '\x00' → cur q = c → q = c :: q.tail := by
    intro c q hc hcur
    cases q with
    | nil => exact absurd hcur.symm hc
    | cons d q => rw [cur_cons] at hcur; rw [hcur]; rfl
  simp only [openBracket, scan_apply, Outcome.mk.injEq, Option.some.injEq, and_true,
    Sjasmplus.openBracket] at hopen
  split_ifs at hopen with hmode hround hsquare
  · exact absurd hopen.1.symm hbt
  · obtain ⟨rfl, rfl⟩ := hopen
    exact Or.inl ⟨rfl, fun h => hmode ⟨h, hround⟩, hcons (by decide) hround⟩
  · obtain ⟨rfl, rfl⟩ := hopen
    exact Or.inr ⟨rfl, hcons (by decide) hsquare⟩
  · exact absurd hopen.1.symm hbt

/-- In front of an opening bracket there is no name. -/
theorem registerAt_bracket (inner : Reader (Z80Reg × Option Int)) (pp : Text) {c : Char}
    (hc : c = '(' ∧ env.memoryBrackets ≠ 2 ∨ c = '[') (p : Text) :
    registerAt env inner pp (c :: p)
      = registerMemory env inner (if c = '(' then ')' else ']') pp p := by
  have hword : ∀ {k : Char} {ks : List Char}, k.isAlpha = true →
      cmphstr (c :: p) (k :: ks) = none := by
    intro k ks hk
    refine cmphstr_of_not_isAlpha ?_ hk p false
    rcases hc with ⟨rfl, -⟩ | rfl <;> rfl
  have hletter : ¬('a'.toNat ≤ lower20 c ∧ lower20 c ≤ 'r'.toNat ∧ islabchar (cur p) = false) := by
    rcases hc with ⟨rfl, -⟩ | rfl
    · exact fun h => absurd h.1 (by decide)
    · exact fun h => absurd h.2.1 (by decide)
  have hname : longRegister env (c :: p) = none := by
    rcases hc with ⟨rfl, -⟩ | rfl <;> rfl
  rw [registerAt, cur_cons, List.tail_cons, if_neg hletter, hword (by decide), hword (by decide), hname]
  rcases hc with ⟨rfl, hmode⟩ | rfl
  · rw [if_pos ⟨rfl, hmode⟩, if_pos rfl]
  · rw [if_neg (fun h => absurd h.1 (by decide)), if_pos rfl, if_neg (by decide)]

/-- Behind an opening bracket the register is read first. -/
theorem getRegister_bracket {p p₁ p₂ : Text} {bt : EBracketType} {reg : Z80Reg} {d₀ : Option Int}
    {l : List Event} (hLR : env.isLR35902 = false) (hopen : openBracket env p = ⟨some bt, p₁, []⟩)
    (hbt : bt ≠ .none) (hreg : getRegister env p₁ = ⟨some (reg, d₀), p₂, l⟩) :
    ∃ c, closeBracket bt = need c ∧ getRegister env p
      = ((displacement env reg d₀ >>= fun d => closeMemory c p reg d) p₂).after l := by
  -- the stepping registers in brackets are of the LR35902 only
  have hstep : memoryStep env reg p₂ = ⟨some reg, p₂, []⟩ := by
    simp only [memoryStep, scan_apply, hLR, Bool.false_eq_true, false_and, if_false]
  have hmemory : ∀ (c : Char) (r : Text), registerMemory env (getRegister env) c p p₁ r
      = ((displacement env reg d₀ >>= fun d => closeMemory c p reg d) p₂).after l := by
    intro c r
    rw [registerMemory, bind_silent (seek_apply _ _), bind_some hreg]
    dsimp only
    rw [bind_silent hstep]
  rw [getRegister_eq, getRegisterBody_apply]
  -- the round bracket counts only in its mode, the square one always
  rcases openBracket_eq hopen hbt with ⟨rfl, hmode, hskip⟩ | ⟨rfl, hskip⟩
  · refine ⟨')', rfl, ?_⟩
    rw [hskip, registerAt_bracket _ _ (Or.inl ⟨rfl, hmode⟩)]
    exact hmemory ')' _
  · refine ⟨']', rfl, ?_⟩
    rw [hskip, registerAt_bracket _ _ (Or.inr rfl)]
    exact hmemory ']' _

/-- **A register in brackets**, from its parts. -/
theorem getRegister_memory {p p₁ p₂ p₃ q : Text} {bt : EBracketType} {reg : Z80Reg}
    {d₀ d : Option Int} {l₁ l₂ : List Event} (hLR : env.isLR35902 = false)
    (hopen : openBracket env p = ⟨some bt, p₁, []⟩) (hbt : bt ≠ .none)
    (hreg : getRegister env p₁ = ⟨some (reg, d₀), p₂, l₁⟩) (hin : inBrackets reg ≠ .unk)
    (hd : displacement env reg d₀ p₂ = ⟨some d, p₃, l₂⟩)
    (hclose : closeBracket bt p₃ = ⟨some true, q, []⟩) :
    getRegister env p = ⟨some (inBrackets reg, d), q, l₁ ++ l₂⟩ := by
  obtain ⟨c, hbracket, hget⟩ := getRegister_bracket hLR hopen hbt hreg
  have hend : closeMemory c p reg d p₃ = ⟨some (inBrackets reg, d), q, []⟩ := by
    rw [hbracket] at hclose
    simp only [need, scan_apply, Outcome.mk.injEq, Option.some.injEq, and_true] at hclose
    split_ifs at hclose with hc
    · obtain rfl : (skipBlanks p₃).tail = q := hclose.2
      rw [closeMemory, bind_silent (show blanks p₃ = ⟨some (), skipBlanks p₃, []⟩ from rfl),
        bind_silent (peek_apply _), if_pos ⟨hc, hin⟩, bind_silent (skip_apply 1 _), List.drop_one,
        pure_apply]
    · exact absurd hclose.1 (by decide)
  rw [hget, bind_some hd, hend, Outcome.after_mk, Outcome.after_mk, List.append_nil]

/-- A register in brackets that is no memory operand for `GetRegister`. -/
theorem getRegister_not_memory {p p₁ p₂ : Text} {bt : EBracketType} {reg : Z80Reg} {d₀ : Option Int}
    {l : List Event} (hLR : env.isLR35902 = false) (hopen : openBracket env p = ⟨some bt, p₁, []⟩)
    (hbt : bt ≠ .none) (hreg : getRegister env p₁ = ⟨some (reg, d₀), p₂, l⟩)
    (hin : inBrackets reg = .unk) : getRegister env p = ⟨some (.unk, d₀), p, l⟩ := by
  obtain ⟨c, -, hget⟩ := getRegister_bracket hLR hopen hbt hreg
  have hd : displacement env reg d₀ p₂ = ⟨some d₀, p₂, []⟩ := by
    rw [displacement, if_neg]
    · rfl
    · rintro (rfl | rfl) <;> exact absurd hin (by decide)
  have hend : closeMemory c p reg d₀ p₂ = ⟨some (.unk, d₀), p, []⟩ := by
    rw [closeMemory, bind_silent (show blanks p₂ = ⟨some (), skipBlanks p₂, []⟩ from rfl),
      bind_silent (peek_apply _), if_neg (fun h => h.2 hin), bind_silent (seek_apply p _), pure_apply]
  rw [hget, bind_silent hd, hend, Outcome.after_mk, List.append_nil]

/-! ### Stored displacements -/

/-- The displacement that is stored is a byte. -/
def IsByte (d : Option Int) : Prop := ∀ x, d = some x → ∃ val : Aint, x = lowByte val

theorem isByte_none : IsByte none := fun _ h => absurd h (by simp)

theorem displacement_isByte (reg : Z80Reg) {d : Option Int} (hd : IsByte d) :
    Yields (displacement env reg d) IsByte := by
  have hbyte : ∀ val, IsByte (some (lowByte val)) := fun val _ h => ⟨val, (Option.some.inj h).symm⟩
  have hoffset : Yields (z80GetIDxoffset env) fun x => IsByte (some x) :=
    Yields.after _ fun p => Yields.ite (fun _ => Yields.pure (hbyte 0)) fun _ =>
      Yields.after _ fun val => Yields.pure (hbyte val)
  exact Yields.ite (fun _ => Yields.bind hoffset fun _ hx => Yields.pure hx) fun _ => Yields.pure hd

theorem registerAt_isByte {inner : Reader (Z80Reg × Option Int)}
    (hinner : Yields inner fun result => IsByte result.2) (pp p : Text) :
    Yields (registerAt env inner pp p) fun result => IsByte result.2 := by
  have hletter : ∀ reg, Yields (registerLetter pp reg) fun result => IsByte result.2 := by
    intro reg
    cases reg <;> exact Yields.after _ fun _ => Yields.pure isByte_none
  have hhalf : ∀ half q, Yields (registerHalf inner half pp q) fun result => IsByte result.2 := fun _ _ =>
    Yields.after _ fun _ => Yields.bind hinner fun _ hd =>
      Yields.ite (fun _ => Yields.after _ fun _ => Yields.pure hd) fun _ => Yields.pure hd
  have hclose : ∀ c reg {d}, IsByte d → Yields (closeMemory c pp reg d) fun result =>
      IsByte result.2 := fun _ _ _ hd =>
    Yields.after _ fun _ => Yields.after _ fun _ =>
      Yields.ite (fun _ => Yields.after _ fun _ => Yields.pure hd) fun _ =>
        Yields.after _ fun _ => Yields.pure hd
  -- a displacement is read as a byte, and is the only one that is stored
  have hmemory : ∀ c q, Yields (registerMemory env inner c pp q) fun result => IsByte result.2 :=
    fun c _ => Yields.after _ fun _ => Yields.bind hinner fun _ hd => Yields.after _ fun reg =>
      Yields.bind (displacement_isByte reg hd) fun _ hd' => hclose c reg hd'
  rw [registerAt]
  refine Yields.ite (fun _ => hletter _) fun _ => ?_
  rcases cmphstr p ['h', 'i', 'g', 'h'] with _ | q
  · rcases cmphstr p ['l', 'o', 'w'] with _ | q
    · rcases longRegister env p with _ | ⟨reg, q⟩
      · exact Yields.ite (fun _ => hmemory _ _) fun _ => Yields.ite (fun _ => hmemory _ _) fun _ =>
          Yields.after _ fun _ => Yields.pure isByte_none
      · exact Yields.after _ fun _ => Yields.pure isByte_none
    · exact hhalf _ _
  · exact hhalf _ _

theorem getRegisterFuel_isByte (fuel : Nat) :
    Yields (getRegisterFuel env fuel) fun result => IsByte result.2 := by
  induction fuel with
  | zero => exact Yields.pure isByte_none
  | succ fuel ih =>
    exact Yields.after _ fun _ => Yields.after _ fun _ => Yields.after _ fun _ =>
      registerAt_isByte ih _ _

theorem getRegister_isByte : Yields (getRegister env) fun result => IsByte result.2 :=
  fun p => getRegisterFuel_isByte (p.length + 1) p

end

end Z80

end Sjasmplus
