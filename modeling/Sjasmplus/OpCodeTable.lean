import Mathlib.Data.List.Nodup
import Mathlib.Data.List.Pairwise
import Sjasmplus.Assembler
import Sjasmplus.MachineInstructions

/-!
# The table of instructions (`z80.cpp`, `tables.cpp`, `getinstr` of `reader.cpp`)

`getOpCode` reads the name of an instruction, looks it up in the table of the processor and runs its
function, which reads the operands at `lp` and emits the code.  Every argument of an instruction is read in
the state behind the code of the arguments in front of it.

Relocation data is left out, since no byte of an instruction depends on it.
-/

namespace Sjasmplus

open Parsing ParseFn

/-- The options and the texts that an instruction has beside the state of the assembler. -/
structure InstructionContext extends InstructionOptions where
  bp : Text
  line : Text

variable {n m : Nat}

/-- What the readers of operands see. -/
def InstructionContext.env (c : InstructionContext) (s : AsmState n m) : InstructionEnv where
  toInstructionOptions := c.toInstructionOptions
  expr := s.exprEnv true
  bp := c.bp
  line := c.line

/-- A function of the table. -/
abbrev OpCode (n m : Nat) := InstructionContext → AsmProgram n m Unit

/-! ### Statements of instructions -/

namespace AsmProgram

/-- `EmitByte` for every byte. -/
def emitCode (bytes : List Byte) : AsmProgram n m Unit :=
  emit fun s => bytes.foldl (fun s byte => s.emitByteNoListing byte false) s

end AsmProgram

namespace OpCode

/-- An instruction without operands. -/
def bytes (bytes : List Byte) : OpCode n m := fun _ => AsmProgram.emitCode bytes

section

variable (c : InstructionContext)

/-- Read operands at the parsing pointer. -/
def operands {α : Type} (reader : InstructionEnv → Reader α) : AsmProgram n m (Option α) := do
  let s ← get
  AsmProgram.read (reader (c.env s))

/-- `EmitBytes` at the start of an instruction. -/
def emitBytes (e : List Int) : AsmProgram n m Unit :=
  if e.headD Z80.bytesEndMarker = Z80.bytesEndMarker then do
    AsmProgram.error "Illegal instruction" (some c.line) .ifFirst
    modify fun s => { s with lp := [] }
  else AsmProgram.emitCode (Z80.emitted e)

/-- One argument with its code; false where the source leaves the instruction without emitting. -/
def emitArgument (argument : InstructionEnv → Reader (Option (List Int))) : AsmProgram n m Bool := do
  match ← operands c argument with
  | some (some e) =>
    emitBytes c e
    pure true
  | _ => pure false

/-- The loop over the arguments with a bound on their number. -/
def argumentsFuel (delimiter : InstructionEnv → Reader Bool)
    (argument : InstructionEnv → Reader (Option (List Int))) : Nat → AsmProgram n m Unit
  | 0 => pure ()
  | fuel + 1 => do
    if ← emitArgument c argument then
      match ← operands c delimiter with
      | some true => argumentsFuel delimiter argument fuel
      | _ => pure ()
    else pure ()

end

/-- One argument. -/
def once (argument : InstructionEnv → Reader (Option (List Int))) : OpCode n m := fun c => do
  let _ ← emitArgument c argument
  pure ()

/-- `do { … EmitBytes(e, true); } while (delimiter(lp))`. -/
def arguments (delimiter : InstructionEnv → Reader Bool)
    (argument : InstructionEnv → Reader (Option (List Int))) : OpCode n m := fun c => do
  let s ← get
  argumentsFuel c delimiter argument (s.lp.length + 1)

/-- The loop over the arguments with `MultiArg`, where every argument is emitted. -/
def multiArguments (argument : InstructionEnv → Reader (List Int)) : OpCode n m :=
  arguments Z80.multiArg fun env => some <$> argument env

/-- The loop over the arguments with `relaxedMaComma`. -/
def relaxedArguments (argument : InstructionEnv → Reader (List Int)) : OpCode n m :=
  arguments Z80.relaxedMaComma fun env => some <$> argument env

/-! ### 8-bit operations -/

/-- `OpCode_SimpleAlu`. -/
def simpleAlu (opcodeBase : Int) : OpCode n m := multiArguments fun env => Z80.simpleAlu env opcodeBase

def opCode_AND : OpCode n m := simpleAlu 0xA0

def opCode_CP : OpCode n m := simpleAlu 0xB8

def opCode_OR : OpCode n m := simpleAlu 0xB0

def opCode_XOR : OpCode n m := simpleAlu 0xA8

/-- The operations that pairs have too. -/
def pairAlu (opcodeBase : Int) (nonMultiArgComma : Bool) (name : String)
    (pairs : InstructionEnv → Z80.Z80Reg → Z80.Z80Reg → Reader (List Int)) : OpCode n m :=
  arguments Z80.multiArg fun env => Z80.pairArgument env opcodeBase nonMultiArgComma name (pairs env)

def opCode_ADC : OpCode n m := pairAlu 0x88 false "ADC" Z80.adcPairs

def opCode_ADD : OpCode n m := pairAlu 0x80 false "ADD" Z80.addPairs

def opCode_SBC : OpCode n m := pairAlu 0x98 false "SBC" Z80.sbcPairs

def opCode_SUB : OpCode n m := pairAlu 0x90 true "SUB" Z80.subPairs

def opCode_DEC : OpCode n m := relaxedArguments fun env => Z80.decInc env 0x05 0x0B

def opCode_INC : OpCode n m := relaxedArguments fun env => Z80.decInc env 0x04 0x03

def opCode_CCF : OpCode n m := bytes [0x3F]

def opCode_CPL : OpCode n m := bytes [0x2F]

def opCode_DAA : OpCode n m := bytes [0x27]

def opCode_NEG : OpCode n m := bytes [0xED, 0x44]

def opCode_SCF : OpCode n m := bytes [0x37]

/-! ### Rotations and bits -/

def opCode_RL : OpCode n m := multiArguments Z80.rl

def opCode_RR : OpCode n m := multiArguments Z80.rr

def opCode_SLA : OpCode n m := multiArguments Z80.sla

def opCode_SLL : OpCode n m := multiArguments Z80.sll

def opCode_SRA : OpCode n m := multiArguments Z80.sra

def opCode_SRL : OpCode n m := multiArguments Z80.srl

def opCode_RLC : OpCode n m := multiArguments fun env => Z80.cbArgument env 0x00

def opCode_RRC : OpCode n m := multiArguments fun env => Z80.cbArgument env 0x08

def opCode_BIT : OpCode n m := multiArguments fun env => Z80.bitArgument env 0x40 false

def opCode_RES : OpCode n m := multiArguments fun env => Z80.bitArgument env 0x80 true

def opCode_SET : OpCode n m := multiArguments fun env => Z80.bitArgument env 0xC0 true

def opCode_RLA : OpCode n m := bytes [0x17]

def opCode_RLCA : OpCode n m := bytes [0x07]

def opCode_RLD : OpCode n m := bytes [0xED, 0x6F]

def opCode_RRA : OpCode n m := bytes [0x1F]

def opCode_RRCA : OpCode n m := bytes [0x0F]

def opCode_RRD : OpCode n m := bytes [0xED, 0x67]

/-! ### Loads, exchanges and the stack -/

/-- `LD` takes any number of pairs of operands. -/
def opCode_LD : OpCode n m := multiArguments Z80.ld

/-- `LDI` and `LDD`, where fake instructions are disabled and where they are not. -/
def ldStep (regular : List Byte)
    (argument : InstructionEnv → Reader (List Int)) : OpCode n m := fun c => do
  let s ← get
  if Z80.fakesDisabled (c.env s) then AsmProgram.emitCode regular else multiArguments argument c

/-- Where the fake instructions are disabled, `LDI` reads no operands. -/
def opCode_LDI : OpCode n m := ldStep [0xED, 0xA0] Z80.ldi

def opCode_LDD : OpCode n m := ldStep [0xED, 0xA8] Z80.ldd

def opCode_LDDR : OpCode n m := bytes [0xED, 0xB8]

def opCode_LDIR : OpCode n m := bytes [0xED, 0xB0]

def opCode_CPD : OpCode n m := bytes [0xED, 0xA9]

def opCode_CPDR : OpCode n m := bytes [0xED, 0xB9]

def opCode_CPI : OpCode n m := bytes [0xED, 0xA1]

def opCode_CPIR : OpCode n m := bytes [0xED, 0xB1]

/-- `EX` takes one pair of registers. -/
def opCode_EX : OpCode n m := once fun env => some <$> Z80.ex env

def opCode_EXA : OpCode n m := bytes [0x08]

/-- `EXD` is another name of `EX DE,HL`, on every processor. -/
def opCode_EXD : OpCode n m := bytes [0xEB]

def opCode_EXX : OpCode n m := bytes [0xD9]

/-- The numbers of several instructions. -/
def emitEach : List (List Int) → OpCode n m
  | [] => fun _ => pure ()
  | e :: es => fun c => do
    emitBytes c e
    emitEach es c

/-- With the option, the registers are popped from the last one to the first. -/
def opCode_POPreverse : OpCode n m := fun c => do
  match ← operands c Z80.popReverse with
  | some es => emitEach es c
  | none => pure ()

def opCode_POPnormal : OpCode n m := relaxedArguments Z80.popArgument

/-- `POP` in the order of the option. -/
def opCode_POP : OpCode n m := fun c => if c.isReversePOP then opCode_POPreverse c else opCode_POPnormal c

def opCode_PUSH : OpCode n m := relaxedArguments Z80.pushArgument

/-! ### Jumps -/

/-- The jumps: a condition may stand in front of the address. -/
def opCode_CALL : OpCode n m := multiArguments Z80.call

def opCode_DJNZ : OpCode n m := multiArguments Z80.djnz

def opCode_JP : OpCode n m := multiArguments Z80.jp

def opCode_JR : OpCode n m := arguments Z80.multiArg Z80.jr

def opCode_RET : OpCode n m := once fun env => some <$> Z80.ret env

def opCode_RETI : OpCode n m := bytes [0xED, 0x4D]

def opCode_RETN : OpCode n m := bytes [0xED, 0x45]

/-- `RST` checks its address. -/
def opCode_RST : OpCode n m := arguments Z80.multiArg Z80.rst

/-! ### Ports and modes -/

/-- Ports: in `c`, or a number. -/
def opCode_IN : OpCode n m := multiArguments Z80.inArgument

/-- `INF` reads the port for the flags alone. -/
def opCode_INF : OpCode n m := bytes [0xED, 0x70]

def opCode_IND : OpCode n m := bytes [0xED, 0xAA]

def opCode_INDR : OpCode n m := bytes [0xED, 0xBA]

def opCode_INI : OpCode n m := bytes [0xED, 0xA2]

def opCode_INIR : OpCode n m := bytes [0xED, 0xB2]

def opCode_OUT : OpCode n m := multiArguments Z80.outArgument

def opCode_OTDR : OpCode n m := bytes [0xED, 0xBB]

def opCode_OTIR : OpCode n m := bytes [0xED, 0xB3]

/-- The block instructions of the ports. -/
def opCode_OUTD : OpCode n m := bytes [0xED, 0xAB]

def opCode_OUTI : OpCode n m := bytes [0xED, 0xA3]

def opCode_DI : OpCode n m := bytes [0xF3]

def opCode_EI : OpCode n m := bytes [0xFB]

def opCode_HALT : OpCode n m := bytes [0x76]

/-- `IM` takes one mode. -/
def opCode_IM : OpCode n m := once fun env => some <$> Z80.im env

def opCode_NOP : OpCode n m := bytes [0x00]

/-! ### The R800 -/

/-- The multiplications of the R800. -/
def opCode_MULUB : OpCode n m := once fun env => some <$> Z80.mulub env

def opCode_MULUW : OpCode n m := once fun env => some <$> Z80.muluw env

/-! ### The Z80N -/

/-- The instructions of the Z80N without operands. -/
def nextPlain (opcode : Int) : OpCode n m := once fun env => Z80.nextOnly env (pure (some [0xED, opcode]))

/-- The barrel shifts have `de` and `b` as their operands. -/
def opCode_Next_BRLC : OpCode n m := once fun env => Z80.barrelShift env 0x2C

def opCode_Next_BSLA : OpCode n m := once fun env => Z80.barrelShift env 0x28

def opCode_Next_BSRA : OpCode n m := once fun env => Z80.barrelShift env 0x29

def opCode_Next_BSRF : OpCode n m := once fun env => Z80.barrelShift env 0x2B

def opCode_Next_BSRL : OpCode n m := once fun env => Z80.barrelShift env 0x2A

def opCode_Next_LDDRX : OpCode n m := nextPlain 0xBC

def opCode_Next_LDDX : OpCode n m := nextPlain 0xAC

def opCode_Next_LDIRX : OpCode n m := nextPlain 0xB4

def opCode_Next_LDIX : OpCode n m := nextPlain 0xA4

def opCode_Next_LDPIRX : OpCode n m := nextPlain 0xB7

def opCode_Next_LDWS : OpCode n m := nextPlain 0xA5

/-- `MIRROR` and `SWAPNIB` work on `a`. -/
def opCode_Next_MIRROR : OpCode n m := once fun env => Z80.onlyA env "MIRROR" 0x24

/-- `MUL` may have its registers written. -/
def opCode_Next_MUL : OpCode n m := once Z80.mul

/-- The level of the instructions is checked once, in front of the loop. -/
def opCode_Next_NEXTREG : OpCode n m := fun c =>
  if c.isNextEnabled < 1 then
    AsmProgram.error "Z80N instructions are currently disabled" (some c.bp) .suppress
  else arguments Z80.multiArg Z80.nextreg c

def opCode_Next_OUTINB : OpCode n m := nextPlain 0x90

/-- `PIXELAD` and `PIXELDN` work on `hl`. -/
def opCode_Next_PIXELAD : OpCode n m := once fun env => Z80.optionalHl env 0x94

def opCode_Next_PIXELDN : OpCode n m := once fun env => Z80.optionalHl env 0x93

def opCode_Next_SETAE : OpCode n m := nextPlain 0x95

def opCode_Next_SWAPNIB : OpCode n m := once fun env => Z80.onlyA env "SWAPNIB" 0x23

def opCode_Next_TEST : OpCode n m := once Z80.testImm

def opCode_Next_EXIT : OpCode n m :=
  once fun env => Z80.cspectOnly env "exit" false (pure (some [0xDD, 0x00]))

def opCode_Next_BREAK : OpCode n m :=
  once fun env => Z80.cspectOnly env "break" false (pure (some [0xFD, 0x00]))

def opCode_Next_SETBRK : OpCode n m := once fun env => Z80.breakpoint env "setbrk" 0x01

def opCode_Next_CLRBRK : OpCode n m := once fun env => Z80.breakpoint env "clrbrk" 0x02

/-! ### The LR35902 -/

/-- On the LR35902 `LDD` and `LDI` step through the memory. -/
def opCode_LR35902_LDD : OpCode n m := multiArguments fun env => Z80.ldHlStep env 0x32 0x3A

def opCode_LR35902_LDH : OpCode n m := multiArguments Z80.ldh

def opCode_LR35902_LDI : OpCode n m := multiArguments fun env => Z80.ldHlStep env 0x22 0x2A

/-- The opcode is emitted in front of its byte, so that `$` in the byte is behind it. -/
def opCode_LR35902_STOP : OpCode n m := fun c => do
  AsmProgram.emitCode [0x10]
  match ← operands c Z80.stopByte with
  | some e => emitBytes c e
  | none => pure ()

end OpCode

/-! ### Tables of functions -/

/-- `CFunctionTable`: the names with their functions. -/
abbrev CFunctionTable (φ : Type) := List (Text × φ)

namespace CFunctionTable

variable {φ : Type}

/-- `Insert` under a name in small letters and in capital letters; what is there stays. -/
def insert (table : CFunctionTable φ) (name : String) (f : φ) : CFunctionTable φ :=
  table ++ [(name.toList, f), (name.toList.map Char.toUpper, f)]

/-- All the names of a list. -/
def insertAll (table : CFunctionTable φ) (entries : List (String × φ)) : CFunctionTable φ :=
  entries.foldl (fun table entry => table.insert entry.1 entry.2) table

/-- `zoek`. -/
def zoek (table : CFunctionTable φ) (name : Text) : Option φ :=
  (table.find? fun entry => entry.1 = name).map Prod.snd

/-! #### Lookup -/

/-- The names under which an entry is found. -/
def keys (name : String) : List Text := [name.toList, name.toList.map Char.toUpper]

/-- Inserting entries keeps those that are there. -/
theorem mem_insertAll {table : CFunctionTable φ} {entries : List (String × φ)} {name : Text} {f : φ} :
    (name, f) ∈ table.insertAll entries ↔
      (name, f) ∈ table ∨ ∃ entry ∈ entries, entry.2 = f ∧ name ∈ keys entry.1 := by
  induction entries generalizing table with
  | nil => simp [insertAll]
  | cons entry entries ih =>
    have hinsert : (name, f) ∈ table.insert entry.1 entry.2 ↔
        (name, f) ∈ table ∨ entry.2 = f ∧ name ∈ keys entry.1 := by
      simp only [insert, keys, List.mem_append, List.mem_cons, List.not_mem_nil, or_false, Prod.mk.injEq]
      grind
    rw [insertAll, List.foldl_cons, ← insertAll, ih, hinsert]
    simp only [List.mem_cons, exists_eq_or_imp, or_assoc]

/-- What is found is in the table. -/
theorem mem_of_zoek {table : CFunctionTable φ} {name : Text} {f : φ} (h : table.zoek name = some f) :
    (name, f) ∈ table := by
  obtain ⟨entry, hfind, rfl⟩ := Option.map_eq_some_iff.mp h
  have hname : entry.1 = name := by simpa using List.find?_some hfind
  exact hname ▸ List.mem_of_find?_eq_some hfind

/-- The name is in small letters, which its other key has lost. -/
def isSmall (name : String) : Bool :=
  let upper := name.toList.map Char.toUpper
  name.toList.any Char.isLower && !upper.any Char.isLower && upper.map Char.toLower = name.toList

/-- Different names in small letters share no key. -/
theorem nodup_flatMap_keys {names : List String} (hnames : names.Nodup)
    (hsmall : ∀ name ∈ names, isSmall name = true) : (names.flatMap keys).Nodup := by
  simp only [isSmall, Bool.and_eq_true, Bool.not_eq_true', decide_eq_true_eq, and_assoc] at hsmall
  have hupper : ∀ name ∈ names, ∀ name' ∈ names, name.toList ≠ name'.toList.map Char.toUpper := by
    intro name hname name' hname' heq
    have hlower := (hsmall name hname).1
    rw [heq, (hsmall name' hname').2.1] at hlower
    exact absurd hlower (by simp)
  rw [List.nodup_flatMap]
  refine ⟨fun name hname => by simp [keys, hupper name hname name hname], ?_⟩
  refine hnames.imp_of_mem fun {name name'} hname hname' hne => ?_
  have hlist : name.toList ≠ name'.toList := fun heq => hne (String.toList_inj.mp heq)
  have hmap : name.toList.map Char.toUpper ≠ name'.toList.map Char.toUpper := by
    intro heq
    apply hlist
    rw [← (hsmall name hname).2.2, ← (hsmall name' hname').2.2, heq]
  simp only [Function.onFun, keys, List.disjoint_cons_right, List.mem_cons, List.not_mem_nil, or_false,
    not_or, List.disjoint_nil_right, and_true]
  exact ⟨⟨hlist.symm, hupper name' hname' name hname⟩, (hupper name hname name' hname').symm, hmap.symm⟩

/-- Where the names are all different, every one of them finds its own function, and nothing else is
found. -/
theorem zoek_insertAll {entries : List (String × φ)}
    (hkeys : ((entries.map Prod.fst).flatMap keys).Nodup) (name : Text)
    (f : φ) : (insertAll [] entries).zoek name = some f ↔
      ∃ entry ∈ entries, entry.2 = f ∧ name ∈ keys entry.1 := by
  -- what is found was inserted, and what was inserted is the only one of its names
  constructor
  · intro h
    exact (mem_insertAll.mp (mem_of_zoek h)).resolve_left (by simp)
  · rintro ⟨entry, hentry, rfl, hname⟩
    have hmem : (name, entry.2) ∈ insertAll [] entries :=
      mem_insertAll.mpr (Or.inr ⟨entry, hentry, rfl, hname⟩)
    obtain ⟨f, hf⟩ : ∃ f, (insertAll [] entries).zoek name = some f := by
      rw [← Option.isSome_iff_exists, zoek, Option.isSome_map, List.find?_isSome]
      exact ⟨_, hmem, by simp⟩
    obtain hnil | ⟨entry', hentry', rfl, hname'⟩ := mem_insertAll.mp (mem_of_zoek hf)
    · exact absurd hnil (by simp)
    · -- the two entries share a name
      suffices hsame : entry' = entry by rw [hf, hsame]
      by_contra hne
      have hdisjoint := (List.nodup_flatMap.mp hkeys).2
      rw [List.pairwise_map] at hdisjoint
      have : Std.Symm fun entry entry' : String × φ =>
          Function.onFun List.Disjoint keys entry.1 entry'.1 := ⟨fun _ _ h => List.Disjoint.symm h⟩
      exact hdisjoint.forall hentry' hentry hne hname' hname

end CFunctionTable

/-! ### The tables of the processors -/

namespace OpCode

/-- The instructions that all processors share, and those that only the LR35902 does not have. -/
def sharedInstructions (isLR35902 : Bool) : List (String × OpCode n m) :=
  [("adc", opCode_ADC), ("add", opCode_ADD), ("and", opCode_AND), ("call", opCode_CALL),
    ("ccf", opCode_CCF), ("cp", opCode_CP), ("cpl", opCode_CPL), ("daa", opCode_DAA),
    ("dec", opCode_DEC), ("di", opCode_DI), ("ei", opCode_EI)] ++
  (if isLR35902 then [] else [("ex", opCode_EX)]) ++
  [("exd", opCode_EXD), ("halt", opCode_HALT)] ++
  (if isLR35902 then [] else [("in", opCode_IN)]) ++
  [("inc", opCode_INC), ("jp", opCode_JP), ("ld", opCode_LD), ("nop", opCode_NOP), ("or", opCode_OR)] ++
  (if isLR35902 then [] else [("out", opCode_OUT)]) ++
  [("pop", opCode_POP), ("push", opCode_PUSH), ("ret", opCode_RET), ("rla", opCode_RLA),
    ("rlca", opCode_RLCA), ("rra", opCode_RRA), ("rrca", opCode_RRCA), ("rst", opCode_RST),
    ("sbc", opCode_SBC), ("scf", opCode_SCF), ("sub", opCode_SUB), ("xor", opCode_XOR)]

/-- The instructions that the Z80 and the LR35902 share. -/
def bitInstructions : List (String × OpCode n m) :=
  [("bit", opCode_BIT), ("jr", opCode_JR), ("res", opCode_RES), ("rl", opCode_RL), ("rlc", opCode_RLC),
    ("rr", opCode_RR), ("rrc", opCode_RRC), ("set", opCode_SET), ("sla", opCode_SLA),
    ("sra", opCode_SRA), ("srl", opCode_SRL)]

/-- The instructions of the LR35902: `RETI` has the opcode of `EXX`, and `SWAP` those of `SLL`. -/
def sharpInstructions : List (String × OpCode n m) :=
  [("ldd", opCode_LR35902_LDD), ("ldh", opCode_LR35902_LDH), ("ldi", opCode_LR35902_LDI),
    ("reti", opCode_EXX), ("stop", opCode_LR35902_STOP), ("swap", opCode_SLL)]

/-- The instructions of the Z80. -/
def z80Instructions : List (String × OpCode n m) :=
  [("cpd", opCode_CPD), ("cpdr", opCode_CPDR), ("cpi", opCode_CPI), ("cpir", opCode_CPIR),
    ("djnz", opCode_DJNZ), ("exa", opCode_EXA), ("exx", opCode_EXX), ("im", opCode_IM),
    ("ind", opCode_IND), ("indr", opCode_INDR), ("inf", opCode_INF), ("ini", opCode_INI),
    ("inir", opCode_INIR), ("ldd", opCode_LDD), ("lddr", opCode_LDDR), ("ldi", opCode_LDI),
    ("ldir", opCode_LDIR), ("mulub", opCode_MULUB), ("muluw", opCode_MULUW), ("neg", opCode_NEG),
    ("otdr", opCode_OTDR), ("otir", opCode_OTIR), ("outd", opCode_OUTD), ("outi", opCode_OUTI),
    ("reti", opCode_RETI), ("retn", opCode_RETN), ("rld", opCode_RLD), ("rrd", opCode_RRD),
    ("sli", opCode_SLL), ("sll", opCode_SLL)]

/-- `InitNextExtensions`. -/
def nextInstructions : List (String × OpCode n m) :=
  [("brlc", opCode_Next_BRLC), ("bsla", opCode_Next_BSLA), ("bsra", opCode_Next_BSRA),
    ("bsrf", opCode_Next_BSRF), ("bsrl", opCode_Next_BSRL), ("lddrx", opCode_Next_LDDRX),
    ("lddx", opCode_Next_LDDX), ("ldirx", opCode_Next_LDIRX), ("ldix", opCode_Next_LDIX),
    ("ldpirx", opCode_Next_LDPIRX), ("ldws", opCode_Next_LDWS), ("mirror", opCode_Next_MIRROR),
    ("mul", opCode_Next_MUL), ("nextreg", opCode_Next_NEXTREG), ("outinb", opCode_Next_OUTINB),
    ("pixelad", opCode_Next_PIXELAD), ("pixeldn", opCode_Next_PIXELDN), ("setae", opCode_Next_SETAE),
    ("swapnib", opCode_Next_SWAPNIB), ("test", opCode_Next_TEST), ("exit", opCode_Next_EXIT),
    ("break", opCode_Next_BREAK), ("setbrk", opCode_Next_SETBRK), ("clrbrk", opCode_Next_CLRBRK)]

/-- The names that `Init` and `InitNextExtensions` insert, the latter once the instructions of the Z80N
have been enabled. -/
def instructions (o : InstructionOptions) (nextWasInitialized : Bool) : List (String × OpCode n m) :=
  sharedInstructions o.isLR35902 ++
    if o.isI8080 then []
    else bitInstructions ++
      if o.isLR35902 then sharpInstructions
      else z80Instructions ++ if nextWasInitialized then nextInstructions else []

/-- `OpCodeTable`. -/
def opCodeTable (o : InstructionOptions) (nextWasInitialized : Bool) : CFunctionTable (OpCode n m) :=
  CFunctionTable.insertAll [] (instructions o nextWasInitialized)

/-! ### The names of the instructions -/

/-- The names of the instructions. -/
def names (o : InstructionOptions) (nextWasInitialized : Bool) : List String :=
  (instructions o nextWasInitialized : List (String × OpCode 0 0)).map Prod.fst

theorem map_fst_instructions (o : InstructionOptions) (nextWasInitialized : Bool) :
    (instructions o nextWasInitialized : List (String × OpCode n m)).map Prod.fst
      = names o nextWasInitialized := by
  unfold names instructions sharedInstructions
  split_ifs <;> rfl

/-- The names of all instructions of the LR35902, or of all others. -/
def allNames (isLR35902 : Bool) : List String :=
  (sharedInstructions isLR35902 ++ bitInstructions ++
    if isLR35902 then sharpInstructions else z80Instructions ++ nextInstructions
      : List (String × OpCode 0 0)).map Prod.fst

theorem names_sublist (o : InstructionOptions) (nextWasInitialized : Bool) :
    (names o nextWasInitialized).Sublist (allNames o.isLR35902) := by
  apply List.Sublist.map
  unfold instructions
  rw [List.append_assoc]
  apply List.Sublist.append_left
  split_ifs
  any_goals exact List.nil_sublist _
  any_goals exact List.Sublist.refl _
  -- without the instructions of the Z80N
  exact (List.Sublist.refl _).append ((List.Sublist.refl _).append (List.nil_sublist _))

set_option maxRecDepth 10000 in
/-- No name is written twice, and all of them are in lower case. -/
theorem nodup_allNames (isLR35902 : Bool) :
    (allNames isLR35902).Nodup ∧ ∀ name ∈ allNames isLR35902, CFunctionTable.isSmall name = true := by
  cases isLR35902 <;> decide +kernel

/-- **Every name of an instruction, in small letters or in capital letters, finds the function of this
instruction**, and no other name is found. -/
theorem zoek_opCodeTable (o : InstructionOptions) (nextWasInitialized : Bool) (name : Text)
    (f : OpCode n m) :
    (opCodeTable o nextWasInitialized).zoek name = some f ↔
      ∃ entry ∈ instructions o nextWasInitialized, entry.2 = f ∧ name ∈ CFunctionTable.keys entry.1 := by
  apply CFunctionTable.zoek_insertAll
  rw [map_fst_instructions]
  obtain ⟨hnodup, hsmall⟩ := nodup_allNames o.isLR35902
  have hsublist := names_sublist o nextWasInitialized
  apply CFunctionTable.nodup_flatMap_keys (hnodup.sublist hsublist)
  exact fun name hname => hsmall name (hsublist.subset hname)

end OpCode

/-! ### Instructions -/

/-- `getinstr`: the name, unless it is a label. -/
def getinstr (caseInsensitiveInstructions : Bool) (p : Text) : Option Text × Text :=
  let p := skipBlanks p
  if (cur p).isAlpha ∨ cur p = '.' then
    let inside : Char → Bool := fun ch => ch.isAlphanum || ch = '_'
    let name := cur p :: p.tail.takeWhile inside
    let behind := p.tail.dropWhile inside
    if cur behind = ':' then (none, behind)
    else (some (if caseInsensitiveInstructions then name.map Char.toLower else name), behind)
  else (none, p)

namespace AsmProgram

/-- `GetOpCode`. -/
def getOpCode (o : InstructionOptions) (nextWasInitialized : Bool) (line : Text) :
    AsmProgram n m Unit := do
  let bp := (← get).lp
  let name ← scan (getinstr o.caseInsensitiveInstructions)
  match name.bind (OpCode.opCodeTable o nextWasInitialized).zoek with
  | some f => f ⟨o, bp, line⟩
  | none =>
    error "Unrecognized instruction" (some bp)
    modify fun s => { s with lp := [] }

end AsmProgram

end Sjasmplus
