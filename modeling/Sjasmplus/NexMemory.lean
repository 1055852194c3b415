import Sjasmplus.NexChecksum

/-!
# Memory ranges of `SAVENEX` (`dirNexScreenLayer2andLowRes`, `dirNexCopper`, `dirNexPaletteMem`)

Three commands copy blocks of the device memory that their arguments name by page and offset.  The
palette is read from inside of the memory only.  The pixel data and the copper code are not: their
address becomes an unsigned `size_t`, and a block that starts below the memory and ends in it passes
the test (`memoryExact_iff`).
-/

namespace Sjasmplus

open Program Nex

/-! ### What a command reads -/

def NexEnv.withMemory (env : NexEnv) (memory : Int → Byte) : NexEnv := { env with memory := memory }

namespace Nex

/-- The environments are the same but for what lies outside of the memory of the device. -/
structure SameRam (env env' : NexEnv) : Prop where
  others : env' = env.withMemory env'.memory
  ram : ∀ address, 0 ≤ address → address < totalRam → env'.memory address = env.memory address

/-- The block lies in the memory of the device. -/
def InsideRam (address : Int) (size : Nat) : Prop := 0 ≤ address ∧ address + size ≤ totalRam

instance (address : Int) (size : Nat) : Decidable (InsideRam address size) :=
  inferInstanceAs (Decidable (_ ∧ _))

theorem readMemory_congr {env env' : NexEnv} (h : SameRam env env') {address : Int} {size : Nat}
    (hinside : InsideRam address size) :
    readMemory env' address size = readMemory env address size := by
  obtain ⟨hlow, hhigh⟩ := hinside
  unfold readMemory
  refine List.map_congr_left fun i hi => ?_
  obtain ⟨k, hk, rfl⟩ : ∃ k < size, i = (k : Int) := by simpa using hi
  exact h.ram _ (by omega) (by omega)

theorem outsideRam_eq_false_iff {address : Int} {size : Nat} :
    outsideRam address size = false ↔ 0 ≤ address + size ∧ address + size ≤ totalRam := by
  simp [outsideRam]

/-- A block that starts in the memory and passes the test lies in it. -/
theorem insideRam_of_not_outside {address : Int} {size : Nat} (hlow : 0 ≤ address)
    (h : outsideRam address size = false) : InsideRam address size :=
  ⟨hlow, (outsideRam_eq_false_iff.mp h).2⟩

/-- The commands that read blocks of the device memory. -/
inductive MemoryCommand
  | screen (type : ScreenType) (given : ArgumentList)
  | copper (given : ArgumentList)
  | palette (given : ArgumentList)

def MemoryCommand.program (env : NexEnv) : MemoryCommand → NexProgram Unit
  | screen type given => dirNexScreen env (.layer2andLowRes type given)
  | copper given => dirNexCopper env given
  | palette given => dirNexPalette env (.mem given)

/-- The version is the one before, or 1.3 unless 1.2 was asked for. -/
def VersionNoted (s : NexState) (minFileVersion : Int) : Prop :=
  minFileVersion = s.nex.minFileVersion ∨ minFileVersion = 3 ∧ s.nex.reqFileVersion ≠ 2

/-- An error is reported and nothing is written to the file, nor stored: at most the file version was
noted, and the colour of a hires screen that was to come is the default again. -/
structure Refused (s t : NexState) : Prop where
  error : ∃ message bad, t.log = s.log ++ [.error message bad .suppress]
  closed : t.closed = s.closed
  exited : t.exited = s.exited
  nex : ∃ minFileVersion hiResColour, VersionNoted s minFileVersion ∧ t.nex = { s.nex with
    minFileVersion := minFileVersion
    h := { s.nex.h with hiResColour := hiResColour } }

/-- What the command does depends on the memory of the device only, and it is accepted without a
message or refused with an error. -/
structure MemoryExact (command : MemoryCommand) (env : NexEnv) (s : NexState) : Prop where
  inside : ∀ env', SameRam env env' → (command.program env').exec s = (command.program env).exec s
  outcome : ((command.program env).final s).log = s.log ∨ Refused s ((command.program env).final s)

/-- The state with the version and the colour noted. -/
def noted (s : NexState) (minFileVersion : Int) (hiResColour : Byte) : NexState :=
  { s with nex := { s.nex with
    minFileVersion := minFileVersion
    h := { s.nex.h with hiResColour := hiResColour } } }

/-- A command that only reports an error, perhaps once the version was noted, is refused. -/
theorem refused_of_exec {program : (Int → Byte) → NexProgram Unit} {s : NexState} (message : String)
    (bad : Option Text) (minFileVersion : Int) (hiResColour : Byte)
    (hnoted : VersionNoted s minFileVersion)
    (h : ∀ memory, (program memory).exec s
      = (error message bad .suppress).exec (noted s minFileVersion hiResColour)) :
    ∃ t, Refused s t ∧ ∀ memory, (program memory).exec s = (some (), t) := by
  refine ⟨{ noted s minFileVersion hiResColour with
    log := s.log ++ [.error message bad .suppress] }, ?_, h⟩
  exact ⟨⟨message, bad, rfl⟩, rfl, rfl, minFileVersion, hiResColour, hnoted, rfl⟩

/-! ### Copper code -/

/-- The copper code is read from an address. -/
structure CopperAccepts (s : NexState) (given : ArgumentList) (args : Nat → Aint) : Prop where
  canAppend : s.nex.canAppend = true
  version : s.nex.reqFileVersion ≠ 2
  ahead : s.nex.lastBankIndex = -1
  arguments : getIntArguments [0, 0] [false, false] given = some args
  page : (args 0).outside 0 223 = false
  ram : outsideRam (getMemoryOffset (args 0) (args 1)) SNexHeader.copperSize = false

/-- Once a copper command has noted its version, its arguments decide. -/
theorem exec_dirNexCopper_noted (env : NexEnv) (given : ArgumentList) {s : NexState}
    (hopen : s.nex.canAppend = true) (hversion : ¬s.nex.reqFileVersion = 2)
    (hahead : s.nex.lastBankIndex = -1) (memory : Int → Byte) :
    (dirNexCopper (env.withMemory memory) given).exec s
      = (match getIntArguments [0, 0] [false, false] given with
        | none => error "[SAVENEX] expected syntax is COPPER <Page8kNum 0..223>,<offset>"
            (some env.bp) .suppress
        | some args =>
          if (args 0).outside 0 223 then
            error "[SAVENEX] expected syntax is COPPER <Page8kNum 0..223>,<offset>"
              (some env.bp) .suppress
          else if outsideRam (getMemoryOffset (args 0) (args 1)) SNexHeader.copperSize then
            error "[SAVENEX] copper data address range is outside of Next memory" (some env.bp)
              .suppress
          else updateNex fun n => { n with
            h := { n.h with hasCopperCode := 1 }
            copper := some (readMemory (env.withMemory memory) (getMemoryOffset (args 0) (args 1))
              SNexHeader.copperSize) }).exec
        (noted s 3 s.nex.h.hiResColour) := by
  rw [dirNexCopper, exec_bind_of_some (exec_get s), if_neg (not_not_intro hopen), if_neg hversion,
    if_neg (not_not_intro hahead)]
  rfl

/-- A copper command is refused, whatever the memory holds, or it reads its block. -/
theorem dirNexCopper_cases (env : NexEnv) (given : ArgumentList) (s : NexState) :
    ((¬∃ args, CopperAccepts s given args) ∧ ∃ t, Refused s t ∧
      ∀ memory, (dirNexCopper (env.withMemory memory) given).exec s = (some (), t)) ∨
    ∃ args, CopperAccepts s given args ∧
      ∀ memory, (dirNexCopper (env.withMemory memory) given).exec s
        = (some (), { s with nex := { s.nex with
            minFileVersion := 3
            h := { s.nex.h with hasCopperCode := 1 }
            copper := some (readMemory (env.withMemory memory)
              (getMemoryOffset (args 0) (args 1)) SNexHeader.copperSize) } }) := by
  -- an accepted command passes every guard, and reads its block
  by_cases haccepts : ∃ args, CopperAccepts s given args
  · obtain ⟨args, h⟩ := haccepts
    refine .inr ⟨args, h, fun memory => ?_⟩
    rw [dirNexCopper, exec_bind_of_some (exec_get s), if_neg (not_not_intro h.canAppend),
      if_neg h.version, if_neg (not_not_intro h.ahead)]
    unfold updateNex
    rw [exec_bind_of_some (exec_modify _ s), h.arguments]
    dsimp only
    rw [if_neg (by rw [h.page]; exact Bool.false_ne_true),
      if_neg (by rw [h.ram]; exact Bool.false_ne_true)]
    rfl
  · refine .inl ⟨haccepts, ?_⟩
    -- otherwise one guard refuses it; the memory is not read on any of these ways
    by_cases hopen : s.nex.canAppend = true
    · by_cases hversion : s.nex.reqFileVersion = 2
      · refine refused_of_exec
          "[SAVENEX] V1.2 was requested with OPEN, but COPPER is V1.3 feature." none
          s.nex.minFileVersion s.nex.h.hiResColour (.inl rfl) fun memory => ?_
        rw [dirNexCopper, exec_bind_of_some (exec_get s), if_neg (not_not_intro hopen),
          if_pos hversion]
        rfl
      · by_cases hahead : s.nex.lastBankIndex = -1
        -- from here on the version 3 is noted ahead of the refusal
        · have hnoted := exec_dirNexCopper_noted env given hopen hversion hahead
          rcases harguments : getIntArguments [0, 0] [false, false] given with _ | args
          · refine refused_of_exec "[SAVENEX] expected syntax is COPPER <Page8kNum 0..223>,<offset>"
              (some env.bp) 3 s.nex.h.hiResColour (.inr ⟨rfl, hversion⟩) fun memory => ?_
            rw [hnoted, harguments]
          · by_cases hpage : (args 0).outside 0 223 = true
            · refine refused_of_exec "[SAVENEX] expected syntax is COPPER <Page8kNum 0..223>,<offset>"
                (some env.bp) 3 s.nex.h.hiResColour (.inr ⟨rfl, hversion⟩) fun memory => ?_
              rw [hnoted, harguments]
              dsimp only
              rw [if_pos hpage]
            · by_cases hram : outsideRam (getMemoryOffset (args 0) (args 1))
                  SNexHeader.copperSize = true
              · refine refused_of_exec
                  "[SAVENEX] copper data address range is outside of Next memory"
                  (some env.bp) 3 s.nex.h.hiResColour (.inr ⟨rfl, hversion⟩) fun memory => ?_
                rw [hnoted, harguments]
                dsimp only
                rw [if_neg hpage, if_pos hram]
              · exact absurd ⟨args, hopen, hversion, hahead, harguments, by simpa using hpage,
                  by simpa using hram⟩ haccepts
        · refine refused_of_exec "[SAVENEX] some bank was already stored (store copper ahead)" none
            s.nex.minFileVersion s.nex.h.hiResColour (.inl rfl) fun memory => ?_
          rw [dirNexCopper, exec_bind_of_some (exec_get s), if_neg (not_not_intro hopen),
            if_neg hversion, if_pos hahead]
          rfl
    · refine refused_of_exec "[SAVENEX] NEX file is not open" none
        s.nex.minFileVersion s.nex.h.hiResColour (.inl rfl) fun memory => ?_
      rw [dirNexCopper, exec_bind_of_some (exec_get s), if_pos hopen, notOpen]
      rfl

/-! ### Palettes -/

/-- The palette is read from an address. -/
structure PaletteAccepts (s : NexState) (given : ArgumentList) (args : Nat → Aint) : Prop where
  opened : s.nex.f.isNone = false
  palDefined : s.nex.palDefined = false
  screen : s.nex.h.screen = 0
  ahead : s.nex.lastBankIndex = -1
  arguments : getIntArguments [0, 0] [false, false] given = some args
  page : (args 0).outside 0 223 = false
  offset : 0 ≤ (args 1).toInt
  ram : InsideRam (getMemoryOffset (args 0) (args 1)) SNexHeader.palSize

theorem ne_neg_one_of_not_outside {page : Aint} (h : page.outside 0 223 = false) : page ≠ -1 := by
  rintro rfl
  exact absurd h (by decide)

/-- The test of `dirNexPaletteMem`. -/
theorem insideRam_iff {address : Int} {size : Nat} :
    InsideRam address size ↔ ¬(address < 0 ∨ totalRam < address + size) := by
  unfold InsideRam
  omega

/-- A palette in the memory. -/
theorem exec_dirNexPaletteMemAt {env : NexEnv} {page8kNum palOffset : Aint} {s : NexState}
    (hdefined : s.nex.palDefined = false) (hpage : page8kNum ≠ -1)
    (hinside : InsideRam (getMemoryOffset page8kNum palOffset) SNexHeader.palSize) :
    (dirNexPaletteMemAt env page8kNum palOffset).exec s
      = (some true, { s with nex := { s.nex with
          palDefined := true
          palette := some (readMemory env (getMemoryOffset page8kNum palOffset)
            SNexHeader.palSize) } }) := by
  rw [dirNexPaletteMemAt, exec_bind_of_some (exec_get s), if_neg (by simp [hdefined]),
    if_neg hpage, if_neg (insideRam_iff.mp hinside)]
  rfl

/-- A palette that is not in the memory. -/
theorem exec_dirNexPaletteMemAt_outside {env : NexEnv} {page8kNum palOffset : Aint} {s : NexState}
    (hdefined : s.nex.palDefined = false) (hpage : page8kNum ≠ -1)
    (houtside : ¬InsideRam (getMemoryOffset page8kNum palOffset) SNexHeader.palSize) :
    (dirNexPaletteMemAt env page8kNum palOffset).exec s
      = (some false, (error "[SAVENEX] palette data address range is outside of Next memory"
          (some env.bp) .suppress).final s) := by
  rw [dirNexPaletteMemAt, exec_bind_of_some (exec_get s), if_neg (by simp [hdefined]),
    if_neg hpage, if_pos (by_contra fun h => houtside (insideRam_iff.mpr h))]
  rfl

/-- A palette command is refused, whatever the memory holds, or it reads its block. -/
theorem dirNexPalette_cases (env : NexEnv) (given : ArgumentList) (s : NexState) :
    (∃ t, Refused s t ∧
      ∀ memory, (dirNexPalette (env.withMemory memory) (.mem given)).exec s = (some (), t)) ∨
    ∃ args, PaletteAccepts s given args ∧
      ∀ memory, (dirNexPalette (env.withMemory memory) (.mem given)).exec s
        = (some (), { s with nex := { s.nex with
            palDefined := true
            palette := some (readMemory (env.withMemory memory)
              (getMemoryOffset (args 0) (args 1)) SNexHeader.palSize) } }) := by
  -- the guards in the order of the source, each of them a refusal
  by_cases hopen : s.nex.f.isNone = true
  · refine .inl (refused_of_exec "[SAVENEX] NEX file is not open" none s.nex.minFileVersion
      s.nex.h.hiResColour (.inl rfl) fun memory => ?_)
    rw [dirNexPalette, exec_bind_of_some (exec_get s), if_pos hopen, notOpen]
    rfl
  by_cases hdefined : s.nex.palDefined = true ∨ s.nex.h.screen ≠ 0
  · refine .inl (refused_of_exec
      "[SAVENEX] some palette/screen was already defined (define palette once and ahead)" none
      s.nex.minFileVersion s.nex.h.hiResColour (.inl rfl) fun memory => ?_)
    rw [dirNexPalette, exec_bind_of_some (exec_get s), if_neg hopen, if_pos hdefined]
    rfl
  by_cases hahead : s.nex.lastBankIndex = -1
  · have hcommand : ∀ memory, (dirNexPalette (env.withMemory memory) (.mem given)).exec s
        = (dirNexPaletteMem (env.withMemory memory) given).exec s := by
      intro memory
      rw [dirNexPalette, exec_bind_of_some (exec_get s), if_neg hopen, if_neg hdefined,
        if_neg (not_not_intro hahead)]
    rcases harguments : getIntArguments [0, 0] [false, false] given with _ | args
    · refine .inl (refused_of_exec
        "[SAVENEX] expected syntax is MEM <palPage8kNum 0..223>,<palOffset 0+>" (some env.bp)
        s.nex.minFileVersion s.nex.h.hiResColour (.inl rfl) fun memory => ?_)
      rw [hcommand, dirNexPaletteMem, harguments]
      rfl
    · have harg : ∀ memory, (dirNexPaletteMem (env.withMemory memory) given).exec s
          = (if (args 0).outside 0 223 ∨ (args 1).toInt < 0 then
              error "[SAVENEX] expected syntax is MEM <palPage8kNum 0..223>,<palOffset 0+>"
                (some env.bp) .suppress
            else dirNexPaletteMemAt (env.withMemory memory) (args 0) (args 1) >>= fun _ =>
              pure ()).exec s := by
        intro memory
        rw [dirNexPaletteMem, harguments]
        rfl
      by_cases hvalid : (args 0).outside 0 223 = true ∨ (args 1).toInt < 0
      · refine .inl (refused_of_exec
          "[SAVENEX] expected syntax is MEM <palPage8kNum 0..223>,<palOffset 0+>" (some env.bp)
          s.nex.minFileVersion s.nex.h.hiResColour (.inl rfl) fun memory => ?_)
        rw [hcommand, harg, if_pos hvalid]
        rfl
      · obtain ⟨hpage, hoffset⟩ := not_or.mp hvalid
        have hpage : (args 0).outside 0 223 = false := by simpa using hpage
        have hdefined' : s.nex.palDefined = false := by
          simpa using (not_or.mp hdefined).1
        by_cases hram : InsideRam (getMemoryOffset (args 0) (args 1)) SNexHeader.palSize
        · refine .inr ⟨args, ⟨Bool.eq_false_iff.mpr hopen, hdefined', by simpa using (not_or.mp hdefined).2,
            hahead, harguments, hpage, by omega, hram⟩, fun memory => ?_⟩
          rw [hcommand, harg, if_neg hvalid, exec_bind_of_some (exec_dirNexPaletteMemAt hdefined'
            (ne_neg_one_of_not_outside hpage) hram)]
          rfl
        · refine .inl (refused_of_exec
            "[SAVENEX] palette data address range is outside of Next memory" (some env.bp)
            s.nex.minFileVersion s.nex.h.hiResColour (.inl rfl) fun memory => ?_)
          rw [hcommand, harg, if_neg hvalid, exec_bind_of_some
            (exec_dirNexPaletteMemAt_outside hdefined' (ne_neg_one_of_not_outside hpage) hram)]
          rfl
  · refine .inl (refused_of_exec "[SAVENEX] some bank was already stored (define palette ahead)"
      none s.nex.minFileVersion s.nex.h.hiResColour (.inl rfl) fun memory => ?_)
    rw [dirNexPalette, exec_bind_of_some (exec_get s), if_neg hopen, if_neg hdefined,
      if_pos hahead]
    rfl

/-! ### Pixel data -/

/-- A screen that only files of version 1.3 have. -/
def isV13 (type : EBmpType) : Bool := type = .l2_320x256 || type = .l2_640x256

/-- The palette of a screen command is there already, is not asked for, or lies in the memory. -/
def PaletteFits (s : NexState) (page8kNum palOffset : Aint) : Prop :=
  s.nex.palDefined = true ∨ page8kNum = -1 ∨
    InsideRam (getMemoryOffset page8kNum palOffset) SNexHeader.palSize

/-- The address of the pixel data as it is tested. -/
def adrPixelData (args : Nat → Aint) : Int :=
  if args 0 = -1 then 0 else getMemoryOffset (args 0) (args 1)

/-- The pixel data are read. -/
structure ScreenAccepts (s : NexState) (type : EBmpType) (given : ArgumentList)
    (args : Nat → Aint) : Prop where
  canAppend : s.nex.canAppend = true
  screen : s.nex.h.screen = 0
  ahead : s.nex.lastBankIndex = -1
  version : ¬(isV13 type = true ∧ s.nex.reqFileVersion = 2)
  arguments : getIntArguments [-1, 0, -1, 0] [true, false, true, false] given = some args
  pages : ¬((args 0).outside (-1) 223 = true ∨ (args 2).outside (-1) 223 = true)
  ram : outsideRam (adrPixelData args) (pixelDataSize type) = false
  palette : PaletteFits s (args 2) (args 3)

/-- What a screen command notes before it reads its arguments. -/
def notedScreen (s : NexState) (type : EBmpType) : NexState :=
  if isV13 type then noted s 3 0 else noted s s.nex.minFileVersion s.nex.h.hiResColour

/-- The state with the palette of a screen command. -/
def withPalette (env : NexEnv) (page8kNum palOffset : Aint) (s : NexState) : NexState :=
  if s.nex.palDefined then s
  else if page8kNum = -1 then { s with nex := { s.nex with palDefined := true } }
  else { s with nex := { s.nex with
    palDefined := true
    palette := some (readMemory env (getMemoryOffset page8kNum palOffset) SNexHeader.palSize) } }

/-- The end of a screen command. -/
def writeScreen (env : NexEnv) (type : EBmpType) (args : Nat → Aint) : NexProgram Unit := do
  writePalette
  updateHeader (setScreen type SNexHeader.hiResColour)
  writePixelData env type (args 0) (adrPixelData args)

theorem exec_dirNexPaletteMemAt_fits {env : NexEnv} {page8kNum palOffset : Aint} {s : NexState}
    (h : PaletteFits s page8kNum palOffset) :
    (dirNexPaletteMemAt env page8kNum palOffset).exec s
      = (some true, withPalette env page8kNum palOffset s) := by
  unfold withPalette
  by_cases hdefined : s.nex.palDefined = true
  · rw [if_pos hdefined, dirNexPaletteMemAt, exec_bind_of_some (exec_get s), if_pos hdefined]
    rfl
  rw [if_neg hdefined]
  by_cases hpage : page8kNum = -1
  · rw [if_pos hpage, dirNexPaletteMemAt, exec_bind_of_some (exec_get s), if_neg hdefined,
      if_pos hpage]
    rfl
  rw [if_neg hpage]
  exact exec_dirNexPaletteMemAt (Bool.eq_false_iff.mpr hdefined) hpage
    ((h.resolve_left hdefined).resolve_left hpage)

/-- The arguments of a screen command. -/
theorem exec_dirNexScreenLayer2andLowRes (env : NexEnv) {type : EBmpType} (given : ArgumentList)
    {s : NexState} (hversion : ¬(isV13 type = true ∧ s.nex.reqFileVersion = 2)) :
    (dirNexScreenLayer2andLowRes env type given).exec s
      = (match getIntArguments [-1, 0, -1, 0] [true, false, true, false] given with
        | none => error "[SAVENEX] expected syntax is ... [<Page8kNum 0..223>,<offset>[,<palPage8kNum 0..223>,<palOffset>]]"
            (some env.bp) .suppress
        | some args =>
          if (args 0).outside (-1) 223 ∨ (args 2).outside (-1) 223 then
            error "[SAVENEX] expected syntax is ... [<Page8kNum 0..223>,<offset>[,<palPage8kNum 0..223>,<palOffset>]]"
              (some env.bp) .suppress
          else if outsideRam (adrPixelData args) (pixelDataSize type) then
            error "[SAVENEX] pixel data address range is outside of Next memory" (some env.bp)
              .suppress
          else do
            let palette ← dirNexPaletteMemAt env (args 2) (args 3)
            if palette then writeScreen env type args else pure ()).exec (notedScreen s type) := by
  rw [dirNexScreenLayer2andLowRes, exec_bind_of_some (exec_get s)]
  have hversion' : ¬((decide (type = .l2_320x256) || decide (type = .l2_640x256)) = true ∧
      s.nex.reqFileVersion = 2) := hversion
  dsimp only
  rw [if_neg hversion']
  -- the two large formats note version 3 and clear the colour; the others note nothing
  have hwhen : (when ((decide (type = .l2_320x256) || decide (type = .l2_640x256)) = true)
      (updateNex fun n => { n with minFileVersion := 3, h := { n.h with hiResColour := 0 } })).exec s
        = (some (), notedScreen s type) := by
    unfold when notedScreen isV13
    split_ifs
    · rfl
    · rfl
  rw [exec_bind_of_some hwhen]
  rfl

theorem notedScreen_eq {s : NexState} {type : EBmpType}
    (hversion : ¬(isV13 type = true ∧ s.nex.reqFileVersion = 2)) :
    ∃ minFileVersion hiResColour, VersionNoted s minFileVersion ∧
      notedScreen s type = noted s minFileVersion hiResColour := by
  unfold notedScreen
  by_cases hnew : isV13 type = true
  · rw [if_pos hnew]
    exact ⟨3, 0, .inr ⟨rfl, fun hreq => hversion ⟨hnew, hreq⟩⟩, rfl⟩
  · rw [if_neg hnew]
    exact ⟨s.nex.minFileVersion, s.nex.h.hiResColour, .inl rfl, rfl⟩

/-- A screen command is refused, whatever the memory holds, or it reads its blocks. -/
theorem dirNexScreen_cases (env : NexEnv) (type : ScreenType) (given : ArgumentList) (s : NexState) :
    ((¬∃ args, ScreenAccepts s type given args) ∧ ∃ t, Refused s t ∧
      ∀ memory, (dirNexScreen (env.withMemory memory) (.layer2andLowRes type given)).exec s
        = (some (), t)) ∨
    ∃ args, ScreenAccepts s type given args ∧
      ∀ memory, (dirNexScreen (env.withMemory memory) (.layer2andLowRes type given)).exec s
        = (writeScreen (env.withMemory memory) type args).exec
          (withPalette (env.withMemory memory) (args 2) (args 3) (notedScreen s type)) := by
  by_cases hopen : s.nex.canAppend = true
  swap
  · refine .inl ⟨fun ⟨_, h⟩ => hopen h.canAppend, refused_of_exec "[SAVENEX] NEX file is not open" none
      s.nex.minFileVersion s.nex.h.hiResColour (.inl rfl) fun memory => ?_⟩
    rw [dirNexScreen, exec_bind_of_some (exec_get s), if_pos hopen, notOpen]
    rfl
  by_cases hscreen : s.nex.h.screen = 0
  swap
  · refine .inl ⟨fun ⟨_, h⟩ => hscreen h.screen, refused_of_exec
      "[SAVENEX] screen for this NEX file was already stored" none s.nex.minFileVersion
      s.nex.h.hiResColour (.inl rfl) fun memory => ?_⟩
    rw [dirNexScreen, exec_bind_of_some (exec_get s), if_neg (not_not_intro hopen), if_pos hscreen]
    rfl
  by_cases hahead : s.nex.lastBankIndex = -1
  swap
  · refine .inl ⟨fun ⟨_, h⟩ => hahead h.ahead, refused_of_exec
      "[SAVENEX] some bank was already stored (store screen ahead)" none s.nex.minFileVersion
      s.nex.h.hiResColour (.inl rfl) fun memory => ?_⟩
    rw [dirNexScreen, exec_bind_of_some (exec_get s), if_neg (not_not_intro hopen),
      if_neg (not_not_intro hscreen), if_pos hahead]
    rfl
  have hcommand : ∀ memory,
      (dirNexScreen (env.withMemory memory) (.layer2andLowRes type given)).exec s
        = (dirNexScreenLayer2andLowRes (env.withMemory memory) type given).exec s := by
    intro memory
    rw [dirNexScreen, exec_bind_of_some (exec_get s), if_neg (not_not_intro hopen),
      if_neg (not_not_intro hscreen), if_neg (not_not_intro hahead)]
  by_cases hversion : isV13 type = true ∧ s.nex.reqFileVersion = 2
  · refine .inl ⟨fun ⟨_, h⟩ => h.version hversion, refused_of_exec
      "[SAVENEX] V1.2 was requested with OPEN, but 320x256 or 640x256 screen is V1.3 feature." none
      s.nex.minFileVersion s.nex.h.hiResColour (.inl rfl) fun memory => ?_⟩
    have hversion' : (decide (type.val = .l2_320x256) || decide (type.val = .l2_640x256)) = true ∧
      s.nex.reqFileVersion = 2 := hversion
    rw [hcommand, dirNexScreenLayer2andLowRes, exec_bind_of_some (exec_get s)]
    dsimp only
    rw [if_pos hversion']
    rfl
  -- the version is noted behind here
  obtain ⟨minFileVersion, hiResColour, hnotedVersion, hnoted⟩ := notedScreen_eq hversion
  have harguments := fun memory =>
    (hcommand memory).trans (exec_dirNexScreenLayer2andLowRes (env.withMemory memory) given hversion)
  rcases hgiven : getIntArguments [-1, 0, -1, 0] [true, false, true, false] given with _ | args
  · refine .inl ⟨fun ⟨_, h⟩ => absurd (hgiven.symm.trans h.arguments) (by simp), refused_of_exec
      "[SAVENEX] expected syntax is ... [<Page8kNum 0..223>,<offset>[,<palPage8kNum 0..223>,<palOffset>]]"
      (some env.bp) minFileVersion hiResColour hnotedVersion fun memory => ?_⟩
    rw [harguments, hgiven, ← hnoted]
    rfl
  have hunique : ∀ args', ScreenAccepts s type given args' → args' = args := fun args' h =>
    Option.some.inj (h.arguments.symm.trans hgiven)
  by_cases hpages : (args 0).outside (-1) 223 = true ∨ (args 2).outside (-1) 223 = true
  · refine .inl ⟨fun ⟨_, h⟩ => h.pages (hunique _ h ▸ hpages), refused_of_exec
      "[SAVENEX] expected syntax is ... [<Page8kNum 0..223>,<offset>[,<palPage8kNum 0..223>,<palOffset>]]"
      (some env.bp) minFileVersion hiResColour hnotedVersion fun memory => ?_⟩
    rw [harguments, hgiven, ← hnoted]
    dsimp only
    rw [if_pos hpages]
    rfl
  by_cases hram : outsideRam (adrPixelData args) (pixelDataSize type) = true
  · refine .inl ⟨fun ⟨_, h⟩ => ?_, refused_of_exec
      "[SAVENEX] pixel data address range is outside of Next memory" (some env.bp)
      minFileVersion hiResColour hnotedVersion fun memory => ?_⟩
    · have houtside := h.ram
      rw [hunique _ h, hram] at houtside
      exact Bool.noConfusion houtside
    · rw [harguments, hgiven, ← hnoted]
      dsimp only
      rw [if_neg hpages, if_pos hram]
      rfl
  have hbehind : ∀ memory,
      (dirNexScreen (env.withMemory memory) (.layer2andLowRes type given)).exec s
        = (dirNexPaletteMemAt (env.withMemory memory) (args 2) (args 3) >>= fun palette =>
            if palette then writeScreen (env.withMemory memory) type args else pure ()).exec
          (notedScreen s type) := by
    intro memory
    rw [harguments, hgiven]
    dsimp only
    rw [if_neg hpages, if_neg hram]
  have hdefined : (notedScreen s type).nex.palDefined = s.nex.palDefined := by rw [hnoted]; rfl
  by_cases hpalette : PaletteFits s (args 2) (args 3)
  · refine .inr ⟨args, ⟨hopen, hscreen, hahead, hversion, hgiven, hpages,
      Bool.eq_false_iff.mpr hram, hpalette⟩, fun memory => ?_⟩
    have hfits : PaletteFits (notedScreen s type) (args 2) (args 3) := by
      rwa [PaletteFits, hdefined]
    rw [hbehind, exec_bind_of_some (exec_dirNexPaletteMemAt_fits hfits), if_pos rfl]
  · refine .inl ⟨fun ⟨_, h⟩ => hpalette (hunique _ h ▸ h.palette), refused_of_exec
      "[SAVENEX] palette data address range is outside of Next memory" (some env.bp)
      minFileVersion hiResColour hnotedVersion fun memory => ?_⟩
    obtain ⟨hnot, hpage, houtside⟩ : s.nex.palDefined ≠ true ∧ args 2 ≠ -1 ∧
        ¬InsideRam (getMemoryOffset (args 2) (args 3)) SNexHeader.palSize := by
      simpa [PaletteFits] using hpalette
    rw [hbehind, exec_bind_of_some (exec_dirNexPaletteMemAt_outside
      (hdefined.trans (Bool.eq_false_iff.mpr hnot)) hpage houtside), ← hnoted]
    rfl

/-! ### Blocks below the memory -/

/-- The command reads a block that starts below the memory, and passes the test. -/
def ReadsBelow (s : NexState) : MemoryCommand → Prop
  | .screen type given => ∃ args, ScreenAccepts s type given args ∧ adrPixelData args < 0
  | .copper given => ∃ args, CopperAccepts s given args ∧ getMemoryOffset (args 0) (args 1) < 0
  | .palette _ => False

/-- Nothing of the end of a screen command gives a message. -/
theorem log_writeScreen (env : NexEnv) (type : EBmpType) (args : Nat → Aint) (s : NexState) :
    ((writeScreen env type args).final s).log = s.log := by
  have : Std.Refl fun s t : NexState => t.log = s.log := ⟨fun _ => rfl⟩
  have : IsTrans NexState fun s t => t.log = s.log := ⟨fun _ _ _ h h' => h'.trans h⟩
  have hpalette : Keeps (fun s t : NexState => t.log = s.log) writePalette := by
    refine .get_bind fun s => .ite (.pure _) ?_
    split
    · exact fun _ => rfl
    · exact fun _ => rfl
  have hdata : Keeps (fun s t : NexState => t.log = s.log)
      (writePixelData env type (args 0) (adrPixelData args)) :=
    .ite (.ite (.bind (fun _ => rfl) fun _ _ => rfl) fun _ => rfl) fun _ => rfl
  have hscreen : Keeps (fun s t : NexState => t.log = s.log) (writeScreen env type args) :=
    .bind hpalette fun _ => .bind (fun _ => rfl) fun _ => hdata
  exact hscreen s

theorem log_withPalette (env : NexEnv) (page8kNum palOffset : Aint) (s : NexState) :
    (withPalette env page8kNum palOffset s).log = s.log := by
  unfold withPalette
  split_ifs
  · rfl
  · rfl
  · rfl

/-- A palette that fits is the same for the same memory. -/
theorem withPalette_congr {env env' : NexEnv} (h : SameRam env env') {page8kNum palOffset : Aint}
    {s : NexState} (hfits : PaletteFits s page8kNum palOffset) :
    withPalette env' page8kNum palOffset s = withPalette env page8kNum palOffset s := by
  unfold withPalette
  by_cases hdefined : s.nex.palDefined = true
  · rw [if_pos hdefined, if_pos hdefined]
  rw [if_neg hdefined, if_neg hdefined]
  by_cases hpage : page8kNum = -1
  · rw [if_pos hpage, if_pos hpage]
  rw [if_neg hpage, if_neg hpage,
    readMemory_congr h ((hfits.resolve_left hdefined).resolve_left hpage)]

/-- Pixel data at the default position, or in the memory, are the same for the same memory. -/
theorem writePixelData_congr {env env' : NexEnv} (h : SameRam env env') (type : EBmpType)
    {page : Aint} {address : Int} (hinside : page ≠ -1 → InsideRam address (pixelDataSize type)) :
    writePixelData env' type page address = writePixelData env type page address := by
  have hsize : pixelDataSize type ≤ 0x14000 := by cases type <;> decide
  unfold writePixelData
  by_cases hpage : page = -1
  · rw [if_pos hpage, if_pos hpage]
    by_cases htype : type = .loRes
    · rw [if_pos htype, if_pos htype, readMemory_congr h (by decide), readMemory_congr h (by decide)]
    · have hdefault : InsideRam (getMemoryOffset 18 0) (pixelDataSize type) := by
        have haddress : getMemoryOffset 18 0 = 0x24000 := by decide
        rw [haddress, InsideRam, totalRam]
        omega
      rw [if_neg htype, if_neg htype, readMemory_congr h hdefault]
  · rw [if_neg hpage, if_neg hpage, readMemory_congr h (hinside hpage)]

theorem withMemory_memory (env : NexEnv) : env.withMemory env.memory = env := rfl

/-- The blocks of the commands lie in the memory unless they start below it. -/
theorem memoryExact_of_not_below (command : MemoryCommand) (env : NexEnv) {s : NexState}
    (h : ¬ReadsBelow s command) : MemoryExact command env s := by
  -- a refused command does not depend on the memory at all
  have hrefused : ∀ {t : NexState}, Refused s t →
      (∀ memory, (command.program (env.withMemory memory)).exec s = (some (), t)) →
      MemoryExact command env s := by
    intro t ht hexec
    have henv := hexec env.memory
    rw [withMemory_memory] at henv
    refine ⟨fun env' hsame => ?_, .inr ?_⟩
    · rw [hsame.others, hexec, henv]
    · rwa [final, henv]
  -- one case for each command that reads a block: refused, or its block lies inside
  cases command with
  | screen type given =>
    rcases dirNexScreen_cases env type given s with ⟨-, t, ht, hexec⟩ | ⟨args, haccepts, hexec⟩
    · exact hrefused ht hexec
    · have henv := hexec env.memory
      rw [withMemory_memory] at henv
      -- the check of the source has no lower bound: a start below the memory is left out
      have hlow : 0 ≤ adrPixelData args := not_lt.mp fun hbelow => h ⟨args, haccepts, hbelow⟩
      have hinside := insideRam_of_not_outside hlow haccepts.ram
      obtain ⟨minFileVersion, hiResColour, -, hnoted⟩ := notedScreen_eq haccepts.version
      have hfits : PaletteFits (notedScreen s type) (args 2) (args 3) := by
        rw [hnoted]
        exact haccepts.palette
      refine ⟨fun env' hsame => ?_, .inl ?_⟩
      · show (dirNexScreen env' (.layer2andLowRes type given)).exec s
          = (dirNexScreen env (.layer2andLowRes type given)).exec s
        have henv' := hexec env'.memory
        rw [← hsame.others] at henv'
        rw [henv', henv, withPalette_congr hsame hfits, writeScreen, writeScreen,
          writePixelData_congr hsame type fun _ => hinside]
      · show ((dirNexScreen env (.layer2andLowRes type given)).final s).log = s.log
        rw [final, henv]
        exact (log_writeScreen _ _ _ _).trans ((log_withPalette _ _ _ _).trans (by rw [hnoted]; rfl))
  | copper given =>
    rcases dirNexCopper_cases env given s with ⟨-, t, ht, hexec⟩ | ⟨args, haccepts, hexec⟩
    · exact hrefused ht hexec
    · have henv := hexec env.memory
      rw [withMemory_memory] at henv
      have hlow := not_lt.mp fun hbelow => h ⟨args, haccepts, hbelow⟩
      have hinside := insideRam_of_not_outside hlow haccepts.ram
      refine ⟨fun env' hsame => ?_, .inl ?_⟩
      · show (dirNexCopper env' given).exec s = (dirNexCopper env given).exec s
        have henv' := hexec env'.memory
        rw [← hsame.others] at henv'
        rw [henv', henv, readMemory_congr hsame hinside]
      · show ((dirNexCopper env given).final s).log = s.log
        rw [final, henv]
  | palette given =>
    rcases dirNexPalette_cases env given s with ⟨t, ht, hexec⟩ | ⟨args, haccepts, hexec⟩
    · exact hrefused ht hexec
    · have henv := hexec env.memory
      rw [withMemory_memory] at henv
      refine ⟨fun env' hsame => ?_, .inl ?_⟩
      · show (dirNexPalette env' (.mem given)).exec s = (dirNexPalette env (.mem given)).exec s
        have henv' := hexec env'.memory
        rw [← hsame.others] at henv'
        rw [henv', henv, readMemory_congr hsame haccepts.ram]
      · show ((dirNexPalette env (.mem given)).final s).log = s.log
        rw [final, henv]

/-- Another content of what lies below the memory. -/
def belowChanged (env : NexEnv) : NexEnv :=
  env.withMemory fun address => if address < 0 then env.memory address + 1 else env.memory address

theorem sameRam_belowChanged (env : NexEnv) : SameRam env (belowChanged env) where
  others := rfl
  ram _ hlow _ := if_neg (not_lt.mpr hlow)

/-- A block that starts below the memory shows what lies there. -/
theorem readMemory_belowChanged_ne (env : NexEnv) {address : Int} {size : Nat} (hlow : address < 0)
    (hsize : 0 < size) : readMemory (belowChanged env) address size ≠ readMemory env address size := by
  intro h
  obtain ⟨size, rfl⟩ := Nat.exists_eq_succ_of_ne_zero hsize.ne'
  have hread : ∀ env : NexEnv, (readMemory env address (size + 1))[0]? = some (env.memory address) := by
    intro env
    simp [readMemory, List.range_succ_eq_map]
  have hfirst := (hread (belowChanged env)).symm.trans ((congrArg (·[0]?) h).trans (hread env))
  have hchanged : (if address < 0 then env.memory address + 1 else env.memory address)
      = env.memory address := Option.some.inj hfirst
  rw [if_pos hlow] at hchanged
  exact absurd hchanged (by
    generalize env.memory address = byte
    revert byte
    decide)

/-- What a screen command writes ahead of its pixel data does not depend on the memory. -/
theorem exec_writePalette (s : NexState) :
    ∃ t, writePalette.exec s = (some (), t) ∧ (s.nex.f.isSome = true → t.nex.f.isSome = true) := by
  rw [writePalette, exec_bind_of_some (exec_get s)]
  by_cases hcan : ¬s.nex.canAppend = true
  · rw [if_pos hcan]
    exact ⟨s, rfl, id⟩
  rw [if_neg hcan]
  split
  · refine ⟨_, rfl, fun hopen => ?_⟩
    show (s.nex.f.map _).isSome = true
    rwa [Option.isSome_map]
  · exact ⟨_, rfl, id⟩

/-- The end of a screen command appends its pixel data. -/
theorem f_writeScreen (type : EBmpType) {args : Nat → Aint} (hpage : args 0 ≠ -1) {s : NexState}
    (hopen : s.nex.f.isSome = true) :
    ∃ file, ∀ env, ((writeScreen env type args).final s).nex.f
      = some (file ++ readMemory env (adrPixelData args) (pixelDataSize type)) := by
  obtain ⟨t, ht, hopen'⟩ := exec_writePalette s
  obtain ⟨file, hfile⟩ := Option.isSome_iff_exists.mp (hopen' hopen)
  refine ⟨file, fun env => ?_⟩
  rw [writeScreen, final_bind_of_some ht, writePixelData, if_neg hpage]
  show t.nex.f.map _ = _
  rw [hfile]
  rfl

/-- A command that reads below the memory shows what lies there. -/
theorem not_memoryExact_of_below (command : MemoryCommand) (env : NexEnv) {s : NexState}
    (hopen : s.nex.canAppend = true → s.nex.f.isSome = true) (h : ReadsBelow s command) :
    ¬MemoryExact command env s := by
  intro hexact
  have hsame := hexact.inside _ (sameRam_belowChanged env)
  cases command with
  | screen type given =>
    obtain ⟨args, haccepts, hbelow⟩ := h
    rcases dirNexScreen_cases env type given s with ⟨hnone, -⟩ | ⟨args', haccepts', hexec⟩
    · exact hnone ⟨args, haccepts⟩
    obtain rfl : args' = args := Option.some.inj (haccepts'.arguments.symm.trans haccepts.arguments)
    have hpage : args' 0 ≠ -1 := by
      intro hpage
      rw [adrPixelData, if_pos hpage] at hbelow
      exact lt_irrefl 0 hbelow
    obtain ⟨minFileVersion, hiResColour, -, hnoted⟩ := notedScreen_eq haccepts.version
    have hfits : PaletteFits (notedScreen s type) (args' 2) (args' 3) := by
      rw [hnoted]
      exact haccepts.palette
    have hf : (withPalette env (args' 2) (args' 3) (notedScreen s type)).nex.f = s.nex.f := by
      rw [hnoted, withPalette]
      split_ifs
      · rfl
      · rfl
      · rfl
    obtain ⟨file, hfile⟩ := f_writeScreen type hpage
      (s := withPalette env (args' 2) (args' 3) (notedScreen s type))
      (hf.symm ▸ hopen haccepts.canAppend)
    -- the palette is the same, the pixel data are not
    have hbelow' := hexec (belowChanged env).memory
    have henv := hexec env.memory
    rw [withMemory_memory] at henv
    rw [← (sameRam_belowChanged env).others, withPalette_congr (sameRam_belowChanged env) hfits]
      at hbelow'
    have hscreens : (writeScreen (belowChanged env) type args').exec
          (withPalette env (args' 2) (args' 3) (notedScreen s type))
        = (writeScreen env type args').exec
          (withPalette env (args' 2) (args' 3) (notedScreen s type)) :=
      hbelow'.symm.trans (hsame.trans henv)
    have hread := (hfile (belowChanged env)).symm.trans
      ((congrArg (fun result => result.2.nex.f) hscreens).trans (hfile env))
    have hsize : ∀ type, 0 < pixelDataSize type := fun type => by cases type <;> decide
    exact readMemory_belowChanged_ne env hbelow (hsize type)
      (List.append_cancel_left (Option.some.inj hread))
  | copper given =>
    obtain ⟨args, haccepts, hbelow⟩ := h
    rcases dirNexCopper_cases env given s with ⟨hnone, -⟩ | ⟨args', haccepts', hexec⟩
    · exact hnone ⟨args, haccepts⟩
    obtain rfl : args' = args := Option.some.inj (haccepts'.arguments.symm.trans haccepts.arguments)
    have hbelow' := hexec (belowChanged env).memory
    have henv := hexec env.memory
    rw [withMemory_memory] at henv
    rw [← (sameRam_belowChanged env).others] at hbelow'
    have hresult := hbelow'.symm.trans (hsame.trans henv)
    exact readMemory_belowChanged_ne env hbelow (by decide)
      (Option.some.inj (congrArg (fun result => result.2.nex.copper) hresult))
  | palette given => exact h

/-! ### Runs -/

/-- There is a file behind `canAppend`, as there was before. -/
def KeepsFile (s t : NexState) : Prop :=
  (s.nex.canAppend = true → s.nex.f.isSome = true) → t.nex.canAppend = true → t.nex.f.isSome = true

instance : Std.Refl KeepsFile where
  refl _ := id

instance : IsTrans NexState KeepsFile where
  trans _ _ _ h h' := h' ∘ h

/-- A file that grows is still there. -/
theorem keepsFile_of_grows {s t : NexState} (h : Grows s t) : KeepsFile s t := by
  intro hs hcan
  obtain ⟨data, hdata⟩ := h.file
  rw [hdata, Option.isSome_map]
  exact hs (h.canAppend.symm.trans hcan)

theorem KeepsFile.of_grows {α : Type} {p : NexProgram α} (h : Keeps Grows p) :
    Keeps KeepsFile p :=
  h.mono fun _ _ => keepsFile_of_grows

/-- A statement that leaves the file alone, and perhaps ends the appending. -/
theorem keepsFile_updateNex {g : SNexFile → SNexFile} (hf : ∀ n, (g n).f.isSome = n.f.isSome)
    (hcan : ∀ n, (g n).canAppend = true → n.canAppend = true) : Keeps KeepsFile (updateNex g) := by
  intro s hs ht
  show (g s.nex).f.isSome = true
  rw [hf]
  exact hs (hcan _ ht)

theorem keepsFile_writeHeader : Keeps KeepsFile writeHeader := by
  refine keepsFile_updateNex (fun n => ?_) fun n => ?_
  · cases hf : n.f with
    | none => simp [hf]
    | some file => simp
  · cases n.f with
    | none => exact id
    | some file => exact fun hcan => Bool.noConfusion hcan

theorem keepsFile_calculateCrc32C {env : NexEnv} : Keeps KeepsFile (calculateCrc32C env) := by
  refine .get_bind fun s => ?_
  split
  · exact .pure _
  · refine .ite (.pure _) (.bind (keepsFile_updateNex (fun _ => rfl) fun _ => ?_) fun _ => ?_)
    · exact fun hcan => Bool.noConfusion hcan
    · exact .ite (keepsFile_updateNex (fun _ => rfl) fun _ => id)
        (.bind (keepsFile_updateNex (fun _ => rfl) fun _ => id) fun _ => .of_grows grows_error)

theorem keepsFile_finalizeFile {env : NexEnv} : Keeps KeepsFile (finalizeFile env) := by
  have hversion : Keeps KeepsFile (finalizeVersion env) := by
    refine .get_bind fun s => .ite ?_ (.bind ?_ fun _ => keepsFile_calculateCrc32C)
    · exact keepsFile_updateNex (fun _ => rfl) fun _ => id
    · exact keepsFile_updateNex (fun _ => rfl) fun _ => id
  have hclose : Keeps KeepsFile closeFile := fun _ _ hcan => Bool.noConfusion hcan
  refine .get_bind fun s => .ite (.pure _) (.bind (.when (.of_grows grows_error)) fun _ => ?_)
  refine .bind (.of_grows grows_updateIfAheadFirstBankSave) fun _ => .bind hversion fun _ => ?_
  exact .bind keepsFile_writeHeader fun _ => .bind hclose fun _ => .of_grows grows_checkRamReq

/-- The new file is there when it is ready for appending. -/
theorem keepsFile_createFile {env : NexEnv} {openArgs : Nat → Aint} :
    Keeps KeepsFile (createFile env openArgs) := by
  intro s _ hcan
  exact KeepsFile.of_grows grows_checkStackPointer _ (fun _ => rfl) hcan

theorem keepsFile_dirNexOpen {env : NexEnv} {fname : Text} {given : Option ArgumentList} :
    Keeps KeepsFile (dirNexOpen env fname given) := by
  have hreport : ∀ {l}, Keeps KeepsFile (report l) := .of_grows grows_report
  have herror : ∀ {message bad type}, Keeps KeepsFile (error message bad type) :=
    .of_grows grows_error
  refine .get_bind fun s => .ite herror ?_
  refine .bind (keepsFile_updateNex (fun _ => rfl) fun _ => id) fun _ => ?_
  dsimp only
  split
  · exact herror
  · refine .bind (.when hreport) fun _ => .bind hreport fun _ => .bind hreport fun _ => ?_
    exact .ite hreport (.ite hreport (.ite herror keepsFile_createFile))

theorem keepsFile_dirSAVENEX (env : NexEnv) (command : NexCommand) :
    Keeps KeepsFile (dirSAVENEX env command) := by
  refine keeps_dirSAVENEX (fun _ _ => keepsFile_of_grows) (fun _ _ _ => keepsFile_dirNexOpen)
    fun _ _ => ?_
  exact .get_bind fun s => .ite (.of_grows grows_error)
    (.bind (.of_grows grows_prepareClose) fun _ => keepsFile_finalizeFile)

end Nex

/-- In every state of a run, commands that failed included, what is ready for appending is open. -/
theorem NexState.hasFile_run (steps : List NexStep) :
    (run steps).nex.canAppend = true → (run steps).nex.f.isSome = true := by
  induction steps using List.reverseRecOn with
  | nil => exact fun hcan => Bool.noConfusion hcan
  | append_singleton steps step ih =>
    rw [run_append]
    exact keeps_step keepsFile_dirSAVENEX (fun _ s => keepsFile_finalizeFile s) _ step ih

/-- Behind every run a command that reads memory blocks depends on the device memory only, and is
accepted or refused with an error, unless its pixel data or its copper code start below the memory
and end in it. -/
theorem memoryExact_iff (steps : List NexStep) (command : MemoryCommand) (env : NexEnv) :
    MemoryExact command env (NexState.run steps) ↔ ¬ReadsBelow (NexState.run steps) command :=
  ⟨fun hexact hbelow =>
    not_memoryExact_of_below command env (NexState.hasFile_run steps) hbelow hexact,
    memoryExact_of_not_below command env⟩

/-- `COPPER 0,-1` behind `OPEN`: the copper code starts one byte below the memory. -/
theorem not_memoryExact_exampleNexEnv :
    ¬MemoryExact (.copper ⟨[0, -1], false⟩) exampleNexEnv
      (NexState.run [.command exampleNexEnv (.openFile "a.nex".toList none)]) := by
  refine not_memoryExact_of_below _ _ (NexState.hasFile_run _) ⟨fun i => [0, -1].getD i ([0, 0].getD i 0), ?_⟩
  exact ⟨⟨by decide +kernel, by decide +kernel, by decide +kernel, rfl, by decide, by decide⟩,
    by decide⟩

end Sjasmplus
