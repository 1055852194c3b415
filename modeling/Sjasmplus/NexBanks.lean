import Sjasmplus.NexLayout

/-!
# Banks of NEX files

A run of `SAVENEX` commands keeps a layout: what `OPEN` wrote, then what each command appends
(`NexSession`).  The number of banks, the entries of the header and the offset of the banks describe
it in every state with an open file, and the file that is closed is the layout, with the offset of
the banks in its header (`banks_bookkept`).
-/

namespace Sjasmplus

open Program Nex

namespace Nex

theorem exec_updateNex (g : SNexFile → SNexFile) (s : NexState) :
    (updateNex g).exec s = (some (), (updateNex g).final s) := rfl

theorem exec_updateHeader (g : SNexHeader → SNexHeader) (s : NexState) :
    (updateHeader g).exec s = (some (), (updateHeader g).final s) := rfl

/-! ### Commands that have nothing to do with banks -/

/-- The fields that have to do with banks stay as they are. -/
def KeepsFields (s t : NexState) : Prop :=
  Sound s.nex → Sound t.nex ∧ t.nex.bankFields = s.nex.bankFields

instance : Std.Refl KeepsFields where
  refl _ hs := ⟨hs, rfl⟩

instance : IsTrans NexState KeepsFields where
  trans _ _ _ h h' hs :=
    have ht := h hs
    have hu := h' ht.1
    ⟨hu.1, hu.2.trans ht.2⟩

theorem keepsFields_report {l : List Event} : Keeps KeepsFields (report l) :=
  fun _ hs => ⟨hs, rfl⟩

theorem keepsFields_error {message : String} {bad : Option Text} {type : EStatus} :
    Keeps KeepsFields (error message bad type) :=
  .bind keepsFields_report fun _ => .when .exit

theorem keepsFields_warning {message : String} {bad : Option Text} :
    Keeps KeepsFields (warning message bad) := keepsFields_report

/-- Other fields of the header. -/
theorem keepsFields_updateHeader {g : SNexHeader → SNexHeader}
    (hg : ∀ n : SNexFile, { n with h := g n.h }.bankFields = n.bankFields) :
    Keeps KeepsFields (updateHeader g) :=
  fun s hs => ⟨⟨hs.palette, hs.copper, hs.version⟩, hg s.nex⟩

/-- A feature of version 1.3, where 1.2 was not asked for. -/
theorem keepsFields_minFileVersion {s : NexState} (hversion : ¬s.nex.reqFileVersion = 2) :
    KeepsFields s ((updateNex fun n => { n with minFileVersion := 3 }).final s) :=
  fun hs => ⟨⟨hs.palette, hs.copper, fun _ => hversion⟩, rfl⟩

theorem keepsFields_dirNexCore {env : NexEnv} {given : ArgumentList} :
    Keeps KeepsFields (dirNexCore env given) := by
  refine .get_bind fun s => .ite keepsFields_error ?_
  split
  · exact keepsFields_error
  · exact .bind (.when keepsFields_warning) fun _ => keepsFields_updateHeader fun _ => rfl

theorem keepsFields_dirNexCfg3 {env : NexEnv} {given : ArgumentList} :
    Keeps KeepsFields (dirNexCfg3 env given) := by
  refine .get_bind_at fun s => ?_
  by_cases hopen : s.nex.f.isNone = true
  · rw [if_pos hopen]
    exact keepsFields_error s
  rw [if_neg hopen]
  by_cases hversion : s.nex.reqFileVersion = 2
  · rw [if_pos hversion]
    exact keepsFields_error s
  rw [if_neg hversion]
  refine Keeps.bind_at (keepsFields_minFileVersion hversion) fun _ => ?_
  split
  · exact keepsFields_error
  · refine .bind (.when keepsFields_warning) fun _ => ?_
    refine .bind (keepsFields_updateHeader fun _ => rfl) fun _ => .ite ?_ (.pure _)
    exact .bind keepsFields_error fun _ => keepsFields_updateHeader fun _ => rfl

theorem keepsFields_dirNexCfg {env : NexEnv} {given : ArgumentList} :
    Keeps KeepsFields (dirNexCfg env given) := by
  refine .get_bind fun s => .ite keepsFields_error ?_
  split
  · exact keepsFields_error
  · exact .bind (.when keepsFields_warning) fun _ => keepsFields_updateHeader fun _ => rfl

theorem keepsFields_dirNexBar {env : NexEnv} {given : ArgumentList} :
    Keeps KeepsFields (dirNexBar env given) := by
  refine .get_bind fun s => .ite keepsFields_error ?_
  split
  · exact keepsFields_error
  · exact .bind (.when keepsFields_warning) fun _ => keepsFields_updateHeader fun _ => rfl

theorem keepsFields_setPalette {palette : List Byte}
    (hpalette : palette.length ≤ SNexHeader.palSize) : Keeps KeepsFields (setPalette palette) := by
  refine fun s hs => ⟨⟨fun other hother => ?_, hs.copper, hs.version⟩, rfl⟩
  obtain rfl : palette = other := Option.some.inj hother
  exact hpalette

theorem keepsFields_noPalette : Keeps KeepsFields noPalette :=
  fun _ hs => ⟨⟨hs.palette, hs.copper, hs.version⟩, rfl⟩

theorem length_defaultPalette : defaultPalette.length = SNexHeader.palSize := by
  decide +kernel

theorem keepsFields_dirNexPaletteMemAt {env : NexEnv} {page8kNum palOffset : Aint} :
    Keeps KeepsFields (dirNexPaletteMemAt env page8kNum palOffset) := by
  refine .get_bind fun s => .ite (.pure _) (.ite ?_ (.ite ?_ ?_))
  · exact .bind keepsFields_noPalette fun _ => .pure _
  · exact .bind keepsFields_error fun _ => .pure _
  · exact .bind (keepsFields_setPalette (length_readMemory _ _ _).le) fun _ => .pure _

theorem keepsFields_dirNexPaletteOfBmp {bmp : SBmpFile} :
    Keeps KeepsFields (dirNexPaletteOfBmp bmp) := by
  refine .get_bind fun s => .ite (.pure _) (keepsFields_setPalette ?_)
  rw [List.length_flatMap]
  show ((List.range 256).map fun _ => 2).sum ≤ 0x200
  decide +kernel

theorem keepsFields_openBmp {env : NexEnv} {bmpIn : InputFile} :
    Keeps KeepsFields (openBmp env bmpIn) := by
  unfold openBmp
  split
  · exact .bind keepsFields_error fun _ => .pure _
  · exact .ite (.pure _) (.bind keepsFields_error fun _ => .pure _)

theorem keepsFields_dirNexPalette {env : NexEnv} {command : PaletteCommand} :
    Keeps KeepsFields (dirNexPalette env command) := by
  refine .get_bind fun s => .ite keepsFields_error (.ite keepsFields_error
    (.ite keepsFields_error ?_))
  -- past the guards, the forms of the command: only `MEM` and `BMP` load a palette
  cases command with
  | none => exact keepsFields_noPalette
  | default => exact keepsFields_setPalette length_defaultPalette.le
  | mem given =>
    show Keeps KeepsFields (dirNexPaletteMem env given)
    unfold dirNexPaletteMem
    dsimp only
    -- a wrong argument list ends the command ahead of the range check
    split
    · exact keepsFields_error
    · exact .ite keepsFields_error (.bind keepsFields_dirNexPaletteMemAt fun _ => .pure _)
  | bmp bmpIn comma =>
    refine .ite keepsFields_error (.bind keepsFields_openBmp fun bmp => ?_)
    cases bmp with
    | none => exact .pure _
    | some bmp => exact keepsFields_dirNexPaletteOfBmp
  | unknown lp => exact keepsFields_error

theorem keepsFields_dirNexCopper {env : NexEnv} {given : ArgumentList} :
    Keeps KeepsFields (dirNexCopper env given) := by
  refine .get_bind_at fun s => ?_
  by_cases hopen : ¬s.nex.canAppend = true
  · rw [if_pos hopen]
    exact keepsFields_error s
  rw [if_neg hopen]
  -- `minFileVersion` becomes 3 next, which is sound only where `OPEN` did not ask for 2
  by_cases hversion : s.nex.reqFileVersion = 2
  · rw [if_pos hversion]
    exact keepsFields_error s
  rw [if_neg hversion]
  by_cases hahead : s.nex.lastBankIndex ≠ -1
  · rw [if_pos hahead]
    exact keepsFields_error s
  rw [if_neg hahead]
  refine Keeps.bind_at (keepsFields_minFileVersion hversion) fun _ => ?_
  split
  · exact keepsFields_error
  · refine .ite keepsFields_error (.ite keepsFields_error fun t ht => ?_)
    -- the copper that is noted is 2048 bytes of memory: the layout writes it at the first bank
    refine ⟨⟨ht.palette, fun copper hcopper => ?_, ht.version⟩, rfl⟩
    obtain rfl := Option.some.inj hcopper
    exact (length_readMemory _ _ _).le

/-! ### Pictures -/

/-- The file grows by at most `size` bytes, and its screen is marked. -/
def Shows (size : Nat) (s t : NexState) : Prop :=
  Sound s.nex → Sound t.nex ∧ ∃ (data : List Byte) (screen : Byte),
    data.length ≤ size ∧ screen ≠ 0 ∧
      t.nex.bankFields = { s.nex.bankFields with f := s.nex.f.map (· ++ data), screen := screen }

theorem Shows.mono {size size' : Nat} {s t : NexState} (h : Shows size s t) (hsize : size ≤ size') :
    Shows size' s t := by
  intro hs
  obtain ⟨ht, data, screen, hdata, hscreen, hfields⟩ := h hs
  exact ⟨ht, data, screen, hdata.trans hsize, hscreen, hfields⟩

theorem Shows.of_keepsFields {size : Nat} {s t u : NexState} (h : KeepsFields s t)
    (h' : Shows size t u) : Shows size s u := by
  intro hs
  obtain ⟨ht, hfields⟩ := h hs
  obtain ⟨hu, data, screen, hdata, hscreen, hfields'⟩ := h' ht
  refine ⟨hu, data, screen, hdata, hscreen, ?_⟩
  have hf : t.nex.f = s.nex.f := congrArg BankFields.f hfields
  rw [hfields', hfields, hf]

theorem Shows.keepsFields {size : Nat} {s t u : NexState} (h : Shows size s t)
    (h' : KeepsFields t u) : Shows size s u := by
  intro hs
  obtain ⟨ht, data, screen, hdata, hscreen, hfields⟩ := h hs
  obtain ⟨hu, hfields'⟩ := h' ht
  exact ⟨hu, data, screen, hdata, hscreen, hfields'.trans hfields⟩

theorem Shows.append {size : Nat} {s t : NexState} (h : Shows size s t) (data : List Byte) :
    Shows (size + data.length) s ((append data).final t) := by
  intro hs
  obtain ⟨ht, data', screen, hdata, hscreen, hfields⟩ := h hs
  have hf : t.nex.f = s.nex.f.map (· ++ data') := congrArg BankFields.f hfields
  refine ⟨⟨ht.palette, ht.copper, ht.version⟩, data' ++ data, screen, ?_, hscreen, ?_⟩
  · rw [List.length_append]
    exact Nat.add_le_add_right hdata _
  · show { t.nex.bankFields with f := t.nex.f.map (· ++ data) } = _
    rw [hfields, hf, Option.map_map]
    cases s.nex.f with
    | none => rfl
    | some file => simp

/-- The header gets the mark of a screen. -/
def Marks (g : SNexHeader → SNexHeader) : Prop :=
  ∀ n : SNexFile, ∃ screen : Byte, screen ≠ 0 ∧
    { n with h := g n.h }.bankFields = { n.bankFields with screen := screen }

/-- The palette, and a screen that is marked. -/
theorem shows_writePalette {g : SNexHeader → SNexHeader} (hg : Marks g) (s : NexState) :
    ∃ t, writePalette.exec s = (some (), t) ∧
      Shows SNexHeader.palSize s ((updateHeader g).final t) := by
  -- the state behind the palette: at most a palette longer, and a screen byte that is not zero
  have hmark : ∀ t : NexState, (Sound s.nex → Sound t.nex ∧
      ∃ (data : List Byte) (screen : Byte), data.length ≤ SNexHeader.palSize ∧
        t.nex.bankFields = { s.nex.bankFields with
          f := s.nex.f.map (· ++ data)
          screen := screen }) → Shows SNexHeader.palSize s ((updateHeader g).final t) := by
    intro t h hs
    obtain ⟨ht, data, screen, hdata, hfields⟩ := h hs
    obtain ⟨screen', hscreen, hmarked⟩ := hg t.nex
    refine ⟨⟨ht.palette, ht.copper, ht.version⟩, data, screen', hdata, hscreen, ?_⟩
    exact hmarked.trans (hfields ▸ rfl)
  -- where no palette is written the file is the one before
  have hnil : s.nex.f.map (· ++ []) = s.nex.f := by
    cases s.nex.f with
    | none => rfl
    | some file => simp
  rw [writePalette, exec_bind_of_some (exec_get s)]
  -- a closed file, a palette that is noted, and no palette: the flag byte says which
  by_cases hcan : ¬s.nex.canAppend = true
  · rw [if_pos hcan]
    refine ⟨s, rfl, hmark s fun hs => ⟨hs, [], s.nex.h.screen, Nat.zero_le _, ?_⟩⟩
    rw [hnil]
    rfl
  rw [if_neg hcan]
  split
  · rename_i palette _ hpalette
    refine ⟨_, rfl, hmark _ fun hs => ?_⟩
    exact ⟨⟨hs.palette, hs.copper, hs.version⟩, palette, s.nex.h.screen,
      hs.palette palette hpalette, rfl⟩
  · refine ⟨_, rfl, hmark _ fun hs => ?_⟩
    refine ⟨⟨hs.palette, hs.copper, hs.version⟩, [], SNexHeader.scrNopal, Nat.zero_le _, ?_⟩
    rw [hnil]
    rfl

/-- A flag of a screen marks it. -/
theorem or_ne_zero_of_flag {screen flag : Byte} (hflag : flag ≠ 0) : screen ||| flag ≠ 0 := by
  intro h
  exact hflag (BitVec.or_eq_zero_iff.mp h).2

theorem marks_setScreen (type : ScreenType) (hiResColour : SNexHeader → Byte) :
    Marks (setScreen type hiResColour) := by
  intro n
  obtain ⟨type, hother⟩ := type
  cases type with
  | other => exact absurd rfl hother
  | layer2 => exact ⟨_, or_ne_zero_of_flag (show SNexHeader.scrLayer2 ≠ 0 by decide), rfl⟩
  | loRes => exact ⟨_, or_ne_zero_of_flag (show SNexHeader.scrLores ≠ 0 by decide), rfl⟩
  | l2_320x256 => exact ⟨_, or_ne_zero_of_flag (show SNexHeader.scrExt2 ≠ 0 by decide), rfl⟩
  | l2_640x256 => exact ⟨_, or_ne_zero_of_flag (show SNexHeader.scrExt2 ≠ 0 by decide), rfl⟩

/-- The pixel data of a screen command. -/
theorem Shows.writePixelData {size : Nat} {s t : NexState} (h : Shows size s t) (env : NexEnv)
    (type : EBmpType) (page : Aint) (adrPixelData : Int) :
    Shows (size + 0x14000) s ((writePixelData env type page adrPixelData).final t) := by
  have hsize : pixelDataSize type ≤ 0x14000 := by cases type <;> decide
  have happend : ∀ address, Shows (size + 0x14000) s
      ((Nex.append (readMemory env address (pixelDataSize type))).final t) := fun address =>
    (h.append _).mono (Nat.add_le_add_left ((length_readMemory _ _ _).trans_le hsize) _)
  unfold Nex.writePixelData
  split_ifs
  · refine ((h.append (readMemory env (getMemoryOffset 10 0) 0x1800)).append
      (readMemory env (getMemoryOffset 10 0 + 0x2000) 0x1800)).mono ?_
    rw [length_readMemory, length_readMemory]
    omega
  · exact happend _
  · exact happend _

/-- Nothing that has to do with banks happens, or a picture goes to the file. -/
def Pictures (s t : NexState) : Prop := KeepsFields s t ∨ Shows maxPicture s t

theorem pictures_of_keeps {α : Type} {p : NexProgram α} (h : Keeps KeepsFields p) :
    Keeps Pictures p :=
  fun s => .inl (h s)

theorem pictures_bind {α β : Type} {p : NexProgram α} {f : α → NexProgram β}
    (hp : Keeps KeepsFields p) (hf : ∀ a, Keeps Pictures (f a)) : Keeps Pictures (p >>= f) := by
  refine .bind_of (fun _ _ h => .inl h) (fun s t u h h' => ?_) hp hf
  rcases h' with h' | h'
  · exact .inl (IsTrans.trans _ _ _ h h')
  · exact .inr (.of_keepsFields h h')

/-- The end of a screen command with pixel data in the memory. -/
theorem pictures_writeScreen (env : NexEnv) (type : ScreenType) (args : Nat → Aint) :
    Keeps Pictures (writeScreen env type args) := by
  intro s
  obtain ⟨t, ht, hshows⟩ := shows_writePalette (marks_setScreen type SNexHeader.hiResColour) s
  rw [writeScreen, final_bind_of_some ht]
  exact .inr (hshows.writePixelData env type (args 0) (adrPixelData args))

/-- A refused command has nothing to do with banks. -/
theorem Refused.keepsFields {s t : NexState} (h : Refused s t) : KeepsFields s t := by
  obtain ⟨minFileVersion, hiResColour, hversion, hnex⟩ := h.nex
  intro hs
  rw [hnex]
  refine ⟨⟨hs.palette, hs.copper, ?_⟩, rfl⟩
  rcases hversion with rfl | ⟨-, hnew⟩
  · exact hs.version
  · exact fun _ => hnew

theorem keepsFields_notedScreen {s : NexState} {type : EBmpType}
    (hversion : ¬(isV13 type = true ∧ s.nex.reqFileVersion = 2)) :
    KeepsFields s (notedScreen s type) := by
  unfold notedScreen
  by_cases hnew : isV13 type = true
  · rw [if_pos hnew]
    exact fun hs => ⟨⟨hs.palette, hs.copper, fun _ hreq => hversion ⟨hnew, hreq⟩⟩, rfl⟩
  · rw [if_neg hnew]
    exact fun hs => ⟨⟨hs.palette, hs.copper, hs.version⟩, rfl⟩

theorem keepsFields_withPalette (env : NexEnv) (page8kNum palOffset : Aint) (s : NexState) :
    KeepsFields s (withPalette env page8kNum palOffset s) := by
  unfold withPalette
  split_ifs
  · exact refl s
  · exact keepsFields_noPalette s
  · exact keepsFields_setPalette (length_readMemory _ _ _).le s

/-- The length of the pixel data of a BMP file. -/
theorem length_loadPixelData {bmp : SBmpFile} {buffer : List Byte}
    (h : bmp.loadPixelData = some buffer) :
    buffer.length = bmp.height.toNat * bmp.width.toNat := by
  rw [SBmpFile.loadPixelData] at h
  split_ifs at h with hlines
  obtain rfl := Option.some.inj h
  have hmap : (((List.range bmp.height.toNat).map bmp.pixelLine).map List.length)
      = List.replicate bmp.height.toNat bmp.width.toNat := by
    refine List.eq_replicate_iff.mpr ⟨by simp, fun length hlength => ?_⟩
    obtain ⟨line, hline, rfl⟩ := List.mem_map.mp hlength
    exact of_decide_eq_true (List.all_eq_true.mp hlines line hline)
  rw [List.length_flatten, hmap, List.sum_replicate_nat]

theorem length_transposed (bmp : SBmpFile) (buffer : List Byte) :
    (bmp.transposed buffer).length = 0x14000 := by
  rw [SBmpFile.transposed, List.length_flatMap]
  simp only [List.length_map, List.length_range, List.map_const', List.sum_replicate_nat]

/-- The picture of a BMP file is as large as its type says. -/
theorem length_bmp_le {bmp : SBmpFile} {buffer : List Byte}
    (htype : bmp.type = bmpType bmp.width bmp.height) (h : bmp.loadPixelData = some buffer) :
    (if bmp.type = .layer2 ∨ bmp.type = .loRes then buffer else bmp.transposed buffer).length
      ≤ 0x14000 := by
  by_cases hold : bmp.type = .layer2 ∨ bmp.type = .loRes
  · rw [if_pos hold, length_loadPixelData h]
    rw [htype, bmpType] at hold
    split_ifs at hold with h₁ h₂ h₃ h₄ h₅
    · simp at hold
    · simp at hold
    · simp at hold
    · rw [h₄.1, h₄.2]
      decide
    · rw [h₅.1, h₅.2]
      decide
    · simp at hold
  · rw [if_neg hold, length_transposed]

/-- A BMP file is open, or an error is reported. -/
theorem exec_openBmp (env : NexEnv) (bmpIn : InputFile) (s : NexState) :
    (∃ t, (openBmp env bmpIn).exec s = (some none, t) ∧ KeepsFields s t) ∨
      ∃ bmp : SBmpFile, (openBmp env bmpIn).exec s = (some (some bmp), s) ∧
        bmp.type = bmpType bmp.width bmp.height := by
  unfold openBmp
  split
  · exact .inl ⟨_, rfl, fun hs => ⟨hs, rfl⟩⟩
  · split_ifs
    · exact .inr ⟨_, rfl, rfl⟩
    · exact .inl ⟨_, rfl, fun hs => ⟨hs, rfl⟩⟩

theorem pictures_storeBmp {bmp : SBmpFile} (hother : bmp.type ≠ .other)
    (htype : bmp.type = bmpType bmp.width bmp.height) (savePalette : Bool) (paletteOffset : Aint) :
    Keeps Pictures (storeBmp bmp savePalette paletteOffset) := by
  refine pictures_bind (.when keepsFields_dirNexPaletteOfBmp) fun _ s => ?_
  obtain ⟨t, ht, hshows⟩ :=
    shows_writePalette (marks_setScreen ⟨bmp.type, hother⟩ fun _ => paletteOffset.setWidth 8) s
  rw [final_bind_of_some ht]
  refine .inr ?_
  show Shows maxPicture s (Program.final _ ((updateHeader _).final t))
  cases hbuffer : bmp.loadPixelData with
  | none => exact (hshows.keepsFields (keepsFields_error _)).mono (by decide)
  | some buffer =>
    exact (hshows.append _).mono (Nat.add_le_add_left (length_bmp_le htype hbuffer) _)

theorem pictures_dirNexScreenBmp {env : NexEnv} {bmpIn : InputFile} {given : Option ArgumentList} :
    Keeps Pictures (dirNexScreenBmp env bmpIn given) := by
  unfold dirNexScreenBmp
  split
  · exact pictures_of_keeps keepsFields_error
  rename_i bmpArgs _
  refine pictures_bind (.when keepsFields_warning) fun _ => ?_
  refine pictures_bind (.when keepsFields_warning) fun _ s => ?_
  rcases exec_openBmp env bmpIn s with ⟨t, ht, hkeeps⟩ | ⟨bmp, ht, htype⟩
  · rw [final_bind_of_some ht]
    exact .inl hkeeps
  rw [final_bind_of_some ht]
  by_cases hother : bmp.type = .other
  · dsimp only
    rw [if_pos hother]
    exact .inl (keepsFields_error s)
  dsimp only
  rw [if_neg hother]
  refine pictures_bind (.when keepsFields_warning) (fun _ => ?_) s
  refine .get_bind_at fun u => ?_
  by_cases hversion : bmp.height = 256 ∧ u.nex.reqFileVersion = 2
  · rw [if_pos hversion]
    exact .inl (keepsFields_error u)
  rw [if_neg hversion]
  -- only a picture of version 1.3 has this height
  have hnoted : KeepsFields u ((when (bmp.height = 256)
      (updateNex fun n => { n with minFileVersion := 3 })).final u) := by
    unfold when
    by_cases hheight : bmp.height = 256
    · rw [if_pos hheight]
      exact keepsFields_minFileVersion fun hreq => hversion ⟨hheight, hreq⟩
    · rw [if_neg hheight]
      exact refl u
  have hexec := exec_when_updateNex (c := bmp.height = 256)
    (g := fun n => { n with minFileVersion := 3 }) (s := u)
  rw [final, hexec] at hnoted
  rw [final_bind_of_some hexec]
  rcases pictures_storeBmp hother htype _ _ _ with h | h
  · exact .inl (IsTrans.trans _ _ _ hnoted h)
  · exact .inr (.of_keepsFields hnoted h)

theorem pictures_dirNexScreenUlaTimex {env : NexEnv} {scrType : Byte} (htype : scrType ≠ 0)
    {hiResColor : Option Aint} : Keeps Pictures (dirNexScreenUlaTimex env scrType hiResColor) := by
  have hcolour : Keeps KeepsFields (setHiResColour env hiResColor) := by
    cases hiResColor with
    | none => exact .pure _
    | some colour =>
      exact .bind (.when keepsFields_warning) fun _ => keepsFields_updateHeader fun _ => rfl
  refine pictures_bind (.when hcolour) fun _ s => .inr ?_
  -- the type of the screen is in the header ahead of the picture
  have hmarked : Shows 0 s ((updateHeader fun h => { h with screen := scrType }).final s) := by
    intro hs
    refine ⟨⟨hs.palette, hs.copper, hs.version⟩, [], scrType, le_rfl, htype, ?_⟩
    cases hf : s.nex.f <;> simp [SNexFile.bankFields, updateHeader, updateNex, final, hf]
  rw [final_bind_of_some (exec_updateHeader _ s)]
  dsimp only
  -- the ULA screen is one piece of memory; the Timex screens are two, `0x2000` apart
  by_cases hula : scrType = SNexHeader.scrUla
  · rw [if_pos hula]
    refine (hmarked.append _).mono ?_
    rw [length_readMemory, maxPicture]
    omega
  · rw [if_neg hula]
    refine ((hmarked.append (readMemory env (getMemoryOffset 10 0) 0x1800)).append
      (readMemory env (getMemoryOffset 10 0 + 0x2000) 0x1800)).mono ?_
    rw [length_readMemory, length_readMemory, maxPicture]
    omega

/-- A screen command is ahead of the screens and the banks when it does anything. -/
theorem dirNexScreen_ahead (env : NexEnv) (command : ScreenCommand) (s : NexState) :
    KeepsFields s ((dirNexScreen env command).final s) ∨
      s.nex.h.screen = 0 ∧ s.nex.lastBankIndex = -1 := by
  -- the two guards of the source: one screen for a file, and none behind a bank
  by_cases hscreen : s.nex.h.screen = 0
  swap
  · refine .inl ?_
    unfold dirNexScreen
    rw [final_bind_of_some (exec_get s), if_pos hscreen]
    split_ifs
    · exact keepsFields_error s
    · exact keepsFields_error s
  by_cases hlast : s.nex.lastBankIndex = -1
  swap
  · refine .inl ?_
    unfold dirNexScreen
    rw [final_bind_of_some (exec_get s), if_neg (not_not_intro hscreen), if_pos hlast]
    split_ifs
    · exact keepsFields_error s
    · exact keepsFields_error s
  exact .inr ⟨hscreen, hlast⟩

/-- The test of the state is the same for every screen. -/
theorem pictures_guard {p : NexProgram Unit} (hp : Keeps Pictures p) {c c' c'' : NexState → Prop}
    [DecidablePred c] [DecidablePred c'] [DecidablePred c''] {message message' message'' : String} :
    Keeps Pictures (get >>= fun s => if c s then error message none .suppress
      else if c' s then error message' none .suppress
      else if c'' s then error message'' none .suppress else p) := by
  have herror : ∀ {message}, Keeps Pictures (error message none .suppress) :=
    pictures_of_keeps keepsFields_error
  refine .get_bind_at fun s => ?_
  split_ifs
  · exact herror s
  · exact herror s
  · exact herror s
  · exact hp s

/-- The screen commands that store no bank. -/
theorem pictures_dirNexScreen {env : NexEnv} {command : ScreenCommand}
    (htile : ∀ given, command ≠ .tile given) : Keeps Pictures (dirNexScreen env command) := by
  cases command with
  | layer2andLowRes type given =>
    intro s
    -- the command without its memory: refused, or the picture is read at its arguments
    rcases dirNexScreen_cases env type given s with ⟨-, t, ht, hexec⟩ | ⟨args, haccepts, hexec⟩
    · have henv := hexec env.memory
      rw [withMemory_memory] at henv
      rw [final, henv]
      exact .inl ht.keepsFields
    · have henv := hexec env.memory
      rw [withMemory_memory] at henv
      rw [final, henv]
      -- the notes and the palette leave the fields of the banks, so that only the picture appends
      have hkeeps := IsTrans.trans _ _ _ (keepsFields_notedScreen haccepts.version)
        (keepsFields_withPalette env (args 2) (args 3) (notedScreen s type))
      rcases pictures_writeScreen env type args
        (withPalette env (args 2) (args 3) (notedScreen s type)) with h | h
      · exact .inl (IsTrans.trans _ _ _ hkeeps h)
      · exact .inr (.of_keepsFields hkeeps h)
  | tile given => exact absurd rfl (htile given)
  | bmp bmpIn given => exact pictures_guard pictures_dirNexScreenBmp
  | scr => exact pictures_guard (pictures_dirNexScreenUlaTimex (by decide))
  | shc => exact pictures_guard (pictures_dirNexScreenUlaTimex (by decide))
  | shr hiResColor => exact pictures_guard (pictures_dirNexScreenUlaTimex (by decide))
  | unknown lp => exact pictures_guard (pictures_of_keeps keepsFields_error)

/-! ### Banks -/

/-- The layout behind a command: banks of the memory at the end, and in front of the first of them
the copper code. -/
structure StoredLayout (env : NexEnv) (s t : NexState) (l l' : NexLayout) (data : List Byte)
    (new : List (Fin 112)) : Prop where
  represents : Represents t.nex.bankFields l'
  appends : Appends env data new l l'
  length : data.length ≤ SNexHeader.copperSize
  behind : s.nex.lastBankIndex ≠ -1 → data = [] ∧ t.nex.lastBankIndex ≠ -1
  ahead : data ≠ [] → t.nex.lastBankIndex ≠ -1

/-- A statement that stores banks takes a layout to a layout. -/
def Stores (env : NexEnv) (s t : NexState) : Prop :=
  ∀ l, Sound s.nex → Represents s.nex.bankFields l →
    Sound t.nex ∧ ∃ l' data new, StoredLayout env s t l l' data new

theorem Stores.of_keepsFields {env : NexEnv} {s t : NexState} (h : KeepsFields s t) :
    Stores env s t := by
  intro l hs hl
  obtain ⟨ht, hfields⟩ := h hs
  have hlast : t.nex.lastBankIndex = s.nex.lastBankIndex :=
    congrArg BankFields.lastBankIndex hfields
  refine ⟨ht, l, [], [], hfields ▸ hl, .refl env l, Nat.zero_le _, fun hne => ⟨rfl, ?_⟩, absurd rfl⟩
  rwa [hlast]

instance (env : NexEnv) : Std.Refl (Stores env) where
  refl s := .of_keepsFields (refl s)

instance (env : NexEnv) : IsTrans NexState (Stores env) where
  trans s t u h h' l hs hl := by
    obtain ⟨ht, l', data, new, hfirst⟩ := h l hs hl
    obtain ⟨hu, l'', data', new', hsecond⟩ := h' l' ht hfirst.represents
    refine ⟨hu, l'', data ++ data', new ++ new', hsecond.represents,
      hfirst.appends.trans hsecond.appends, ?_, fun hlast => ?_, fun hne => ?_⟩
    · -- the copper code is appended once
      by_cases hdata : data = []
      · rw [hdata]
        exact hsecond.length
      · rw [(hsecond.behind (hfirst.ahead hdata)).1, List.append_nil]
        exact hfirst.length
    · obtain ⟨rfl, hlast'⟩ := hfirst.behind hlast
      exact hsecond.behind hlast'
    · by_cases hdata : data = []
      · refine hsecond.ahead fun hdata' => hne ?_
        rw [hdata, hdata']
        rfl
      · exact (hsecond.behind (hfirst.ahead hdata)).2

/-- What `saveBank` does with `nex`. -/
def storedBank (env : NexEnv) (bankIndex : Int) (bank : Fin 112) (onlyNonZero : Bool)
    (n : SNexFile) : SNexFile :=
  let n := { atFirstBank n with lastBankIndex := bankIndex }
  if onlyNonZero ∧ (bankMemory env bank).data.all (· = 0) then n
  else
    { n with
      f := n.f.map (· ++ (bankMemory env bank).data)
      h := { n.h with banks := Function.update n.h.banks bank 1, numBanks := n.h.numBanks + 1 } }

theorem exec_storeBank (env : NexEnv) (bankIndex : Int) (bank : Fin 112) (onlyNonZero : Bool)
    {s : NexState} (hahead : OffsetAhead s.nex) :
    ∃ l, (storeBank env bankIndex bank onlyNonZero).exec s = (some true,
      { s with nex := storedBank env bankIndex bank onlyNonZero s.nex, log := s.log ++ l }) := by
  obtain ⟨l, hl⟩ := exec_updateIfAheadFirstBankSave_of_ahead hahead
  refine ⟨l, ?_⟩
  rw [storeBank, exec_bind_of_some hl, storedBank]
  dsimp only
  rw [data_bankMemory]
  by_cases hzero : onlyNonZero = true ∧
      (readMemory env (bank.val * 2 * 0x2000) 0x4000).all (· = 0) = true
  · rw [if_pos hzero, if_pos hzero]
    rfl
  · rw [if_neg hzero, if_neg hzero]
    rfl

/-- The offset of the banks is known behind the first of them. -/
theorem Represents.offsetAhead {n : SNexFile} {l : NexLayout} (h : Represents n.bankFields l) :
    OffsetAhead n := by
  by_cases hlast : n.lastBankIndex = -1
  · exact .inr hlast
  · exact .inl fun hzero => hlast (h.offset_eq_zero_iff.mp hzero)

theorem sound_atFirstBank {n : SNexFile} (hs : Sound n) : Sound (atFirstBank n) := by
  unfold atFirstBank
  by_cases hoffset : n.h.banksOffset ≠ 0 ∨ ¬n.canAppend = true
  · rw [if_pos hoffset]
    exact hs
  · rw [if_neg hoffset]
    exact ⟨hs.palette, hs.copper, hs.version⟩

theorem stores_storeBank {env : NexEnv} {bankIndex : Int} {bank : Fin 112} {onlyNonZero : Bool}
    {s : NexState} (hlow : 0 ≤ bankIndex) (hlate : ¬bankIndex ≤ s.nex.lastBankIndex)
    (hbank : fileOrder[bankIndex.toNat]? = some bank) :
    Stores env s ((storeBank env bankIndex bank onlyNonZero).final s) := by
  intro l hs hl
  obtain ⟨log, hlog⟩ := exec_storeBank env bankIndex bank onlyNonZero hl.offsetAhead
  have hlow' : -1 ≤ s.nex.lastBankIndex := hl.low
  have hne : bankIndex ≠ -1 := by omega
  -- the first bank writes the copper ahead of itself; later ones append nothing there
  obtain ⟨copper, hcopper, hlength, hskipped⟩ := hl.atFirstBank hs hlow (not_le.mp hlate)
  have hs' := sound_atFirstBank hs
  have hfront : Appends env copper [] l { l with front := l.front ++ copper } := by
    refine ⟨rfl, fun hstored => hcopper fun hlast => hstored (hl.stored_eq_nil hlast), ?_⟩
    exact (List.append_nil _).symm
  rw [final, hlog]
  dsimp only
  -- `AUTO` leaves a bank of zeros out: the index moves, and no bank is added
  by_cases hzero : onlyNonZero = true ∧ (bankMemory env bank).data.all (· = 0) = true
  · rw [storedBank, if_pos hzero]
    exact ⟨⟨hs'.palette, hs'.copper, hs'.version⟩, _, copper, [],
      ⟨hskipped, hfront, hlength, fun hlast => ⟨hcopper hlast, hne⟩, fun _ => hne⟩⟩
  · rw [storedBank, if_neg hzero]
    -- the banks stored are from the front of the file order, all before this index
    have hbefore : l.banks.Sublist (fileOrder.take bankIndex.toNat) :=
      hl.last.trans (List.take_sublist_take_left (by
        show (s.nex.lastBankIndex + 1).toNat ≤ bankIndex.toNat
        omega))
    obtain ⟨l', happends, hl'⟩ := hskipped.store hlow hbank hbefore env
    refine ⟨⟨hs'.palette, hs'.copper, hs'.version⟩, l', copper ++ [], [bank], hl',
      hfront.trans happends, ?_, fun hlast => ⟨?_, hne⟩, fun _ => hne⟩
    · rwa [List.append_nil]
    · rw [hcopper hlast, List.append_nil]

theorem stores_saveBank {env : NexEnv} {bankIndex bankNum : Int} {onlyNonZero : Bool}
    (hplace : InPlace bankIndex bankNum) :
    Keeps (Stores env) (saveBank env bankIndex bankNum onlyNonZero) := by
  refine .get_bind_at fun s => ?_
  by_cases hrange : 0 ≤ bankNum ∧ bankNum < 112
  · rw [dif_pos hrange]
    by_cases hlate : bankIndex ≤ s.nex.lastBankIndex
    · rw [if_pos hlate]
      exact .of_keepsFields (keepsFields_report s)
    · rw [if_neg hlate]
      exact stores_storeBank hplace.1 hlate (hplace.2 _ (Int.toNat_of_nonneg hrange.1))
  · rw [dif_neg hrange]
    exact refl s

theorem stores_error {env : NexEnv} {message : String} {bad : Option Text} {type : EStatus} :
    Keeps (Stores env) (error message bad type) :=
  fun s => .of_keepsFields (keepsFields_error s)

theorem stores_saveBanks {env : NexEnv} {items : List BankItem} :
    Keeps (Stores env) (saveBanks env items) := by
  induction items with
  | nil => exact .pure _
  | cons item rest ih =>
    obtain ⟨nextLp, item⟩ := item
    unfold saveBanks
    by_cases hindex : getNexBankIndex (item.getD (-1)) < 0
    · simp only [if_pos hindex]
      exact stores_error
    · simp only [if_neg hindex]
      exact .bind (stores_saveBank (inPlace_getNexBankIndex (not_lt.mp hindex))) fun _ =>
        .ite ih (.pure _)

theorem stores_dirNexBank {env : NexEnv} {items : List BankItem} :
    Keeps (Stores env) (dirNexBank env items) :=
  .get_bind fun _ => .ite stores_error stores_saveBanks

theorem stores_saveNonZeroBanks {env : NexEnv} {fromI : Int} (hfrom : 0 ≤ fromI) {count : Nat} :
    Keeps (Stores env) (saveNonZeroBanks env fromI count) := by
  induction count generalizing fromI with
  | zero => exact .pure _
  | succ count ih =>
    exact .bind (stores_saveBank (inPlace_getNexBankNum hfrom)) fun _ => .ite (ih (by omega)) (.pure _)

/-- A bank number in range has an index. -/
theorem getNexBankIndex_nonneg {bankNum : Aint} (h : bankNum.outside 0 111 = false) :
    0 ≤ getNexBankIndex bankNum := by
  have hall : ∀ bank : Fin 112, 0 ≤ getNexBankIndex (BitVec.ofNat 32 bank.val) := by decide +kernel
  have hrange : 0 ≤ bankNum.toInt ∧ bankNum.toInt ≤ 111 := by simpa [Aint.outside] using h
  have hnum : bankNum = BitVec.ofNat 32 bankNum.toInt.toNat := by
    rw [← BitVec.ofInt_natCast, Int.toNat_of_nonneg hrange.1, BitVec.ofInt_toInt]
  rw [hnum]
  exact hall ⟨bankNum.toInt.toNat, by omega⟩

theorem stores_dirNexAuto {env : NexEnv} {given : ArgumentList} :
    Keeps (Stores env) (dirNexAuto env given) := by
  refine .get_bind fun s => .ite stores_error (.ite stores_error ?_)
  split
  · exact stores_error
  · rename_i autoArgs _
    dsimp only
    by_cases hrange : (autoArgs 0).outside 0 111 = true ∨ (autoArgs 1).outside 0 111 = true
    · rw [if_pos hrange]
      exact stores_error
    · rw [if_neg hrange]
      have hfrom := getNexBankIndex_nonneg (Bool.eq_false_iff.mpr fun h => hrange (.inl h))
      exact .ite stores_error (stores_saveNonZeroBanks hfrom)

/-! ### Commands and layouts -/

/-- The commands that store banks. -/
def NexCommand.storesBanks : NexCommand → Bool
  | .bank _ | .auto _ | .screen (.tile _) => true
  | _ => false

/-- What a command does with a layout: only some commands store banks, and these append less than a
bank besides. -/
structure ExtendedLayout (env : NexEnv) (storesBanks : Bool) (t : NexState) (l l' : NexLayout)
    (data : List Byte) (new : List (Fin 112)) : Prop where
  represents : Represents t.nex.bankFields l'
  appends : Appends env data new l l'
  other : storesBanks = false → new = []
  length : storesBanks = true → data.length ≤ SNexHeader.palSize + SNexHeader.copperSize

/-- A command takes a layout to a layout. -/
def Extends (env : NexEnv) (storesBanks : Bool) (s t : NexState) : Prop :=
  ∀ l, Sound s.nex → Represents s.nex.bankFields l →
    Sound t.nex ∧ ∃ l' data new, ExtendedLayout env storesBanks t l l' data new

theorem Extends.of_keepsFields {env : NexEnv} {storesBanks : Bool} {s t : NexState}
    (h : KeepsFields s t) : Extends env storesBanks s t := by
  intro l hs hl
  obtain ⟨ht, hfields⟩ := h hs
  exact ⟨ht, l, [], [], hfields ▸ hl, .refl env l, fun _ => rfl, fun _ => Nat.zero_le _⟩

theorem Extends.of_stores {env : NexEnv} {s t : NexState} (h : Stores env s t) :
    Extends env true s t := by
  intro l hs hl
  obtain ⟨ht, l', data, new, hstored⟩ := h l hs hl
  exact ⟨ht, l', data, new, hstored.represents, hstored.appends, fun h => Bool.noConfusion h,
    fun _ => hstored.length.trans (Nat.le_add_left _ _)⟩

/-- A picture goes to the front of the layout. -/
theorem Shows.layout {size : Nat} {s t : NexState} (h : Shows size s t) (hsize : size ≤ maxPicture)
    (hscreen : s.nex.h.screen = 0) (hlast : s.nex.lastBankIndex = -1) {l : NexLayout}
    (hs : Sound s.nex) (hl : Represents s.nex.bankFields l) (env : NexEnv) :
    Sound t.nex ∧ ∃ (l' : NexLayout) (data : List Byte), data.length ≤ size ∧
      Represents t.nex.bankFields l' ∧ Appends env data [] l l' := by
  obtain ⟨ht, data, screen, hdata, hmarked, hfields⟩ := h hs
  refine ⟨ht, .ofFront (l.front ++ data), data, hdata, ?_, rfl, ?_, ?_⟩
  · rw [hfields]
    exact hl.picture hlast hscreen hmarked (hdata.trans hsize)
  · exact absurd (hl.stored_eq_nil hlast)
  · rw [hl.stored_eq_nil hlast]
    rfl

/-- The screen commands other than `TILE`. -/
theorem extends_dirNexScreen {env : NexEnv} {command : ScreenCommand}
    (htile : ∀ given, command ≠ .tile given) (s : NexState) :
    Extends env false s ((dirNexScreen env command).final s) := by
  rcases dirNexScreen_ahead env command s with h | ⟨hscreen, hlast⟩
  · exact .of_keepsFields h
  rcases @pictures_dirNexScreen env command htile s with h | h
  · exact .of_keepsFields h
  intro l hs hl
  obtain ⟨ht, l', data, -, hl', happends⟩ := h.layout le_rfl hscreen hlast hs hl env
  exact ⟨ht, l', data, [], hl', happends, fun _ => rfl, fun h => Bool.noConfusion h⟩

/-- The palette of a tilemap screen goes to the front, and bank 5 behind it. -/
theorem extends_dirNexScreenTile (env : NexEnv) (given : ArgumentList) {s : NexState}
    (hscreen : s.nex.h.screen = 0) (hlast : s.nex.lastBankIndex = -1) :
    Extends env true s ((dirNexScreenTile env given).final s) := by
  -- the refusals of the command keep every field
  rw [dirNexScreenTile, final_bind_of_some (exec_get s)]
  dsimp only
  split
  · exact .of_keepsFields (keepsFields_error s)
  rename_i tileArgs _
  by_cases hrange : (tileArgs 0).outside 0 255 = true ∨ (tileArgs 1).outside 0 255 = true ∨
      (tileArgs 2).outside 0 255 = true ∨ (tileArgs 3).outside 0 255 = true ∨
      (tileArgs 4).outside 0 1 = true
  · rw [if_pos hrange]
    exact .of_keepsFields (keepsFields_error s)
  rw [if_neg hrange]
  by_cases hversion : s.nex.reqFileVersion = 2
  · rw [if_pos hversion]
    exact .of_keepsFields (keepsFields_error s)
  rw [if_neg hversion]
  have hnoted := keepsFields_minFileVersion hversion
  -- the flag of the extended screens makes the screen byte non-zero, whatever it was
  have hmarks : Marks fun h => { h with
      screen := h.screen ||| SNexHeader.scrExt2
      screen2 := SNexHeader.scr2_tilemap
      tilesScrConfig := fun i => (tileArgs i).setWidth 8 } := fun n =>
    ⟨_, or_ne_zero_of_flag (show SNexHeader.scrExt2 ≠ 0 by decide), rfl⟩
  obtain ⟨t, ht, hshows⟩ := shows_writePalette hmarks
    ((updateNex fun n => { n with minFileVersion := 3 }).final s)
  have hshown := Shows.of_keepsFields hnoted hshows
  rw [final_bind_of_some (exec_updateNex _ s), final_bind_of_some ht]
  rw [final_bind_of_some (exec_updateHeader _ t)]
  intro l hs hl
  -- the palette goes to the front, where no bank is stored yet
  obtain ⟨hu, l', data, hdata, hl', happends⟩ :=
    hshown.layout (by decide) hscreen hlast hs hl env
  -- bank 5 holds the tiles, unless the last argument is 0: it goes behind the front
  have hbank : Keeps (Stores env) (if tileArgs 4 = 0 then pure () else do
      let _ ← saveBank env (getNexBankIndex 5) 5 false) :=
    .ite (.pure _) (.bind (stores_saveBank (inPlace_getNexBankIndex (by decide))) fun _ => .pure _)
  obtain ⟨hv, l'', data', new, hstored⟩ := hbank _ l' hu hl'
  refine ⟨hv, l'', data ++ data', new, hstored.represents,
    happends.trans hstored.appends, fun h => Bool.noConfusion h, fun _ => ?_⟩
  rw [List.length_append]
  exact Nat.add_le_add hdata hstored.length

/-- The commands other than `OPEN` and `CLOSE`. -/
def NexCommand.appends : NexCommand → Bool
  | .openFile _ _ | .close _ => false
  | _ => true

theorem extends_dirSAVENEX (env : NexEnv) {command : NexCommand} (happends : command.appends = true)
    (s : NexState) : Extends env command.storesBanks s ((dirSAVENEX env command).final s) := by
  unfold dirSAVENEX
  by_cases hpass : env.pass ≠ lastPass
  · rw [if_pos hpass]
    exact .of_keepsFields (refl s)
  rw [if_neg hpass]
  by_cases hdevice : env.deviceID ≠ some "ZXSPECTRUMNEXT"
  · rw [if_pos hdevice]
    exact .of_keepsFields (keepsFields_error s)
  rw [if_neg hdevice]
  -- one case for each command; only those that append reach here
  cases command with
  | openFile fname given => exact Bool.noConfusion happends
  | close files => exact Bool.noConfusion happends
  | core given => exact .of_keepsFields (keepsFields_dirNexCore s)
  | cfg3 given => exact .of_keepsFields (keepsFields_dirNexCfg3 s)
  | cfg given => exact .of_keepsFields (keepsFields_dirNexCfg s)
  | bar given => exact .of_keepsFields (keepsFields_dirNexBar s)
  | palette command => exact .of_keepsFields (keepsFields_dirNexPalette s)
  | copper given => exact .of_keepsFields (keepsFields_dirNexCopper s)
  | bank items => exact .of_stores (stores_dirNexBank s)
  | auto given => exact .of_stores (stores_dirNexAuto s)
  | unknown lp => exact .of_keepsFields (keepsFields_error s)
  | screen command =>
    -- `SCREEN TILE` stores a bank, the other screens a picture at most
    by_cases htile : ∃ given, command = .tile given
    · obtain ⟨given, rfl⟩ := htile
      rcases dirNexScreen_ahead env (.tile given) s with h | ⟨hscreen, hlast⟩
      · exact .of_keepsFields h
      by_cases hcan : s.nex.canAppend = true
      · have htileScreen : (dirNexScreen env (.tile given)).final s
            = (dirNexScreenTile env given).final s := by
          unfold dirNexScreen
          rw [final_bind_of_some (exec_get s), if_neg (not_not_intro hcan),
            if_neg (not_not_intro hscreen), if_neg (not_not_intro hlast)]
        show Extends env true s ((dirNexScreen env (.tile given)).final s)
        rw [htileScreen]
        exact extends_dirNexScreenTile env given hscreen hlast
      · refine .of_keepsFields ?_
        show KeepsFields s ((dirNexScreen env (.tile given)).final s)
        unfold dirNexScreen
        rw [final_bind_of_some (exec_get s), if_pos hcan]
        exact keepsFields_error s
    · have hother : ∀ given, command ≠ .tile given := fun given h => htile ⟨given, h⟩
      have hstores : NexCommand.storesBanks (.screen command) = false := by
        cases command with
        | tile given => exact absurd rfl (hother given)
        | _ => rfl
      rw [hstores]
      exact extends_dirNexScreen hother s

/-- Without a file a command has nothing to do with banks. -/
theorem keepsFields_of_closed (env : NexEnv) {command : NexCommand} {s : NexState}
    (hopen : ∀ fname given, command ≠ .openFile fname given) (hcan : s.nex.canAppend = false) :
    KeepsFields s ((dirSAVENEX env command).final s) := by
  have hnot : ¬s.nex.canAppend = true := by simp [hcan]
  unfold dirSAVENEX
  by_cases hpass : env.pass ≠ lastPass
  · rw [if_pos hpass]
    exact refl s
  rw [if_neg hpass]
  by_cases hdevice : env.deviceID ≠ some "ZXSPECTRUMNEXT"
  · rw [if_pos hdevice]
    exact keepsFields_error s
  rw [if_neg hdevice]
  cases command with
  | openFile fname given => exact absurd rfl (hopen fname given)
  | core given => exact keepsFields_dirNexCore s
  | cfg3 given => exact keepsFields_dirNexCfg3 s
  | cfg given => exact keepsFields_dirNexCfg s
  | bar given => exact keepsFields_dirNexBar s
  | palette command => exact keepsFields_dirNexPalette s
  | copper given => exact keepsFields_dirNexCopper s
  | unknown lp => exact keepsFields_error s
  -- the four commands below ask `canAppend` first
  | bank items =>
    dsimp only
    unfold dirNexBank
    rw [final_bind_of_some (exec_get s), if_pos hnot]
    exact keepsFields_error s
  | auto given =>
    dsimp only
    unfold dirNexAuto
    rw [final_bind_of_some (exec_get s), if_pos hnot]
    exact keepsFields_error s
  | screen command =>
    dsimp only
    unfold dirNexScreen
    rw [final_bind_of_some (exec_get s), if_pos hnot]
    exact keepsFields_error s
  | close files =>
    dsimp only
    unfold dirNexClose
    rw [final_bind_of_some (exec_get s), if_pos hnot]
    exact keepsFields_error s

/-! ### `OPEN` -/

/-- The new file is its header. -/
theorem createFile_layout (env : NexEnv) (openArgs : Nat → Aint) {s : NexState}
    (hinit : s.nex = s.nex.init) (hs : Sound s.nex) :
    Sound ((createFile env openArgs).final s).nex ∧ ∃ h : SNexHeader,
      Represents ((createFile env openArgs).final s).nex.bankFields (.ofFront h.bytes) := by
  -- the warning about the stack pointer is behind the fields
  have hstack : Keeps KeepsFields (checkStackPointer env) :=
    .get_bind fun s => .ite keepsFields_warning (.ite (.pure _) keepsFields_report)
  obtain ⟨t, h, ht, hfields, hsound⟩ : ∃ t h, (createFile env openArgs).final s
      = (checkStackPointer env).final t ∧ t.nex.bankFields = { s.nex.bankFields with
        f := some (SNexHeader.bytes h ++ ([] : List Byte).drop 512)
        canAppend := true } ∧ Sound t.nex := by
    -- version 2 asked for by `OPEN` is never raised: `minFileVersion` starts at 3 for 3 alone
    refine ⟨_, _, rfl, rfl, hs.palette, hs.copper, fun hmin hreq => ?_⟩
    have hmin' : (if openArgs 3 = 3 then 3 else 2) = (3 : Int) := hmin
    have hreq' : (openArgs 3).toInt = 2 := hreq
    by_cases h3 : openArgs 3 = 3
    · rw [h3] at hreq'
      exact absurd hreq' (by decide)
    · rw [if_neg h3] at hmin'
      exact absurd hmin' (by decide)
  rw [ht]
  obtain ⟨hsound', hfields'⟩ := hstack t hsound
  refine ⟨hsound', h, ?_⟩
  rw [hfields', hfields, hinit]
  -- the layout of a new file: its header at the front, and no bank
  refine ⟨?_, rfl, rfl, show (-1 : Int) ≤ -1 from le_rfl, rfl, fun bank => ?_,
    List.nil_sublist _, rfl, ?_, ?_⟩
  · exact congrArg some (congrArg _ List.drop_nil)
  · exact iff_of_false (fun hne => hne rfl) (List.not_mem_nil)
  · exact h.length_bytes.ge
  · exact h.length_bytes.le

/-- `OPEN` makes a file or none. -/
theorem dirNexOpen_layout (env : NexEnv) (fname : Text) (given : Option ArgumentList) {s : NexState}
    (hf : s.nex.f = none) (hs : Sound s.nex) :
    Sound ((dirNexOpen env fname given).final s).nex ∧
      ((((dirNexOpen env fname given).final s).nex.f = none ∧
        ((dirNexOpen env fname given).final s).nex.canAppend = s.nex.canAppend) ∨
      ∃ h : SNexHeader,
        Represents ((dirNexOpen env fname given).final s).nex.bankFields (.ofFront h.bytes)) := by
  have hinit : Sound s.nex.init :=
    ⟨hs.palette, hs.copper, fun h => absurd (show (2 : Int) = 3 from h) (by decide)⟩
  have hnone : s.nex.init.f = none := hf
  unfold dirNexOpen
  rw [final_bind_of_some (exec_get s), if_neg (by simp [hf]),
    final_bind_of_some (exec_updateNex _ s)]
  dsimp only
  -- every refusal behind `init` leaves the fresh record with no file
  split
  · exact ⟨hinit, .inl ⟨hnone, rfl⟩⟩
  rename_i openArgs _
  unfold warning
  rw [final_bind_of_some exec_when_report, final_bind_of_some exec_report,
    final_bind_of_some exec_report]
  by_cases hbank : (openArgs 2).outside 0 111 = true
  · rw [if_pos hbank]
    exact ⟨hinit, .inl ⟨hnone, rfl⟩⟩
  rw [if_neg hbank]
  by_cases hversion : openArgs 3 ≠ 0 ∧ (openArgs 3).outside 2 3 = true
  · rw [if_pos hversion]
    exact ⟨hinit, .inl ⟨hnone, rfl⟩⟩
  rw [if_neg hversion]
  by_cases hcreate : ¬env.canCreate fname = true
  · rw [if_pos hcreate]
    exact ⟨hinit, .inl ⟨hnone, rfl⟩⟩
  rw [if_neg hcreate]
  obtain ⟨hsound, hlayout⟩ := @createFile_layout env openArgs
    (Program.final (report _) (Program.final (report _) (Program.final (report _)
      ((updateNex SNexFile.init).final s)))) rfl hinit
  exact ⟨hsound, .inr hlayout⟩

/-! ### `CLOSE` -/

/-- The bytes of the files that `CLOSE` appends. -/
def appendedBytes (env : NexEnv) (files : List InputFile) : List Byte :=
  files.flatMap fun file => if file.hasFilename then (env.readFile file.full).getD [] else []

theorem exec_appendFiles (env : NexEnv) (files : List InputFile) (s : NexState) :
    ∃ l, (appendFiles env files).exec s = (some (), { s with
      nex := { s.nex with f := s.nex.f.map (· ++ appendedBytes env files) }
      log := s.log ++ l }) := by
  -- by induction on the file names: an empty or an unreadable one appends nothing
  induction files generalizing s with
  | nil =>
    refine ⟨[], ?_⟩
    have hf : s.nex.f.map (· ++ []) = s.nex.f := by cases s.nex.f <;> simp
    rw [appendedBytes, List.flatMap_nil, hf, List.append_nil]
    rfl
  | cons file rest ih =>
    obtain ⟨l, hl⟩ : ∃ l, (when (file.hasFilename = true) (appendFile env file)).exec s
        = (some (), { s with
          nex := { s.nex with f := s.nex.f.map (· ++
            if file.hasFilename then (env.readFile file.full).getD [] else []) }
          log := s.log ++ l }) := by
      have hf : s.nex.f.map (· ++ []) = s.nex.f := by cases s.nex.f <;> simp
      unfold when
      by_cases hname : file.hasFilename = true
      · rw [if_pos hname, appendFile, if_pos hname]
        cases hread : env.readFile file.full with
        | none =>
          refine ⟨[.error "[SAVENEX] Error opening append file" (some file.str) .suppress], ?_⟩
          rw [Option.getD_none, hf]
          rfl
        | some content =>
          refine ⟨[], ?_⟩
          rw [List.append_nil]
          rfl
      · refine ⟨[], ?_⟩
        rw [if_neg hname, if_neg hname, hf, List.append_nil]
        rfl
    -- the rest appends behind what this file left
    obtain ⟨l', hl'⟩ := ih { s with
      nex := { s.nex with f := s.nex.f.map (· ++
        if file.hasFilename then (env.readFile file.full).getD [] else []) }
      log := s.log ++ l }
    refine ⟨l ++ l', ?_⟩
    rw [appendFiles, exec_bind_of_some hl, hl']
    dsimp only
    rw [Option.map_map, List.append_assoc, appendedBytes, appendedBytes, List.flatMap_cons]
    cases s.nex.f <;> simp

/-- A finished file is a layout behind the header, with the appended files at its end.  The offset of
the banks in its header is where its front ends. -/
structure Finished (file appended : List Byte) (l : NexLayout) : Prop where
  content : file.drop 0x200 = (l.file ++ appended).drop 0x200
  header : 0x200 ≤ l.front.length
  offset : NexFile.version file = SNexHeader.digit3 →
    (NexFile.banksOffset file).toNat = l.front.length

theorem finished_finalFile {n : SNexFile} {l : NexLayout} {appended : List Byte}
    (hmagic : n.h.magicAndVersion = SNexHeader.magicV12)
    (hf : (atFirstBank n).f = some (l.file ++ appended))
    (hoffset : (atFirstBank n).h.banksOffset = BitVec.ofNat 32 l.front.length)
    (hheader : 0x200 ≤ l.front.length) (hlength : l.front.length < 2 ^ 32) :
    Finished (finalFile n) appended l := by
  rw [finalFile, hf, Option.getD_some]
  refine ⟨List.drop_left' (SNexHeader.length_bytes _), hheader, fun hversion => ?_⟩
  rw [SNexHeader.version_bytes, finalHeader] at hversion
  rw [SNexHeader.banksOffset_bytes, finalHeader]
  by_cases h2 : (atFirstBank n).minFileVersion = 2
  · -- a file of version 1.2 keeps the version of `OPEN`
    rw [if_pos h2] at hversion
    dsimp only at hversion
    rw [atFirstBank_magicAndVersion, hmagic] at hversion
    exact absurd hversion (by decide)
  -- version 1.3: the header stores the length of the front, which fits 32 bits
  · rw [if_neg h2]
    have hkept : (BitVec.ofNat 32 l.front.length).toNat = l.front.length := by
      rw [BitVec.toNat_ofNat, Nat.mod_eq_of_lt hlength]
    rw [← hkept, ← hoffset]
    dsimp only
    split_ifs
    · rfl
    · rfl

/-- The versions stay, and the assembler goes on. -/
structure KeepsVersion (s t : NexState) : Prop where
  min : t.nex.minFileVersion = s.nex.minFileVersion
  req : t.nex.reqFileVersion = s.nex.reqFileVersion
  exited : t.exited = s.exited

instance : Std.Refl KeepsVersion where
  refl _ := ⟨rfl, rfl, rfl⟩

instance : IsTrans NexState KeepsVersion where
  trans _ _ _ h h' := ⟨h'.min.trans h.min, h'.req.trans h.req, h'.exited.trans h.exited⟩

/-- `finalizeFile` leaves the versions alone. -/
theorem keepsVersion_finalizeFile {env : NexEnv} : Keeps KeepsVersion (finalizeFile env) := by
  have hheader : ∀ {g}, Keeps KeepsVersion (updateHeader g) := fun _ => ⟨rfl, rfl, rfl⟩
  have hreport : ∀ {l}, Keeps KeepsVersion (report l) := fun _ => ⟨rfl, rfl, rfl⟩
  have herror : ∀ {message bad type}, Keeps KeepsVersion (error message bad type) :=
    .bind hreport fun _ => .when .exit
  -- each part of closing writes the header or the log, and no part the version asked for
  have hfirst : Keeps KeepsVersion updateIfAheadFirstBankSave := by
    refine .get_bind fun s => .ite (.pure _) (.bind (.when herror) fun _ => ?_)
    refine .bind (.when hreport) fun _ => .bind (.when fun _ => ⟨rfl, rfl, rfl⟩) fun _ => ?_
    exact .get_bind fun _ => hheader
  have hcrc : Keeps KeepsVersion (calculateCrc32C env) := by
    refine .get_bind fun s => ?_
    split
    · exact .pure _
    · refine .ite (.pure _) (.bind (fun _ => ⟨rfl, rfl, rfl⟩) fun _ => .ite hheader ?_)
      exact .bind hheader fun _ => herror
  have hversion : Keeps KeepsVersion (finalizeVersion env) :=
    .get_bind fun s => .ite hheader (.bind hheader fun _ => hcrc)
  have hwrite : Keeps KeepsVersion writeHeader := by
    intro s
    rw [writeHeader, updateNex, final, exec_modify]
    cases s.nex.f with
    | none => exact ⟨rfl, rfl, rfl⟩
    | some file => exact ⟨rfl, rfl, rfl⟩
  refine .get_bind fun s => .ite (.pure _) (.bind (.when herror) fun _ => .bind hfirst fun _ => ?_)
  refine .bind hversion fun _ => .bind hwrite fun _ => .bind (fun _ => ⟨rfl, rfl, rfl⟩) fun _ => ?_
  exact .get_bind fun _ => .when herror

/-- What `finalizeFile` does with an open file that has a layout. -/
theorem finalizeFile_layout (env : NexEnv) {s : NexState} {file : List Byte} (hs : Sound s.nex)
    (hf : s.nex.f = some file) (hlength : 0x200 ≤ file.length) (hahead : OffsetAhead s.nex) :
    Sound ((finalizeFile env).final s).nex ∧ ((finalizeFile env).final s).nex.f = none ∧
      ((finalizeFile env).final s).nex.canAppend = false ∧
      ((finalizeFile env).final s).closed = s.closed ++ [finalFile s.nex] := by
  obtain ⟨hclosed, hnone, hcan, hpalette, hcopper⟩ :=
    @final_finalizeFile_of_ahead env _ _ hf hlength hahead hs.version
  have hversion := @keepsVersion_finalizeFile env s
  refine ⟨⟨?_, ?_, ?_⟩, hnone, hcan, hclosed⟩
  · rw [hpalette]
    exact fun _ h => absurd h (Option.not_mem_none _)
  · rw [hcopper]
    exact fun _ h => absurd h (Option.not_mem_none _)
  · rw [hversion.min, hversion.req]
    exact hs.version

/-! ### Runs -/

def NexStep.env : NexStep → NexEnv
  | .command env _ => env
  | .exit env => env

def NexStep.storesBanks : NexStep → Bool
  | .command _ c => c.storesBanks
  | .exit _ => false

/-- The bytes behind the banks of a file that the step closes. -/
def NexStep.appended : NexStep → List Byte
  | .command env (.close files) => appendedBytes env files
  | _ => []

/-- The layout of the file that is open behind a run, or that its last step closed: what `OPEN`
wrote, and what each step appended.  Only `BANK`, `AUTO` and `SCREEN TILE` append banks, and besides
them less than a bank. -/
inductive NexSession : List NexStep → NexLayout → Prop
  | opened (steps : List NexStep) (env : NexEnv) (fname : Text) (given : Option ArgumentList)
      (h : SNexHeader) :
      NexSession (steps ++ [.command env (.openFile fname given)]) (.ofFront h.bytes)
  | step {steps : List NexStep} {step : NexStep} {data : List Byte} {new : List (Fin 112)}
      {l l' : NexLayout} (h : NexSession steps l) (happends : Appends step.env data new l l')
      (hother : step.storesBanks = false → new = [])
      (hlength : step.storesBanks = true → data.length < 0x4000) :
      NexSession (steps ++ [step]) l'

/-- What holds of `nex` behind a run. -/
structure KeptNex (steps : List NexStep) (n : SNexFile) : Prop where
  sound : Sound n
  isOpen : n.canAppend = n.f.isSome
  layout : n.f.isSome = true → ∃ l, NexSession steps l ∧ Represents n.bankFields l

theorem KeptNex.of_closed {steps : List NexStep} {n : SNexFile} (hs : Sound n) (hf : n.f = none)
    (hcan : n.canAppend = false) : KeptNex steps n where
  sound := hs
  isOpen := by rw [hcan, hf]; rfl
  layout h := by rw [hf] at h; exact Bool.noConfusion h

/-- The file that is closed is a layout of the run. -/
def Closes (steps : List NexStep) (step : NexStep) (file : List Byte) : Prop :=
  ∃ l, NexSession (steps ++ [step]) l ∧ Finished file step.appended l

/-- `finalizeFile` at the end of the assembler.  The state behind a command that ended it has a layout
that this command may have extended. -/
theorem finalizeFile_exit (env : NexEnv) {steps : List NexStep} {step : NexStep} {t : NexState}
    (happended : step.appended = []) (hs : Sound t.nex) (hopen : t.nex.canAppend = t.nex.f.isSome)
    (hlayout : t.nex.f.isSome = true → ∃ l l' data new, NexSession steps l ∧
      ExtendedLayout step.env step.storesBanks t l l' data new) :
    Sound ((finalizeFile env).final t).nex ∧ ((finalizeFile env).final t).nex.f = none ∧
      ((finalizeFile env).final t).nex.canAppend = false ∧
      ∀ file, ((finalizeFile env).final t).closed = t.closed ++ [file] → Closes steps step file := by
  -- without a file nothing is closed
  cases hf : t.nex.f with
  | none =>
    rw [NexState.finalizeFile_of_closed hf]
    refine ⟨hs, hf, by rw [hopen, hf]; rfl, fun file hclosed => ?_⟩
    exact (NexState.not_closes hclosed).elim
  | some disk =>
    obtain ⟨l, l', data, new, hsession, hextended⟩ := hlayout (by rw [hf]; rfl)
    have hl' := hextended.represents
    have hdisk : l'.file = disk := Option.some.inj (hl'.file.symm.trans hf)
    have hlength : 0x200 ≤ disk.length := by
      rw [← hdisk, NexLayout.file, List.length_append]
      exact hl'.header.trans (Nat.le_add_right _ _)
    obtain ⟨hsound, hnone, hcan, hclosed⟩ :=
      finalizeFile_layout env hs hf hlength hl'.offsetAhead
    refine ⟨hsound, hnone, hcan, fun file hfile => ?_⟩
    obtain rfl : finalFile t.nex = file :=
      List.singleton_inj.mp (List.append_cancel_left (hclosed.symm.trans hfile))
    -- closing writes the copper that is still outstanding, and then the final header
    obtain ⟨l'', copper, happends, hcopper, hfinal, hoffset, -, hheader, hfront⟩ :=
      hl'.closing hs step.env
    refine ⟨l'', .step hsession (hextended.appends.trans happends) ?_ ?_, ?_⟩
    -- the banks that the interrupted command stored are part of the layout
    · intro hother
      rw [hextended.other hother, List.append_nil]
    -- palette and copper together stay below the bound for the front of one step
    · intro hstores
      have hdata := hextended.length hstores
      rw [SNexHeader.palSize, SNexHeader.copperSize] at hdata
      rw [SNexHeader.copperSize] at hcopper
      rw [List.length_append]
      omega
    · rw [happended]
      exact finished_finalFile hl'.magic (by rw [hfinal, List.append_nil]) hoffset hheader hfront

/-- The file that `CLOSE` closes. -/
theorem dirNexClose_layout (env : NexEnv) (files : List InputFile) {s : NexState} {l : NexLayout}
    (hs : Sound s.nex) (hl : Represents s.nex.bankFields l) :
    Sound ((dirNexClose env files).final s).nex ∧ ((dirNexClose env files).final s).nex.f = none ∧
      ((dirNexClose env files).final s).nex.canAppend = false ∧
      ∃ (file : List Byte) (l' : NexLayout) (data : List Byte),
        ((dirNexClose env files).final s).closed = s.closed ++ [file] ∧
        Appends env data [] l l' ∧ Finished file (appendedBytes env files) l' := by
  obtain ⟨log, hlog⟩ := exec_updateIfAheadFirstBankSave_of_ahead hl.offsetAhead
  obtain ⟨l', copper, happends, -, hfinal, hoffset, hne, hheader, hfront⟩ := hl.closing hs env
  obtain ⟨log', hlog'⟩ := exec_appendFiles env files
    { s with nex := atFirstBank s.nex, log := s.log ++ log }
  have hcan : s.nex.canAppend = true := hl.canAppend
  have hfile : (atFirstBank s.nex).f.map (· ++ appendedBytes env files)
      = some (l'.file ++ appendedBytes env files) := by rw [hfinal]; rfl
  -- the state that `finalizeFile` gets
  generalize hu : ({ s with
    nex := { atFirstBank s.nex with
      f := (atFirstBank s.nex).f.map (· ++ appendedBytes env files) }
    log := s.log ++ log ++ log' } : NexState) = u at hlog'
  have hclose : (dirNexClose env files).final s = (finalizeFile env).final u := by
    unfold dirNexClose prepareClose
    rw [final_bind_of_some (exec_get s), if_neg (not_not_intro hcan),
      final_bind_of_some ((exec_bind_of_some hlog).trans hlog')]
  have huf : u.nex.f = some (l'.file ++ appendedBytes env files) := by rw [← hu]; exact hfile
  have huoffset : u.nex.h.banksOffset ≠ 0 := by rw [← hu]; exact hne
  have hsame := atFirstBank_of_offset huoffset
  have hsu : Sound u.nex := by
    have hsound := sound_atFirstBank hs
    rw [← hu]
    exact ⟨hsound.palette, hsound.copper, hsound.version⟩
  have hlength : 0x200 ≤ (l'.file ++ appendedBytes env files).length := by
    rw [NexLayout.file, List.length_append, List.length_append]
    omega
  obtain ⟨hsound, hnone, hcan', hclosed⟩ :=
    finalizeFile_layout env hsu huf hlength (.inl huoffset)
  rw [hclose]
  refine ⟨hsound, hnone, hcan', finalFile u.nex, l', copper, ?_, happends, ?_⟩
  · rw [hclosed, ← hu]
  · refine finished_finalFile ?_ (by rw [hsame, huf]) ?_ hheader hfront
    · rw [← hu]
      exact (atFirstBank_magicAndVersion s.nex).trans hl.magic
    · rw [hsame, ← hu]
      exact hoffset

/-- A step that has nothing to do with banks. -/
theorem KeptNex.keepsFields {steps : List NexStep} {s t : NexState} (h : KeptNex steps s.nex)
    (hkeeps : KeepsFields s t) (step : NexStep) : KeptNex (steps ++ [step]) t.nex := by
  obtain ⟨ht, hfields⟩ := hkeeps h.sound
  have hf : t.nex.f = s.nex.f := congrArg BankFields.f hfields
  have hcan : t.nex.canAppend = s.nex.canAppend := congrArg BankFields.canAppend hfields
  refine ⟨ht, ?_, fun hopen => ?_⟩
  · rw [hcan, hf]
    exact h.isOpen
  · rw [hf] at hopen
    obtain ⟨l, hsession, hl⟩ := h.layout hopen
    exact ⟨l, .step hsession (.refl step.env l) (fun _ => rfl) fun _ => by decide, hfields ▸ hl⟩

/-- `OPEN` starts a layout, or leaves the one that is there. -/
theorem KeptNex.openFile {steps : List NexStep} {s : NexState} (h : KeptNex steps s.nex)
    (env : NexEnv) (fname : Text) (given : Option ArgumentList) :
    KeptNex (steps ++ [.command env (.openFile fname given)])
      ((dirSAVENEX env (.openFile fname given)).final s).nex := by
  unfold dirSAVENEX
  by_cases hpass : env.pass ≠ lastPass
  · rw [if_pos hpass]
    exact h.keepsFields (refl s) _
  rw [if_neg hpass]
  by_cases hdevice : env.deviceID ≠ some "ZXSPECTRUMNEXT"
  · rw [if_pos hdevice]
    exact h.keepsFields (keepsFields_error s) _
  rw [if_neg hdevice]
  dsimp only
  -- an open file refuses a second `OPEN`; without one a layout is started
  cases hf : s.nex.f with
  | some file =>
    unfold dirNexOpen
    rw [final_bind_of_some (exec_get s), if_pos (by rw [hf]; rfl)]
    exact h.keepsFields (keepsFields_error s) _
  | none =>
    obtain ⟨hsound, ⟨hnone, hcan⟩ | ⟨header, hheader⟩⟩ := dirNexOpen_layout env fname given hf h.sound
    · refine .of_closed hsound hnone (hcan.trans ?_)
      rw [h.isOpen, hf]
      rfl
    · refine ⟨hsound, ?_, fun _ => ⟨_, .opened steps env fname given header, hheader⟩⟩
      exact hheader.canAppend.trans (congrArg Option.isSome hheader.file).symm

/-- `OPEN` never ends the assembler. -/
theorem returns_openFile (env : NexEnv) (fname : Text) (given : Option ArgumentList) :
    Returns (dirSAVENEX env (.openFile fname given)) := by
  have hreport : ∀ {l}, Returns (report l) := fun _ => ⟨(), rfl⟩
  have herror : ∀ {message bad}, Returns (error message bad .suppress) := fun _ => ⟨(), rfl⟩
  have hupdate : ∀ {g}, Returns (updateNex g) := fun _ => ⟨(), rfl⟩
  have hstack : Returns (checkStackPointer env) :=
    .get_bind fun _ => .ite hreport (.ite (.pure _) hreport)
  refine .ite (.pure _) (.ite herror (.get_bind fun s => .ite herror (.bind hupdate fun _ => ?_)))
  dsimp only
  split
  · exact herror
  · refine .bind (.ite hreport (.pure _)) fun _ => .bind hreport fun _ => .bind hreport fun _ => ?_
    refine .ite hreport (.ite hreport (.ite herror ?_))
    exact .bind hupdate fun _ => .bind hupdate fun _ => .bind hupdate fun _ => hstack

/-- What holds of the state behind a run. -/
structure Kept (steps : List NexStep) (s : NexState) : Prop where
  nex : KeptNex steps s.nex
  ended : s.exited = true → s.nex.f = none

/-- A step keeps the layout, and closes it when it closes a file. -/
def KeepsLayout (steps : List NexStep) (s : NexState) (step : NexStep) (t : NexState) : Prop :=
  Kept (steps ++ [step]) t ∧ ∀ file, t.closed = s.closed ++ [file] → Closes steps step file

/-- The layout behind a command that neither opens nor closes a file. -/
theorem layout_dirSAVENEX {steps : List NexStep} {s : NexState} (h : KeptNex steps s.nex)
    (env : NexEnv) {command : NexCommand} (hopen : ∀ fname given, command ≠ .openFile fname given)
    (hclose : ∀ files, command ≠ .close files) :
    let t := (dirSAVENEX env command).final s
    Sound t.nex ∧ t.nex.canAppend = t.nex.f.isSome ∧
      (t.nex.f.isSome = true → ∃ l l' data new, NexSession steps l ∧
        ExtendedLayout env command.storesBanks t l l' data new) := by
  cases hf : s.nex.f with
  -- without a file the command changes no field, and there is no layout to keep
  | none =>
    have hcan : s.nex.canAppend = false := by rw [h.isOpen, hf]; rfl
    obtain ⟨ht, hfields⟩ := keepsFields_of_closed env hopen hcan h.sound
    have hf' := (congrArg BankFields.f hfields).trans hf
    have hcan' := (congrArg BankFields.canAppend hfields).trans hcan
    refine ⟨ht, hcan'.trans (congrArg Option.isSome hf').symm, fun hsome => ?_⟩
    exact absurd ((congrArg Option.isSome hf').symm.trans hsome) (by decide)
  | some file =>
    have happends : command.appends = true := by
      cases command with
      | openFile fname given => exact absurd rfl (hopen fname given)
      | close files => exact absurd rfl (hclose files)
      | _ => rfl
    obtain ⟨l, hsession, hl⟩ := h.layout (by rw [hf]; rfl)
    obtain ⟨ht, l', data, new, hextended⟩ := extends_dirSAVENEX env happends s l h.sound hl
    have hl' := hextended.represents
    refine ⟨ht, ?_, fun _ => ⟨l, l', data, new, hsession, hextended⟩⟩
    exact hl'.canAppend.trans (congrArg Option.isSome hl'.file).symm

theorem exited_dirSAVENEX (env : NexEnv) (command : NexCommand) (s : NexState) :
    ((dirSAVENEX env command).final s).exited = s.exited := by
  have : Std.Refl fun s t : NexState => t.exited = s.exited := ⟨fun _ => rfl⟩
  have : IsTrans NexState fun s t => t.exited = s.exited := ⟨fun _ _ _ h h' => h'.trans h⟩
  refine keeps_dirSAVENEX (R := fun s t => t.exited = s.exited) (fun _ _ h => h.exited)
    (fun _ _ _ s => (keepsClosed_dirNexOpen s).exited) (fun _ _ => ?_) s
  exact .get_bind fun _ => .ite (fun s => (grows_error s).exited)
    (.bind (fun s => (grows_prepareClose s).exited) fun _ s => (keepsVersion_finalizeFile s).exited)

/-- The end of the assembler. -/
theorem keepsLayout_exit {steps : List NexStep} {s : NexState} {step : NexStep} (env : NexEnv)
    {t : NexState} (happended : step.appended = []) (hclosed : t.closed = s.closed)
    (hs : Sound t.nex) (hopen : t.nex.canAppend = t.nex.f.isSome)
    (hlayout : t.nex.f.isSome = true → ∃ l l' data new, NexSession steps l ∧
      ExtendedLayout step.env step.storesBanks t l l' data new) :
    KeepsLayout steps s step (t.exit env) := by
  obtain ⟨hsound, hnone, hcan, hcloses⟩ := finalizeFile_exit env happended hs hopen hlayout
  refine ⟨⟨.of_closed hsound hnone hcan, fun _ => hnone⟩, fun file hfile => hcloses file ?_⟩
  rw [hclosed]
  exact hfile

/-- A command that neither opens nor closes a file; a fatal error ends the assembler. -/
theorem keepsLayout_command {steps : List NexStep} {s : NexState} (h : Kept steps s)
    (hexited : ¬s.exited = true) (env : NexEnv) {command : NexCommand}
    (hopen : ∀ fname given, command ≠ .openFile fname given)
    (hclose : ∀ files, command ≠ .close files) :
    KeepsLayout steps s (.command env command) (s.step (.command env command)) := by
  obtain ⟨hsound, hisOpen, hlayout⟩ := layout_dirSAVENEX h.nex env hopen hclose
  have hclosed := @NexState.closed_dirSAVENEX env command s hclose
  have hrunning := exited_dirSAVENEX env command s
  unfold NexState.step
  rw [if_neg hexited]
  unfold final at hsound hisOpen hlayout hclosed hrunning
  dsimp only
  -- a fatal error exits through `finalizeFile`; otherwise the run goes on with the layout
  rcases hexec : (dirSAVENEX env command).exec s with ⟨_ | _, t⟩ <;>
    rw [hexec] at hsound hisOpen hlayout hclosed hrunning
  · refine keepsLayout_exit env ?_ hclosed hsound hisOpen hlayout
    cases command with
    | close files => exact absurd rfl (hclose files)
    | _ => rfl
  · refine ⟨⟨⟨hsound, hisOpen, fun hsome => ?_⟩, fun hended => ?_⟩, fun file hfile => ?_⟩
    · obtain ⟨l, l', data, new, hsession, hextended⟩ := hlayout hsome
      refine ⟨l', .step hsession hextended.appends hextended.other fun hstores => ?_,
        hextended.represents⟩
      exact (hextended.length hstores).trans_lt (by decide)
    · exact absurd (hrunning.symm.trans hended) hexited
    · rw [← hclosed] at hfile
      exact (NexState.not_closes hfile).elim

theorem keepsLayout_openFile {steps : List NexStep} {s : NexState} (h : Kept steps s)
    (hexited : ¬s.exited = true) (env : NexEnv) (fname : Text) (given : Option ArgumentList) :
    KeepsLayout steps s (.command env (.openFile fname given))
      (s.step (.command env (.openFile fname given))) := by
  obtain ⟨_, hexec⟩ := returns_openFile env fname given s
  have hclosed := @NexState.closed_dirSAVENEX env (.openFile fname given) s
    fun files hfiles => NexCommand.noConfusion hfiles
  have hrunning := exited_dirSAVENEX env (.openFile fname given) s
  unfold NexState.step
  rw [if_neg hexited]
  dsimp only
  rw [hexec]
  refine ⟨⟨h.nex.openFile env fname given, fun hended => ?_⟩, fun file hfile => ?_⟩
  · exact absurd (hrunning.symm.trans hended) hexited
  · rw [← hclosed] at hfile
    exact (NexState.not_closes hfile).elim

theorem keepsLayout_close {steps : List NexStep} {s : NexState} (h : Kept steps s)
    (hexited : ¬s.exited = true) (env : NexEnv) (files : List InputFile) :
    KeepsLayout steps s (.command env (.close files)) (s.step (.command env (.close files))) := by
  -- a refused command returns, and only reports an error
  have hrefused : ∀ {t : NexState}, (dirSAVENEX env (.close files)).exec s = (some (), t) →
      KeepsFields s t → t.closed = s.closed → t.exited = s.exited →
      KeepsLayout steps s (.command env (.close files)) (s.step (.command env (.close files))) := by
    intro t hexec hkeeps hclosed hrunning
    unfold NexState.step
    rw [if_neg hexited]
    dsimp only
    rw [hexec]
    refine ⟨⟨h.nex.keepsFields hkeeps _, fun hended => ?_⟩, fun file hfile => ?_⟩
    · exact absurd (hrunning.symm.trans hended) hexited
    · rw [← hclosed] at hfile
      exact (NexState.not_closes hfile).elim
  by_cases hpass : env.pass ≠ lastPass
  · refine hrefused (t := s) ?_ (refl s) rfl rfl
    unfold dirSAVENEX
    rw [if_pos hpass]
    rfl
  by_cases hdevice : env.deviceID ≠ some "ZXSPECTRUMNEXT"
  · refine hrefused (t := (error "[SAVENEX] is allowed only in ZXSPECTRUMNEXT device mode" none
      .suppress).final s) ?_ (keepsFields_error s) rfl rfl
    unfold dirSAVENEX
    rw [if_neg hpass, if_pos hdevice]
    rfl
  by_cases hcan : ¬s.nex.canAppend = true
  · refine hrefused (t := notOpen.final s) ?_ (keepsFields_error s) rfl rfl
    unfold dirSAVENEX
    rw [if_neg hpass, if_neg hdevice]
    dsimp only
    unfold dirNexClose
    rw [exec_bind_of_some (exec_get s), if_pos hcan]
    rfl
  have hcommand : dirSAVENEX env (.close files) = dirNexClose env files := by
    unfold dirSAVENEX
    rw [if_neg hpass, if_neg hdevice]
  obtain ⟨l, hsession, hl⟩ := h.nex.layout (h.nex.isOpen.symm.trans (not_not.mp hcan))
  obtain ⟨hsound, hnone, hcan', file, l', data, hclosed, happends, hfinished⟩ :=
    dirNexClose_layout env files h.nex.sound hl
  have hrunning := exited_dirSAVENEX env (.close files) s
  rw [hcommand] at hrunning
  have hcloses : ∀ {u : NexState}, u.closed = s.closed ++ [file] → ∀ file',
      u.closed = s.closed ++ [file'] → Closes steps (.command env (.close files)) file' := by
    intro u hu file' hfile'
    obtain rfl : file = file' :=
      List.singleton_inj.mp (List.append_cancel_left (hu.symm.trans hfile'))
    exact ⟨l', .step hsession happends (fun _ => rfl) (fun h => Bool.noConfusion h), hfinished⟩
  unfold NexState.step
  rw [if_neg hexited]
  dsimp only
  rw [hcommand]
  unfold final at hsound hnone hcan' hclosed hrunning
  rcases hexec : (dirNexClose env files).exec s with ⟨_ | _, t⟩ <;>
    rw [hexec] at hsound hnone hcan' hclosed hrunning
  · -- the file is closed already when the assembler ends
    have hsame : (finalizeFile env).final t = t := NexState.finalizeFile_of_closed hnone
    have hexit : t.exit env = { t with exited := true } := by rw [NexState.exit, hsame]
    show KeepsLayout _ _ _ (t.exit env)
    rw [hexit]
    exact ⟨⟨.of_closed hsound hnone hcan', fun _ => hnone⟩, hcloses hclosed⟩
  · exact ⟨⟨.of_closed hsound hnone hcan', fun _ => hnone⟩, hcloses hclosed⟩

/-- Every step keeps the layout. -/
theorem keepsLayout_step {steps : List NexStep} {s : NexState} (h : Kept steps s) (step : NexStep) :
    KeepsLayout steps s step (s.step step) := by
  -- after the exit every step is the identity, and the file is gone
  by_cases hexited : s.exited = true
  · have hf := h.ended hexited
    have hcan : s.nex.canAppend = false := by rw [h.nex.isOpen, hf]; rfl
    have hstep : s.step step = s := by
      unfold NexState.step
      rw [if_pos hexited]
    rw [hstep]
    exact ⟨⟨.of_closed h.nex.sound hf hcan, fun _ => hf⟩,
      fun file hfile => (NexState.not_closes hfile).elim⟩
  -- the exit, and the commands: those that open, those that close, and the rest
  cases step with
  | exit env =>
    have hstep : s.step (.exit env) = s.exit env := by
      unfold NexState.step
      rw [if_neg hexited]
    rw [hstep]
    refine keepsLayout_exit env rfl rfl h.nex.sound h.nex.isOpen fun hsome => ?_
    obtain ⟨l, hsession, hl⟩ := h.nex.layout hsome
    exact ⟨l, l, [], [], hsession, hl, .refl env l, fun _ => rfl, fun _ => Nat.zero_le _⟩
  | command env command =>
    by_cases hopen : ∃ fname given, command = .openFile fname given
    · obtain ⟨fname, given, rfl⟩ := hopen
      exact keepsLayout_openFile h hexited env fname given
    by_cases hclose : ∃ files, command = .close files
    · obtain ⟨files, rfl⟩ := hclose
      exact keepsLayout_close h hexited env files
    exact keepsLayout_command h hexited env (fun fname given h => hopen ⟨fname, given, h⟩)
      fun files h => hclose ⟨files, h⟩

theorem kept_run (steps : List NexStep) : Kept steps (NexState.run steps) := by
  induction steps using List.reverseRecOn with
  | nil =>
    refine ⟨.of_closed ⟨?_, ?_, ?_⟩ rfl rfl, fun _ => rfl⟩
    · exact fun _ h => absurd h (Option.not_mem_none _)
    · exact fun _ h => absurd h (Option.not_mem_none _)
    · exact fun h => absurd (show (2 : Int) = 3 from h) (by decide)
  | append_singleton steps step ih =>
    rw [NexState.run_append]
    exact (keepsLayout_step ih step).1

/-- The fields of `nex` describe the file that is open: the number of banks is the number of entries
and of blocks, the blocks are at the end, and the offset is where they start. -/
structure Bookkept (n : SNexFile) (l : NexLayout) : Prop where
  file : n.f = some l.file
  numBanks : n.h.numBanks.toNat = l.stored.length
  entries : (Finset.univ.filter fun bank => n.h.banks bank ≠ 0).card = l.stored.length
  banks : ∀ bank, n.h.banks bank ≠ 0 ↔ bank ∈ l.banks
  offset : l.stored ≠ [] → n.h.banksOffset.toNat = l.front.length

theorem Represents.bookkept {n : SNexFile} {l : NexLayout} (h : Represents n.bankFields l) :
    Bookkept n l := by
  refine ⟨h.file, h.count.1, h.count.2, h.banks, fun hstored => ?_⟩
  have hlast : ¬n.bankFields.lastBankIndex = -1 := fun hlast => hstored (h.stored_eq_nil hlast)
  have hoffset : n.h.banksOffset = BitVec.ofNat 32 l.front.length := h.offset.trans (if_neg hlast)
  rw [hoffset, BitVec.toNat_ofNat, Nat.mod_eq_of_lt h.front_lt]

end Nex

/-- Behind every run of commands, failed ones included, an open file is the layout that the commands
made, and the header describes it; a file that the next step closes is such a layout, with the offset
of its banks in the header of version 1.3. -/
theorem banks_bookkept (steps : List NexStep) (step : NexStep) :
    (∀ file, (NexState.run steps).nex.f = some file →
      ∃ l, NexSession steps l ∧ Bookkept (NexState.run steps).nex l) ∧
    ∀ file, (NexState.run (steps ++ [step])).closed = (NexState.run steps).closed ++ [file] →
      ∃ l, NexSession (steps ++ [step]) l ∧ Finished file step.appended l := by
  constructor
  · intro file hf
    obtain ⟨l, hsession, hl⟩ := (kept_run steps).nex.layout (by rw [hf]; rfl)
    exact ⟨l, hsession, hl.bookkept⟩
  · intro file hclosed
    rw [NexState.run_append] at hclosed
    exact (keepsLayout_step (kept_run steps) step).2 file hclosed

/-- A device with bytes in its memory, and a file to append. -/
def exampleBankEnv : NexEnv :=
  { exampleNexEnv with
    memory := fun offset => BitVec.ofInt 8 (offset / 0x4000 + 1)
    readFile := fun _ => some [1, 2, 3] }

/-- `BANK 5, 2` behind `OPEN "a.nex"` and `CFG3 1`, and `BANK 5` once more, which comes too late. -/
def exampleBankSteps : List NexStep :=
  exampleNexSteps ++ [.command exampleBankEnv (.bank [([], some 5), ([], some 2)]),
    .command exampleBankEnv (.bank [([], some 5)])]

/-- `CLOSE "b.bin"`. -/
def exampleBankClose : NexStep :=
  .command exampleBankEnv (.close [⟨"b.bin".toList, "b.bin".toList⟩])

/-- The file that is closed. -/
def exampleBankFile : List Byte :=
  (NexState.run (exampleBankSteps ++ [exampleBankClose])).closed.headD []

/-- Two banks are stored, and the bytes of another file are behind them. -/
theorem banks_bookkept_exampleBankSteps :
    (NexState.run exampleBankSteps).nex.h.numBanks = 2 ∧
      (∃ l, NexSession exampleBankSteps l ∧ Bookkept (NexState.run exampleBankSteps).nex l) ∧
      ∃ l, NexSession (exampleBankSteps ++ [exampleBankClose]) l ∧
        Finished exampleBankFile [1, 2, 3] l := by
  have hopen : (NexState.run exampleBankSteps).nex.f.isSome = true := by decide +kernel
  obtain ⟨file, hf⟩ := Option.isSome_iff_exists.mp hopen
  have hclosed : (NexState.run (exampleBankSteps ++ [exampleBankClose])).closed
      = (NexState.run exampleBankSteps).closed ++ [exampleBankFile] :=
    closed_eq_of_length (by decide +kernel) (by decide +kernel)
  exact ⟨by decide +kernel, (banks_bookkept exampleBankSteps exampleBankClose).1 file hf,
    (banks_bookkept exampleBankSteps exampleBankClose).2 exampleBankFile hclosed⟩

end Sjasmplus
