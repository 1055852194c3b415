import Sjasmplus.ReadLine

/-!
# Included files (`OpenFile` and `IncludeFile` of `sjio.cpp`)

`INCLUDE` reads another file in the middle of a line of the including one.  `includeFile` saves the reader
of the including file and puts it back behind the included one; the block that is in the buffer is saved
as a C string.  A `Script` is what the assembler does while it processes a file: it asks for lines, and it
includes files, which it processes by a script of their own.

* `transparent_iff` — in a run over any sources, every `INCLUDE` leaves the reader as it was, and the
  internal error is not reported, exactly when no block comment is open at an `INCLUDE`, nor where an
  included file ends.
-/

namespace Sjasmplus

open Program

/-! ### C strings -/

/-- `STRDUP`. -/
def strdup (s : Text) : Text := s.takeWhile (· ≠ '\x00')

/-- `STRCPY`: the string with its terminating zero, in front of what the buffer holds behind it. -/
def strcpy (destination source : Text) : Text :=
  source ++ '\x00' :: destination.drop (source.length + 1)

/-- A part of a buffer that lies in front of the first zero is there again when the buffer is saved as a
string and copied back. -/
theorem strcpy_strdup {before ahead behind overwritten : Text} (hbefore : '\x00' ∉ before)
    (hahead : '\x00' ∉ ahead) :
    ((strcpy overwritten (strdup (before ++ ahead ++ behind))).drop before.length).take ahead.length
      = ahead := by
  have hne : ∀ {t : Text}, '\x00' ∉ t → ∀ c ∈ t, (c ≠ '\x00' : Bool) = true := by
    intro t ht c hc
    exact decide_eq_true fun h => ht (h ▸ hc)
  have hsaved : strdup (before ++ ahead ++ behind) = before ++ (ahead ++ strdup behind) := by
    rw [strdup, List.append_assoc, List.takeWhile_append_of_pos (hne hbefore),
      List.takeWhile_append_of_pos (hne hahead), strdup]
  rw [hsaved, strcpy, List.append_assoc, List.drop_left, List.append_assoc, List.take_left]

/-! ### Including a file -/

/-- An `INCLUDE`: the file that is named, in blocks if it can be opened, and the contents of `rlbuf`, in
front of `rlpbuf`, from `rlpbuf_end` on, and behind the included file. -/
structure IncludeSite where
  nfilename : Text
  file : Option (List Text)
  before : Text
  behind : Text
  overwritten : Text

/-- The error of `IncludeFile` that should not happen. -/
def internalError : Event := .error "Internal error 'block comment'" none .fatal

/-- `Error`. -/
def reportEvent (e : Event) : ReadProgram Unit := modify fun s => { s with log := s.log ++ [e] }

/-- The reader at the start of a file. -/
def ReadState.opening (s : ReadState) (blocks : List Text) : ReadState :=
  { s with
    rlpbuf := []
    blocks := blocks
    opened := false
    scan := { s.scan with pos := ⟨0, 0, 0⟩, blockComment := 0, colonSubline := false } }

/-- The reader with a position on top of the stack. -/
def ReadState.atPos (s : ReadState) (pos : TextFilePos) : ReadState :=
  { s with scan := { s.scan with pos := pos } }

/-- `OpenFile`, in a file of level `includeLevel`; `body` stands for the call of `ReadBufLine`, which
processes the lines. -/
def openSource (includeLevel : Nat) (site : IncludeSite) (body : ReadProgram Unit) :
    ReadProgram Unit :=
  if 20 < includeLevel + 1 then reportEvent (.error "Over 20 files nested" none .all)
  else
    match site.file with
    | none => reportEvent (.error "opening file" (some site.nfilename) .all)
    | some blocks => do
      let pos ← asks fun s => s.scan.pos
      modify fun s => s.opening blocks
      body
      modify fun s => s.atPos pos

/-- What `IncludeFile` puts back: the variables of the reader, and the block in the buffer. -/
def restoreReader (site : IncludeSite) (s t : ReadState) : ReadState :=
  let rlbuf := site.before ++ s.rlpbuf ++ site.behind
  let pbuf := site.before.length
  let pbufEnd := pbuf + s.rlpbuf.length
  { t with
    rlpbuf := ((strcpy site.overwritten (strdup rlbuf)).drop pbuf).take (pbufEnd - pbuf)
    blocks := s.blocks
    opened := s.opened
    scan := { t.scan with colonSubline := s.scan.colonSubline } }

/-- `IncludeFile`.  The blocks of a file stand for `FP_Input`, and for `stdin_log` with
`stdin_read_it`. -/
def IncludeSite.includeFile (site : IncludeSite) (includeLevel : Nat) (body : ReadProgram Unit) :
    ReadProgram Unit := do
  let s ← get
  if s.scan.blockComment ≠ 0 then do
    reportEvent internalError
    exit
  else do
    openSource includeLevel site body
    modify (restoreReader site s)

/-- What the assembler does with a file: it reads lines, split at colons or not, and includes files. -/
inductive Script
  | stop
  | read (splitByColon : Bool) (next : Script)
  | file (site : IncludeSite) (inner next : Script)

/-- The processing of a file of level `includeLevel`. -/
def Script.run : Script → Nat → ReadProgram Unit
  | .stop, _ => pure ()
  | .read splitByColon next, includeLevel => do
    let _ ← readBufLine splitByColon
    next.run includeLevel
  | .file site inner next, includeLevel => do
    site.includeFile includeLevel (inner.run (includeLevel + 1))
    next.run includeLevel

/-! ### Sources without zeros -/

/-- The text of a block and the blocks behind it have no zeros. -/
structure NulFreeAhead (rlpbuf : Text) (blocks : List Text) : Prop where
  rlpbuf : '\x00' ∉ rlpbuf
  blocks : ∀ block ∈ blocks, '\x00' ∉ block

/-- What is left of the source has no zeros. -/
abbrev ReadState.NulFree (s : ReadState) : Prop := NulFreeAhead s.rlpbuf s.blocks

/-- The sources of a script have no zeros. -/
def Script.NulFree : Script → Prop
  | .stop => True
  | .read _ next => next.NulFree
  | .file site inner next =>
    '\x00' ∉ site.before ∧ (∀ blocks, site.file = some blocks → ∀ block ∈ blocks, '\x00' ∉ block) ∧
      inner.NulFree ∧ next.NulFree

/-- Reading keeps the source free of zeros, and adds to the errors. -/
structure ReadsOn (s t : ReadState) : Prop where
  nulFree : s.NulFree → t.NulFree
  log : s.log <+: t.log

instance : Std.Refl ReadsOn := ⟨fun s => ⟨id, List.prefix_refl s.log⟩⟩

instance : IsTrans ReadState ReadsOn :=
  ⟨fun _ _ _ hst htu => ⟨htu.nulFree ∘ hst.nulFree, hst.log.trans htu.log⟩⟩

/-- What is behind a marker is a part of the block. -/
theorem mem_of_detectMarker {markers : List (String × Text)} {block behind : Text}
    (h : detectMarker markers block = .ok behind) {c : Char} (hc : c ∈ behind) : c ∈ block := by
  induction markers generalizing block with
  | nil =>
    obtain rfl : block = behind := by
      injection h
    exact hc
  | cons marker markers ih =>
    obtain ⟨name, marker⟩ := marker
    rw [detectMarker] at h
    split_ifs at h
    · exact List.mem_of_mem_drop (ih h)
    · exact ih h

/-- A part of the next block replaces the text of the current one. -/
theorem NulFreeAhead.next {rlpbuf block rlpbuf' : Text} {blocks : List Text}
    (h : NulFreeAhead rlpbuf (block :: blocks)) (hsub : ∀ c ∈ rlpbuf', c ∈ block) :
    NulFreeAhead rlpbuf' blocks where
  rlpbuf hc := h.blocks block List.mem_cons_self (hsub _ hc)
  blocks b hb := h.blocks b (List.mem_cons_of_mem _ hb)

theorem reads_readBufData : Keeps ReadsOn readBufData := by
  intro s
  obtain ⟨rlpbuf, blocks, opened, lateMarker, scan, lines, log⟩ := s
  rw [final, exec_readBufData]
  dsimp only
  -- the branches of the source: no room in the line, a buffer not read yet, the next block
  by_cases hlong : lineMax - 2 ≤ scan.line.length
  · rw [if_pos hlong]
    exact ⟨id, List.prefix_append _ _⟩
  · rw [if_neg hlong]
    by_cases hbuf : rlpbuf ≠ []
    · rw [if_pos hbuf]
      exact refl _
    · rw [if_neg hbuf]
      cases blocks with
      | nil => exact ⟨id, List.prefix_refl _⟩
      | cons block blocks =>
        dsimp only
        -- a marker is looked for as long as no line was counted, and is taken out of the block
        by_cases hline : scan.pos.line ≠ 0
        · rw [if_pos hline]
          exact ⟨fun h => h.next fun c hc => hc, List.prefix_refl _⟩
        · rw [if_neg hline]
          cases hmarker : detectMarker utfBomMarkers block with
          | error name => exact ⟨fun h => h.next fun c hc => hc, List.prefix_append _ _⟩
          | ok behind =>
            exact ⟨fun h => h.next fun c hc => mem_of_detectMarker hmarker hc, List.prefix_refl _⟩

theorem reads_kept : KeptByLines ReadsOn where
  data := reads_readBufData
  take _ := ⟨fun h => ⟨fun hc => h.rlpbuf (List.mem_of_mem_tail hc), h.blocks⟩, List.prefix_refl _⟩
  scan _ _ := ⟨id, List.prefix_refl _⟩
  eol s := by
    refine ⟨fun h => ⟨?_, h.blocks⟩, List.prefix_refl _⟩
    rw [List.mem_append, not_or]
    exact ⟨h.rlpbuf, by decide⟩
  lines _ _ := ⟨id, List.prefix_refl _⟩

/-- The internal error is not reported. -/
def NoInternalError (s t : ReadState) : Prop := internalError ∈ t.log → internalError ∈ s.log

instance : Std.Refl NoInternalError := ⟨fun _ => id⟩

instance : IsTrans ReadState NoInternalError := ⟨fun _ _ _ hst htu => hst ∘ htu⟩

theorem noInternalError_readBufData : Keeps NoInternalError readBufData := by
  intro s
  -- the errors of this function are others than the internal one
  have hother : ∀ {e : Event}, e ≠ internalError → internalError ∈ s.log ++ [e] →
      internalError ∈ s.log := by
    intro e he h
    rcases List.mem_append.mp h with h | h
    · exact h
    · exact absurd (List.mem_singleton.mp h).symm he
  obtain ⟨rlpbuf, blocks, opened, lateMarker, scan, lines, log⟩ := s
  rw [final, exec_readBufData]
  dsimp only
  by_cases hlong : lineMax - 2 ≤ scan.line.length
  · rw [if_pos hlong]
    exact hother (by simp [internalError])
  · rw [if_neg hlong]
    by_cases hbuf : rlpbuf ≠ []
    · rw [if_pos hbuf]
      exact id
    · rw [if_neg hbuf]
      cases blocks with
      | nil => exact id
      | cons block blocks =>
        dsimp only
        by_cases hline : scan.pos.line ≠ 0
        · rw [if_pos hline]
          exact id
        · rw [if_neg hline]
          cases detectMarker utfBomMarkers block with
          | error name => exact hother (by simp [internalError])
          | ok behind => exact id

theorem noInternalError_kept : KeptByLines NoInternalError where
  data := noInternalError_readBufData
  take _ := id
  scan _ _ := id
  eol _ := id
  lines _ _ := id

/-! ### One file -/

/-- The reader of the including file is as it was, with the same text ahead. -/
structure Continues (s t : ReadState) : Prop where
  rlpbuf : t.rlpbuf = s.rlpbuf
  blocks : t.blocks = s.blocks
  opened : t.opened = s.opened
  pos : t.scan.pos = s.scan.pos
  colonSubline : t.scan.colonSubline = s.scan.colonSubline
  blockComment : t.scan.blockComment = s.scan.blockComment

/-- The file of the `INCLUDE` is read, in these blocks. -/
def IncludeSite.Opens (site : IncludeSite) (includeLevel : Nat) (blocks : List Text) : Prop :=
  includeLevel < 20 ∧ site.file = some blocks

variable {includeLevel : Nat} {site : IncludeSite} {blocks : List Text} {body : ReadProgram Unit}
  {s : ReadState}

/-- The block in the buffer is put back. -/
theorem restoreReader_rlpbuf (hbefore : '\x00' ∉ site.before) (hs : s.NulFree) (t : ReadState) :
    (restoreReader site s t).rlpbuf = s.rlpbuf := by
  show List.take (_ + _ - _) _ = _
  rw [Nat.add_sub_cancel_left]
  exact strcpy_strdup hbefore hs.rlpbuf

/-- Inside of a comment the error is reported. -/
theorem exec_includeFile_comment (includeLevel : Nat) (site : IncludeSite) (body : ReadProgram Unit)
    (hcomment : s.scan.blockComment ≠ 0) :
    (site.includeFile includeLevel body).exec s
      = (none, { s with log := s.log ++ [internalError] }) := by
  rw [IncludeSite.includeFile, exec_bind_of_some (exec_get s), if_pos hcomment]
  rfl

/-- A file that is read: what processes it decides whether `IncludeFile` returns. -/
theorem exec_includeFile_opens (body : ReadProgram Unit) (hcomment : s.scan.blockComment = 0)
    (hopens : site.Opens includeLevel blocks) :
    (site.includeFile includeLevel body).exec s = match body.exec (s.opening blocks) with
      | (some (), t) =>
        (some (), restoreReader site s (t.atPos s.scan.pos))
      | (none, t) => (none, t) := by
  rw [IncludeSite.includeFile, exec_bind_of_some (exec_get s), if_neg (not_not.mpr hcomment), openSource,
    if_neg (by have := hopens.1; omega), hopens.2]
  dsimp only
  rw [exec_bind, exec_bind_of_some (exec_asks _ s), exec_bind_of_some (exec_modify _ s), exec_bind]
  rcases body.exec (s.opening blocks) with ⟨_ | _, t⟩ <;> rfl

/-- A file that is not read leaves an error. -/
theorem exec_includeFile_not_opens (body : ReadProgram Unit) (hcomment : s.scan.blockComment = 0)
    (hopens : ∀ blocks, ¬site.Opens includeLevel blocks) :
    ∃ e, e ≠ internalError ∧ (site.includeFile includeLevel body).exec s
      = (some (), restoreReader site s { s with log := s.log ++ [e] }) := by
  rw [IncludeSite.includeFile, exec_bind_of_some (exec_get s), if_neg (not_not.mpr hcomment), openSource]
  by_cases hdeep : 20 < includeLevel + 1
  · rw [if_pos hdeep]
    exact ⟨_, by decide, rfl⟩
  · rw [if_neg hdeep]
    cases hfile : site.file with
    | none => exact ⟨_, by simp [internalError], rfl⟩
    | some blocks => exact absurd ⟨by omega, hfile⟩ (hopens blocks)

/-- Including a file keeps the source free of zeros, and adds to the errors. -/
theorem reads_includeFile (includeLevel : Nat) (hbefore : '\x00' ∉ site.before)
    (hfile : ∀ blocks, site.file = some blocks → ∀ block ∈ blocks, '\x00' ∉ block)
    (hbody : Keeps ReadsOn body) : Keeps ReadsOn (site.includeFile includeLevel body) := by
  intro s
  -- the text in front is put back behind the file, and it has no zeros
  have hrestored : ∀ t, s.log <+: t.log → ReadsOn s (restoreReader site s t) := fun t ht => by
    refine ⟨fun hs => ⟨?_, hs.blocks⟩, ht⟩
    rw [restoreReader_rlpbuf hbefore hs]
    exact hs.rlpbuf
  rw [final]
  -- an open comment is the internal error; else the file opens, or its error is reported
  by_cases hcomment : s.scan.blockComment = 0
  · by_cases hopens : ∃ blocks, site.Opens includeLevel blocks
    · obtain ⟨blocks, hopens⟩ := hopens
      have hinner := hbody (s.opening blocks)
      rw [exec_includeFile_opens body hcomment hopens]
      rw [final] at hinner
      rcases hexec : body.exec (s.opening blocks) with ⟨_ | _, t⟩
      · rw [hexec] at hinner
        exact ⟨fun _ => hinner.nulFree ⟨List.not_mem_nil, hfile blocks hopens.2⟩, hinner.log⟩
      · rw [hexec] at hinner
        exact hrestored _ hinner.log
    · obtain ⟨e, -, hexec⟩ := exec_includeFile_not_opens body hcomment (not_exists.mp hopens)
      rw [hexec]
      exact hrestored _ (List.prefix_append _ _)
  · rw [exec_includeFile_comment includeLevel site body hcomment]
    exact ⟨id, List.prefix_append _ _⟩

/-! ### Whole runs -/

/-- Every `INCLUDE` of the run, those in included files too, leaves the reader as it was. -/
def Script.Transparent : Script → Nat → ReadState → Prop
  | .stop, _, _ => True
  | .read splitByColon next, includeLevel, s =>
    Ensures (readBufLine splitByColon) s fun _ t => next.Transparent includeLevel t
  | .file site inner next, includeLevel, s =>
    (s.scan.blockComment = 0 → ∀ blocks, site.Opens includeLevel blocks →
      inner.Transparent (includeLevel + 1) (s.opening blocks)) ∧
    Ensures (site.includeFile includeLevel (inner.run (includeLevel + 1))) s fun _ t =>
      Continues s t ∧ next.Transparent includeLevel t

/-- No block comment is open at an `INCLUDE` of the run, nor where an included file ends. -/
def Script.OutsideComments : Script → Nat → ReadState → Prop
  | .stop, _, _ => True
  | .read splitByColon next, includeLevel, s =>
    Ensures (readBufLine splitByColon) s fun _ t => next.OutsideComments includeLevel t
  | .file site inner next, includeLevel, s =>
    s.scan.blockComment = 0 ∧
    (∀ blocks, site.Opens includeLevel blocks →
      inner.OutsideComments (includeLevel + 1) (s.opening blocks) ∧
        Ensures (inner.run (includeLevel + 1)) (s.opening blocks) fun _ t => t.scan.blockComment = 0) ∧
    Ensures (site.includeFile includeLevel (inner.run (includeLevel + 1))) s fun _ t =>
      next.OutsideComments includeLevel t

/-- A run keeps the source free of zeros, and adds to the errors. -/
theorem reads_run {script : Script} (hscript : script.NulFree) (includeLevel : Nat) :
    Keeps ReadsOn (script.run includeLevel) := by
  induction script generalizing includeLevel with
  | stop => exact Keeps.pure ()
  | read splitByColon next ih =>
    exact (keeps_readBufLine reads_kept splitByColon).bind fun _ => ih hscript includeLevel
  | file site inner next ihinner ihnext =>
    obtain ⟨hbefore, hfile, hinner, hnext⟩ := hscript
    exact (reads_includeFile includeLevel hbefore hfile (ihinner hinner _)).bind fun _ =>
      ihnext hnext includeLevel

/-- The reader that is put back is as it was except for the comment of the included file. -/
theorem continues_restoreReader_iff (hbefore : '\x00' ∉ site.before) (hs : s.NulFree)
    {t : ReadState} (hpos : t.scan.pos = s.scan.pos) :
    Continues s (restoreReader site s t) ↔ t.scan.blockComment = s.scan.blockComment := by
  constructor
  · exact fun h => h.blockComment
  · exact fun h => ⟨restoreReader_rlpbuf hbefore hs t, rfl, rfl, hpos, rfl, h⟩

/-- A program that returns ensures what holds of its result. -/
theorem ensures_iff_of_exec {α : Type} {p : ReadProgram α} {a : α} {t : ReadState}
    {Q : α → ReadState → Prop} (h : p.exec s = (some a, t)) : Ensures p s Q ↔ Q a t :=
  ⟨fun hQ => hQ a t h, Ensures.of_exec h⟩

/-- A program that exits ensures anything. -/
theorem ensures_of_exit {α : Type} {p : ReadProgram α} {t : ReadState} {Q : α → ReadState → Prop}
    (h : p.exec s = (none, t)) : Ensures p s Q := by
  intro a u hexec
  rw [h] at hexec
  cases hexec

/-- A file that is read, when the run over it and the run behind it meet the equivalence. -/
theorem Script.transparent_iff_of_opens {inner next : Script}
    (hscript : (Script.file site inner next).NulFree) (hs : s.NulFree)
    (hcomment : s.scan.blockComment = 0) (hopens : site.Opens includeLevel blocks)
    (hinner : (inner.Transparent (includeLevel + 1) (s.opening blocks) ∧
        internalError ∉ ((inner.run (includeLevel + 1)).final (s.opening blocks)).log) ↔
      inner.OutsideComments (includeLevel + 1) (s.opening blocks))
    (hnext : ∀ u : ReadState, u.NulFree → internalError ∉ u.log →
      ((next.Transparent includeLevel u ∧ internalError ∉ ((next.run includeLevel).final u).log) ↔
        next.OutsideComments includeLevel u)) :
    ((Script.file site inner next).Transparent includeLevel s ∧
        internalError ∉ (((Script.file site inner next).run includeLevel).final s).log) ↔
      (Script.file site inner next).OutsideComments includeLevel s := by
  obtain ⟨hbefore, -, -, hnextFree⟩ := hscript
  -- the blocks of the file are known
  have hblocks : ∀ {Q : List Text → Prop},
      (∀ blocks', site.Opens includeLevel blocks' → Q blocks') ↔ Q blocks := by
    intro Q
    refine ⟨fun h => h blocks hopens, fun h blocks' hopens' => ?_⟩
    rw [Option.some.inj (hopens'.2.symm.trans hopens.2)]
    exact h
  have hexec := exec_includeFile_opens (inner.run (includeLevel + 1)) hcomment hopens
  rw [Script.Transparent, Script.OutsideComments, Script.run, hblocks, hblocks, final, exec_bind]
  rw [final] at hinner
  rcases hbody : (inner.run (includeLevel + 1)).exec (s.opening blocks) with ⟨_ | _, t⟩
  · -- the run ends in the included file
    rw [hbody] at hexec hinner
    rw [hexec, ← hinner]
    constructor
    · rintro ⟨⟨htransparent, -⟩, hlog⟩
      exact ⟨hcomment, ⟨⟨htransparent hcomment, hlog⟩, ensures_of_exit hbody⟩, ensures_of_exit hexec⟩
    · rintro ⟨-, ⟨⟨htransparent, hlog⟩, -⟩, -⟩
      exact ⟨⟨fun _ => htransparent, ensures_of_exit hexec⟩, hlog⟩
  · -- the run comes back to the including file, in the state `u`
    rw [hbody] at hexec hinner
    dsimp only at hexec hinner
    obtain ⟨u, hu⟩ : ∃ u, u = restoreReader site s (t.atPos s.scan.pos) := ⟨_, rfl⟩
    have hcontinues : Continues s u ↔ t.scan.blockComment = 0 := by
      rw [hu, ← hcomment]
      exact continues_restoreReader_iff hbefore hs rfl
    have hfree : u.NulFree := by
      rw [hu]
      exact ⟨by rw [restoreReader_rlpbuf hbefore hs]; exact hs.rlpbuf, hs.blocks⟩
    have hulog : u.log = t.log := by
      rw [hu]
      rfl
    rw [← hu] at hexec
    rw [hexec, ensures_iff_of_exec hexec, ensures_iff_of_exec hexec, ensures_iff_of_exec hbody, ← hinner,
      hcontinues]
    dsimp only
    have hbehind := hnext u hfree
    have hgrows := (reads_run hnextFree includeLevel u).log.subset
    rw [final] at hgrows hbehind
    rw [hulog] at hgrows hbehind
    constructor
    · rintro ⟨⟨htransparent, hclosed, hnextTransparent⟩, hlog⟩
      have htlog : internalError ∉ t.log := fun he => hlog (hgrows he)
      exact ⟨hcomment, ⟨⟨htransparent hcomment, htlog⟩, hclosed⟩,
        (hbehind htlog).mp ⟨hnextTransparent, hlog⟩⟩
    · rintro ⟨-, ⟨⟨htransparent, htlog⟩, hclosed⟩, houtside⟩
      obtain ⟨hnextTransparent, hlog⟩ := (hbehind htlog).mpr houtside
      exact ⟨⟨fun _ => htransparent, hclosed, hnextTransparent⟩, hlog⟩

/-- **Included files.**  In a run over sources without zeros, every `INCLUDE` leaves the reader of the
including file as it was, and the internal error is not reported, exactly when no block comment is open at
an `INCLUDE`, nor where an included file ends. -/
theorem Script.transparent_iff (script : Script) (hscript : script.NulFree) (includeLevel : Nat)
    {s : ReadState} (hs : s.NulFree) (hlog : internalError ∉ s.log) :
    (script.Transparent includeLevel s ∧
        internalError ∉ ((script.run includeLevel).final s).log) ↔
      script.OutsideComments includeLevel s := by
  -- by induction on the script: the files in it are scripts one level down
  induction script generalizing includeLevel s with
  | stop => exact ⟨fun _ => trivial, fun _ => ⟨trivial, hlog⟩⟩
  -- a line that is read changes neither the level nor the errors that count
  | read splitByColon next ih =>
    have hreads := keeps_readBufLine reads_kept splitByColon s
    have hquiet := keeps_readBufLine noInternalError_kept splitByColon s
    rw [Script.Transparent, Script.OutsideComments, Script.run, final, exec_bind]
    rw [final] at hreads hquiet
    rcases hexec : (readBufLine splitByColon).exec s with ⟨_ | data, t⟩
    · rw [hexec] at hquiet
      exact ⟨fun _ => ensures_of_exit hexec, fun _ => ⟨ensures_of_exit hexec, mt hquiet hlog⟩⟩
    · rw [hexec] at hreads hquiet
      rw [ensures_iff_of_exec hexec, ensures_iff_of_exec hexec]
      exact ih hscript includeLevel (hreads.nulFree hs) (mt hquiet hlog)
  | file site inner next ihinner ihnext =>
    -- the internal error is what an open comment at an `INCLUDE` reports
    by_cases hcomment : s.scan.blockComment = 0
    · by_cases hopens : ∃ blocks, site.Opens includeLevel blocks
      · obtain ⟨blocks, hopens⟩ := hopens
        obtain ⟨-, hfile, hinnerFree, hnextFree⟩ := id hscript
        refine Script.transparent_iff_of_opens hscript hs hcomment hopens ?_ fun u hu hulog =>
          ihnext hnextFree includeLevel hu hulog
        exact ihinner hinnerFree _ ⟨List.not_mem_nil, hfile blocks hopens.2⟩ hlog
      -- a file that does not open is an error, and the reader goes on where it was
      · have hclosed := not_exists.mp hopens
        obtain ⟨e, he, hexec⟩ := exec_includeFile_not_opens (inner.run (includeLevel + 1)) hcomment
          hclosed
        obtain ⟨hbefore, -, -, hnextFree⟩ := hscript
        obtain ⟨u, hu⟩ : ∃ u, u = restoreReader site s { s with log := s.log ++ [e] } := ⟨_, rfl⟩
        rw [← hu] at hexec
        have hcontinues : Continues s u := by
          rw [hu]
          exact ⟨restoreReader_rlpbuf hbefore hs _, rfl, rfl, rfl, rfl, rfl⟩
        have hulog : internalError ∉ u.log := by
          rw [hu]
          exact fun h => (List.mem_append.mp h).elim hlog fun h => he (List.mem_singleton.mp h).symm
        have hbehind := ihnext hnextFree includeLevel
          ⟨by rw [hcontinues.rlpbuf]; exact hs.rlpbuf, by rw [hcontinues.blocks]; exact hs.blocks⟩ hulog
        rw [Script.Transparent, Script.OutsideComments, Script.run, final, exec_bind, hexec,
          ensures_iff_of_exec hexec, ensures_iff_of_exec hexec, ← hbehind]
        constructor
        · rintro ⟨⟨-, -, hnextTransparent⟩, hend⟩
          exact ⟨hcomment, fun blocks hopens => absurd hopens (hclosed blocks), hnextTransparent, hend⟩
        · rintro ⟨-, -, hnextTransparent, hend⟩
          exact ⟨⟨fun _ blocks hopens => absurd hopens (hclosed blocks), hcontinues, hnextTransparent⟩,
            hend⟩
    · have hexec := exec_includeFile_comment includeLevel site (inner.run (includeLevel + 1)) hcomment
      rw [Script.OutsideComments, Script.run, final, exec_bind, hexec]
      constructor
      · exact fun h => absurd (List.mem_append_right _ (List.mem_singleton.mpr rfl)) h.2
      · exact fun h => absurd h.1 hcomment

/-! ### Examples -/

/-- The text of a line that includes a file, with a comment that is opened behind the directive. -/
def includeLine : Text := [' ', 'i', 'n', 'c', 'l', 'u', 'd', 'e', ' ', '"', 'a', '"', '/', '*']

/-- The `INCLUDE` of that line. -/
def includeSite (before : Text) (file : List Text) : IncludeSite := ⟨['a'], some file, before, [], []⟩

/-- A file whose only line includes an empty file. -/
def includeScript (before : Text) (file : List Text) : Script :=
  .read true (.file (includeSite before file) .stop .stop)

/-- An `INCLUDE` with text behind it, in a buffer that the included file overwrites. -/
def textSite : IncludeSite where
  nfilename := "b".toList
  file := some [" nop /* a".toList, " comment */\n xor a\n".toList]
  before := " include \"b\"\n".toList
  behind := "old".toList
  overwritten := " nop /* a comment */\n xor a\n\x00".toList

/-- Both lines of the included file are read, and then the line behind the directive. -/
def textScript : Script := .read true (.file textSite (.read true (.read true .stop)) (.read true .stop))

/-- The including file. -/
def textFile : ReadState := openFile [" include \"b\"\n halt\n".toList]

theorem transparent_iff_textScript :
    (textScript.Transparent 0 textFile ∧ internalError ∉ ((textScript.run 0).final textFile).log) ↔
      textScript.OutsideComments 0 textFile := by
  refine Script.transparent_iff textScript ⟨by decide, ?_, trivial, trivial⟩ 0 ⟨by decide, by decide⟩
    (by decide)
  intro blocks hblocks block hblock
  rw [← Option.some.inj hblocks] at hblock
  revert block
  decide

/-- A comment that is opened behind the directive is an internal error. -/
theorem not_transparent_includeLine : ¬∀ (script : Script) (includeLevel : Nat) (s : ReadState),
    script.NulFree → s.NulFree → internalError ∉ s.log →
      script.Transparent includeLevel s ∧
        internalError ∉ ((script.run includeLevel).final s).log := by
  intro h
  have hquiet := (h (includeScript includeLine []) 0 (openFile [includeLine])
    ⟨by decide, fun blocks hblocks block hblock => by
      rw [← Option.some.inj hblocks] at hblock
      exact absurd hblock List.not_mem_nil, trivial, trivial⟩ ⟨by decide, by decide⟩ (by decide)).2
  exact hquiet (by decide +kernel)

end Sjasmplus
