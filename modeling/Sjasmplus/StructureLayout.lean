import Sjasmplus.AddressClass
import Sjasmplus.StructureText

/-!
# The layout of structures

The abstract side of a structure is its flattened definition: a list of labels and of members with
their lengths, in the order in which the definition writes them, with nested structures written out
between the two markers of their braces.  `Flattened` says which flattened definition belongs to a
structure that is built line by line.  `CStructure` keeps labels and members apart, and the offset of
every label is recorded while the structure grows; `Flattened.labels` proves that it is the size of
what precedes the label in the flattened definition.

`structure_layout` is the result for all definitions of a run.  It also covers the labels of nested
structures, and those that an instance defines.
-/

namespace Sjasmplus

open Parsing ParseFn Program AsmState AsmProgram

variable {n m : Nat}

/-! ### Texts have the length of their member -/

namespace AsmProgram

theorem length_writeBytes {data bytes : List Byte} {ii len : Nat} (hdata : data.length = len)
    (h : ii + bytes.length ≤ len) : (writeBytes data ii bytes).length = len := by
  unfold writeBytes
  simp only [List.length_append, List.length_take, List.length_drop]
  omega

/-- The buffer keeps its length, and no more of it is written than there is. -/
def TextBuffer (len : Nat) (r : List Byte × Nat) : Prop := r.1.length = len ∧ r.2 ≤ len

theorem ensures_read {α : Type} {reader : Reader α} {Q : α → Prop} (h : Yields reader Q)
    (s : AsmState n m) : Ensures (read reader) s fun r _ => ∀ a, r = some a → Q a :=
  .of_exec (a := (reader s.lp).val) rfl fun a hval => h s.lp a hval

theorem ensures_structTextExpression {len ii : Nat} {data : List Byte}
    (h : TextBuffer len (data, ii)) (s : AsmState n m) :
    Ensures (structTextExpression len data ii) s fun r _ => TextBuffer len r.1 := by
  refine .ite (fun _ => .get_bind (.after fun _ _ => .pure h)) fun hlt => .after fun val t => ?_
  cases val with
  | none => exact .get_bind (.after fun _ _ => .pure h)
  | some val =>
    refine .after fun _ _ => .pure ⟨?_, ?_⟩
    · exact length_writeBytes h.1 (by simp only [List.length_singleton]; omega)
    · show ii + 1 ≤ len
      omega

theorem ensures_structTextElement {len ii : Nat} {data : List Byte} (h : TextBuffer len (data, ii))
    (s : AsmState n m) :
    Ensures (structTextElement len data ii) s fun r _ => TextBuffer len r.1 := by
  refine .get_bind (.bind (ensures_read (getCharConstAsString_yields (len - ii) 0) s)
    fun o t ho => .get_bind ?_)
  have hbytes : (o.getD (0, [])).2.length ≤ len - ii := by
    cases o with
    | none => exact Nat.zero_le _
    | some r => exact ho r rfl
  have hle : ii ≤ len := h.2
  set bytes := (o.getD (0, [])).2 with hdef
  set written := writeBytes data ii (bytes.map (BitVec.ofNat 8)) with hwritten
  have hlength : written.length = len :=
    length_writeBytes h.1 (by rw [List.length_map]; omega)
  have hall : TextBuffer len (written, ii + bytes.length) := ⟨hlength, by show _ ≤ _; omega⟩
  refine .ite (fun _ => .ite (fun _ => .after fun _ _ => ?_) fun _ => .pure hall) fun _ =>
    .ite (fun _ => .pure hall) fun _ => .ite (fun _ => .get_bind (.after fun _ _ => .pure hall))
      fun _ => ensures_structTextExpression hall t
  -- a character that starts an expression is not written
  exact ensures_structTextExpression ⟨hlength, hle⟩ _

theorem ensures_structTextLoop {len fuel ii : Nat} {data : List Byte}
    (h : TextBuffer len (data, ii)) (s : AsmState n m) :
    Ensures (structTextLoop len fuel data ii) s fun r _ => TextBuffer len r := by
  induction fuel generalizing data ii s with
  | zero => exact .pure h
  | succ fuel ih =>
    refine .after fun _ t => .ite (fun _ => .get_bind (.ite (fun _ => .pure h) fun _ =>
      .bind (ensures_structTextElement h t) fun r u hr => .ite (fun _ => .after fun _ v => ?_)
        fun _ => .pure hr)) fun _ => .pure h
    exact .ite (fun _ => ih hr v) fun _ => .pure hr

/-- **A text has the length of its member.** -/
theorem ensures_getStructText {len : Nat} {initData : Option (List Byte)}
    (hinit : ∀ data, initData = some data → data.length = len) (s : AsmState n m) :
    Ensures (getStructText len initData) s fun bytes _ => bytes.length = len := by
  -- with a text its bytes are cut or filled to the length; without one the default has it
  refine .after fun _ _ => .after fun _ t => .ite (fun _ => .get_bind ?_) fun _ => ?_
  · refine .bind (ensures_structTextLoop ⟨List.length_replicate, Nat.zero_le _⟩ t) fun r u hr =>
      .after fun _ _ => .ite (fun _ => .after fun _ _ => .pure ?_) fun _ => .get_bind
        (.after fun _ _ => .pure hr.1)
    obtain ⟨hlength, hle⟩ := hr
    unfold fillText
    -- what the text does not fill is zeros, or the rest of the default
    cases initData with
    | none =>
      simp only [List.length_append, List.length_take, List.length_replicate]
      omega
    | some data =>
      have := hinit data rfl
      simp only [List.length_append, List.length_take, List.length_drop]
      omega
  · cases initData with
    | none => exact .get_bind (.after fun _ _ => .pure List.length_replicate)
    | some data => exact .pure (hinit data rfl)

end AsmProgram

/-! ### Flattened definitions -/

namespace Structure

/-- Several members, one behind the other. -/
def addMembers (st : Structure) (kinds : List MemberKind) : Structure :=
  kinds.foldl addMember st

/-- The labels and members of a nested structure, whose members have got new values. -/
def addNested (st : Structure) (outer : Option Text) (source : Structure)
    (kinds : List MemberKind) : Structure :=
  ((((st.copyLabels outer source).addMember .parenOpen).addMembers kinds).addMember .parenClose)

@[simp] theorem init_naam (naam : Text) (offset : Aint) : (init naam offset).naam = naam := by
  unfold Structure.init
  split_ifs <;> rfl

/-- The structure is built from a definition that flattens to the fields. -/
inductive Flattened : Structure → Fields → Prop
  | init (naam : Text) (offset : Aint) : Flattened (init naam offset) (offsetFields offset)
  | label {st : Structure} {fields : Fields} (temp : Text) : Flattened st fields →
      Flattened (st.addLabel temp) (fields ++ [.label temp])
  | member {st : Structure} {fields : Fields} (kind : MemberKind) : Flattened st fields →
      Flattened (st.addMember kind) (fields ++ [.member kind.len])
  | align {st : Structure} {fields : Fields} (maxAlignment : Aint) : Flattened st fields →
      Flattened { st with maxAlignment := maxAlignment } fields
  | nested {st source : Structure} {fields inner : Fields} {kinds : List MemberKind}
      (outer : Option Text) : Flattened st fields → Flattened source inner →
      kinds.map (·.len) = Layout.lengths inner →
      Flattened (st.addNested outer source kinds) (fields ++ nestedFields outer inner)

@[simp] theorem addMember_labels (st : Structure) (kind : MemberKind) :
    (st.addMember kind).labels = st.labels := rfl

@[simp] theorem addMember_naam (st : Structure) (kind : MemberKind) :
    (st.addMember kind).naam = st.naam := rfl

@[simp] theorem addMember_noffset (st : Structure) (kind : MemberKind) :
    (st.addMember kind).noffset = st.noffset + kind.len := rfl

@[simp] theorem addMember_kinds (st : Structure) (kind : MemberKind) :
    (st.addMember kind).members.map (·.kind) = st.members.map (·.kind) ++ [kind] :=
  List.map_append

@[simp] theorem addMembers_labels (st : Structure) (kinds : List MemberKind) :
    (st.addMembers kinds).labels = st.labels := by
  induction kinds generalizing st with
  | nil => rfl
  | cons kind kinds ih => exact ih (st.addMember kind)

@[simp] theorem addMembers_naam (st : Structure) (kinds : List MemberKind) :
    (st.addMembers kinds).naam = st.naam := by
  induction kinds generalizing st with
  | nil => rfl
  | cons kind kinds ih => exact ih (st.addMember kind)

theorem addMembers_noffset (st : Structure) (kinds : List MemberKind) :
    (st.addMembers kinds).noffset = st.noffset + (kinds.map (·.len)).sum := by
  induction kinds generalizing st with
  | nil => exact (add_zero _).symm
  | cons kind kinds ih =>
    rw [List.map_cons, List.sum_cons, ← add_assoc]
    exact ih (st.addMember kind)

theorem addMembers_kinds (st : Structure) (kinds : List MemberKind) :
    (st.addMembers kinds).members.map (·.kind) = st.members.map (·.kind) ++ kinds := by
  induction kinds generalizing st with
  | nil => exact (List.append_nil _).symm
  | cons kind kinds ih =>
    have h := ih (st.addMember kind)
    rw [addMember_kinds, List.append_assoc] at h
    exact h

@[simp] theorem copyLabels_noffset (st : Structure) (outer : Option Text) (source : Structure) :
    (st.copyLabels outer source).noffset = st.noffset := by
  cases outer with
  | none => rfl
  | some outer =>
    unfold copyLabels
    induction source.labels generalizing st with
    | nil => rfl
    | cons np labels ih => exact ih (st.copyLabel _ np.offset)

@[simp] theorem copyLabels_naam (st : Structure) (outer : Option Text) (source : Structure) :
    (st.copyLabels outer source).naam = st.naam := by
  cases outer with
  | none => rfl
  | some outer =>
    unfold copyLabels
    induction source.labels generalizing st with
    | nil => rfl
    | cons np labels ih => exact ih (st.copyLabel _ np.offset)

@[simp] theorem copyLabels_members (st : Structure) (outer : Option Text) (source : Structure) :
    (st.copyLabels outer source).members = st.members := by
  cases outer with
  | none => rfl
  | some outer =>
    unfold copyLabels
    induction source.labels generalizing st with
    | nil => rfl
    | cons np labels ih => exact ih (st.copyLabel _ np.offset)

/-- The labels of a nested structure are those of the structure behind the offset of the field. -/
theorem copyLabels_labels (st : Structure) (outer : Text) (source : Structure) :
    (st.copyLabels (some outer) source).labels = st.labels ++
      source.labels.map fun np => ⟨nestedName outer np.naam, st.noffset + np.offset⟩ := by
  unfold copyLabels
  induction source.labels generalizing st with
  | nil => exact (List.append_nil _).symm
  | cons np labels ih =>
    have h := ih (st.copyLabel (nestedName outer np.naam) np.offset)
    rw [show (st.copyLabel (nestedName outer np.naam) np.offset).labels
      = st.labels ++ [⟨nestedName outer np.naam, st.noffset + np.offset⟩] from rfl,
      List.append_assoc] at h
    exact h

namespace Flattened

variable {st : Structure} {fields : Fields}

/-- The members have the lengths of the flattened definition. -/
theorem lengths (h : Flattened st fields) :
    st.members.map (·.kind.len) = Layout.lengths fields := by
  have hmap : ∀ st : Structure,
      st.members.map (·.kind.len) = (st.members.map (·.kind)).map (·.len) := fun st => by
    rw [List.map_map]
    rfl
  -- by induction on the definition: a nested structure is copied between two empty members
  induction h with
  | init naam offset =>
    unfold Structure.init offsetFields
    split_ifs <;> rfl
  | label temp h ih =>
    rw [Layout.lengths_append, ← ih]
    exact (List.append_nil _).symm
  | member kind h ih =>
    rw [hmap, addMember_kinds, List.map_append, ← hmap, ih, Layout.lengths_append]
    rfl
  | align maxAlignment h ih => exact ih
  | @nested st source fields inner kinds outer h hsource hkinds ih ihsource =>
    have hinner : Layout.lengths (nestedFields outer inner)
        = (0 : Aint) :: Layout.lengths inner ++ [0] := by
      cases outer with
      | none => simp [nestedFields, Layout.lengths]
      | some outer => simp [nestedFields, Layout.lengths]
    rw [hmap, addNested, addMember_kinds, addMembers_kinds, addMember_kinds, copyLabels_members,
      Layout.lengths_append, hinner]
    simp only [List.map_append, List.map_cons, List.map_nil, hkinds, ← ih, hmap, List.append_assoc]
    rfl

/-- The size of the structure is the size of the flattened definition. -/
theorem size (h : Flattened st fields) : st.noffset = Layout.size fields := by
  induction h with
  | init naam offset =>
    unfold Structure.init offsetFields
    split_ifs
    · exact (zero_add offset).trans (Layout.size_member offset).symm
    · rfl
  | label temp h ih => exact ih.trans (by simp)
  | member kind h ih => simp [ih]
  | align maxAlignment h ih => exact ih
  | @nested st source fields inner kinds outer h hsource hkinds ih ihsource =>
    have hinner : Layout.size (nestedFields outer inner) = Layout.size inner := by
      cases outer with
      | none => simp [nestedFields, Layout.size_cons_member]
      | some outer => simp [nestedFields, Layout.size_cons_member]
    rw [addNested, addMember_noffset, addMembers_noffset, addMember_noffset, copyLabels_noffset,
      hkinds, ih, Layout.size_append, hinner, show MemberKind.parenOpen.len = 0 from rfl,
      show MemberKind.parenClose.len = 0 from rfl, add_zero, add_zero]
    rfl

/-- **The offset of every label is the size of what precedes it in the flattened definition.** -/
theorem labels (h : Flattened st fields) :
    st.labels.map (fun np => (np.naam, np.offset)) = Layout.labels 0 fields := by
  -- by induction on the definition: the size so far is the offset of the next label
  induction h with
  | init naam offset =>
    unfold Structure.init offsetFields
    split_ifs <;> rfl
  | @label st fields temp h ih =>
    rw [Layout.labels_append, ← ih, zero_add, ← h.size]
    show (st.labels ++ [(⟨temp, st.noffset + 0⟩ : StructureLabel)]).map _ = _
    rw [add_zero, List.map_append]
    rfl
  | @member st fields kind h ih =>
    rw [Layout.labels_append, ← ih]
    exact (List.append_nil _).symm
  | align maxAlignment h ih => exact ih
  | @nested st source fields inner kinds outer h hsource hkinds ih ihsource =>
    rw [Layout.labels_append, ← ih, zero_add, ← h.size, addNested, addMember_labels,
      addMembers_labels, addMember_labels]
    -- without a label of its own a nested structure has none of its inner labels
    cases outer with
    | none =>
      have hinner : Layout.labels st.noffset (nestedFields none inner) = [] := by
        rw [nestedFields, Layout.labels_append]
        show Layout.labels (st.noffset + 0) (Layout.members inner) ++ [] = []
        rw [Layout.labels_members, List.append_nil]
      rw [hinner, List.append_nil]
      rfl
    | some outer =>
      have hinner : Layout.labels st.noffset (nestedFields (some outer) inner)
          = (Layout.labels st.noffset inner).map fun l => (nestedName outer l.1, l.2) := by
        rw [nestedFields, Layout.labels_append]
        show Layout.labels (st.noffset + 0) (Layout.rename (nestedName outer) inner) ++ [] = _
        rw [Layout.labels_rename, List.append_nil, add_zero]
      rw [hinner, Layout.labels_eq_map, ← ihsource, copyLabels_labels, List.map_append]
      simp only [List.map_map]
      rfl

end Flattened

end Structure

/-! ### Copying nested structures -/

/-- The error about a definition without its `ENDS`. -/
def unexpectedEnd : Event := .error "[STRUCT] Unexpected end of structure" none .pass3

namespace AsmProgram

/-- No line follows where there is nothing left to move to. -/
theorem ensures_nonBlankLine {lines : List SourceLine} {s : AsmState n m} (hs : s.lines = lines) :
    Ensures (nonBlankLine lines) s fun b t => ¬b = true → t.lines = [] := by
  induction lines generalizing s with
  | nil => exact .of_exec (a := !_) rfl fun _ => hs
  | cons line lines ih =>
    refine .after fun _ t => .ite (fun _ => ?_) fun _ => .pure fun h => absurd rfl h
    exact .bind (.of_exec (exec_modify _ t) (Q := fun _ u => u.lines = lines) rfl) fun _ u hu =>
      .bind (.of_exec (exec_modify _ u) (Q := fun _ v => v.lines = lines) hu) fun _ v hv => ih hv

theorem ensures_copyMember {st : Structure} {haakjes : Nat} {rest : List StructureMember}
    (kind : MemberKind) (s : AsmState n m) :
    Ensures (copyMember st haakjes rest kind) s fun r _ =>
      ∃ copied : MemberKind, r.1 = st.addMember copied ∧ copied.len = kind.len := by
  -- an initial value changes the default of a member, never its length
  cases kind with
  | block len default => exact .pure ⟨_, rfl, rfl⟩
  | value type default defDeltaType =>
    have hvalue : Ensures (copyValue type default defDeltaType) s fun kind _ =>
        kind.len = BitVec.ofNat 32 type.size := by
      refine .after fun val _ => .get_bind (.after fun _ _ => .pure ?_)
      cases val <;> rfl
    exact .bind hvalue fun kind _ hlen => .after fun _ _ => .pure ⟨kind, rfl, hlen⟩
  | text data =>
    refine .bind (ensures_getStructText (fun d hd => Option.some.inj hd ▸ rfl) s) fun bytes _ h =>
      .after fun _ _ => .pure ⟨.text bytes, rfl, ?_⟩
    show BitVec.ofNat 32 bytes.length = BitVec.ofNat 32 data.length
    rw [h]
  | parenOpen => exact .after fun _ _ => .pure ⟨_, rfl, rfl⟩
  | parenClose =>
    refine .after fun closed _ => ?_
    cases closed with
    | none => exact .pure ⟨_, rfl, rfl⟩
    | some haakjes => exact .after fun _ _ => .pure ⟨_, rfl, rfl⟩

/-- The walk copies every member, or the source ends inside braces. -/
theorem ensures_copyMembersLoop {members : List StructureMember} {st : Structure} {haakjes : Nat}
    (s : AsmState n m) :
    Ensures (copyMembersLoop members st haakjes) s fun r t =>
      ∃ kinds : List MemberKind, r.1 = st.addMembers kinds ∧
        (t.lines = [] ∨ kinds.map (·.len) = members.map (·.kind.len)) := by
  induction members generalizing st haakjes s with
  | nil => exact .after fun haakjes _ => .pure ⟨[], rfl, .inr rfl⟩
  | cons ip rest ih =>
    have hstart : ∀ t : AsmState n m, Ensures (startTurn haakjes) t fun b u =>
        ¬b = true → u.lines = [] := fun t =>
      .ite (fun _ => .get_bind (ensures_nonBlankLine rfl)) fun _ => .pure fun h => absurd rfl h
    refine .after fun _ t => .bind (hstart t) fun b u hb => .ite (fun _ => ?_) fun h =>
      .pure ⟨[], rfl, .inl (hb h)⟩
    refine .bind (ensures_copyMember ip.kind u) fun r v hr => .after fun _ w => ?_
    obtain ⟨copied, hcopied, hlen⟩ := hr
    refine (ih w).mono fun r' _ hr' => ?_
    obtain ⟨kinds, hkinds, hdone⟩ := hr'
    refine ⟨copied :: kinds, by rw [hkinds, hcopied]; rfl, hdone.imp_right fun h => ?_⟩
    rw [List.map_cons, List.map_cons, hlen, h]

/-- A nested structure is copied as a whole, or the source ends inside. -/
theorem ensures_copyMembers {st source : Structure} (s : AsmState n m) :
    Ensures (copyMembers st source) s fun st' t => ∃ kinds : List MemberKind,
      st' = (((st.addMember .parenOpen).addMembers kinds).addMember .parenClose) ∧
        (t.lines = [] ∨ kinds.map (·.len) = source.members.map (·.kind.len)) := by
  refine .after fun haakjes t => .bind (ensures_copyMembersLoop t) fun r u hr => ?_
  obtain ⟨kinds, hkinds, hdone⟩ := hr
  refine .bind (R := fun _ v => v.lines = u.lines) ?_ fun _ v hv => .pure ?_
  · exact .when (fun _ => .of_exec rfl rfl) fun _ => rfl
  · exact ⟨kinds, by rw [hkinds], hdone.imp_left hv.trans⟩

end AsmProgram

/-! ### Definitions -/

namespace AsmState

/-- The structures of the table are flattened definitions as their texts say, but for the structure in
work, which is in the table too. -/
structure HoldsDefinitions (defs : Definitions) (inWork : Option Text) (s : AsmState n m) : Prop where
  flattened : ∀ st ∈ s.structures, inWork ≠ some st.naam →
    ∃ fields, defs st.naam = some fields ∧ st.Flattened fields
  named : ∀ naam, (defs naam).isSome = true ∨ inWork = some naam → ∃ st ∈ s.structures, st.naam = naam

/-- The same unless a definition without its end was reported. -/
def TableFlattened (defs : Definitions) (inWork : Option Text) (s : AsmState n m) : Prop :=
  unexpectedEnd ∈ s.log ∨ s.HoldsDefinitions defs inWork

/-- The structure in work flattens to the fields, unless a definition without its end was reported. -/
def Builds (naam : Text) (fields : Fields) (st : Structure) (s : AsmState n m) : Prop :=
  unexpectedEnd ∈ s.log ∨ st.naam = naam ∧ st.Flattened fields

/-- The same behind a part of a line, where the source may have ended inside a nested structure. -/
def BuildsLine (naam : Text) (fields : Fields) (st : Structure) (s : AsmState n m) : Prop :=
  s.lines = [] ∨ s.Builds naam fields st

/-- The table stays, and messages are only added. -/
structure KeepsTable (s t : AsmState n m) : Prop where
  log : s.log <+: t.log
  structures : t.structures = s.structures

instance : Std.Refl (KeepsTable (n := n) (m := m)) := ⟨fun _ => ⟨List.prefix_rfl, rfl⟩⟩

instance : IsTrans (AsmState n m) KeepsTable :=
  ⟨fun _ _ _ h h' => ⟨h.log.trans h'.log, h'.structures.trans h.structures⟩⟩

variable {defs : Definitions} {inWork : Option Text} {naam : Text} {fields : Fields} {st : Structure}

namespace KeepsTable

theorem of_evaluates {α : Type} {p : AsmProgram n m α} (hp : Keeps Evaluates p) :
    Keeps KeepsTable p :=
  hp.mono fun _ _ h => ⟨h.mode.log, h.structures⟩

theorem ensures {α : Type} {p : AsmProgram n m α} (hp : Keeps Evaluates p) {s : AsmState n m} :
    Ensures p s fun _ t => KeepsTable s t :=
  .of_keeps (of_evaluates hp)

theorem mem_log {s t : AsmState n m} (h : KeepsTable s t) (hs : unexpectedEnd ∈ s.log) :
    unexpectedEnd ∈ t.log :=
  h.log.subset hs

theorem tableFlattened {s t : AsmState n m} (h : KeepsTable s t) (hs : s.TableFlattened defs inWork) :
    t.TableFlattened defs inWork :=
  hs.imp h.mem_log fun hs => ⟨h.structures ▸ hs.flattened, h.structures ▸ hs.named⟩

theorem builds {s t : AsmState n m} (h : KeepsTable s t) (hs : s.Builds naam fields st) :
    t.Builds naam fields st :=
  hs.imp_left h.mem_log

end KeepsTable

/-- `zoek` finds structures of the table only. -/
theorem mem_of_zoek {s : AsmState n m} {naam : Text} {gl : Bool} {st : Structure}
    (h : zoek s naam gl = some st) : st ∈ s.structures := by
  unfold zoek at h
  dsimp only at h
  split at h
  · rename_i found hfound
    exact Option.some.inj h ▸ List.mem_of_find?_eq_some hfound
  · by_cases hglobal : gl = true ∨ s.scope.moduleName = []
    · rw [if_pos hglobal] at h
      exact absurd h (by simp)
    · rw [if_neg hglobal] at h
      exact List.mem_of_find?_eq_some h

end AsmState

namespace AsmProgram

variable {defs : Definitions} {naam : Text} {fields : Fields} {st : Structure}

/-- The value of an expression is read at the text. -/
theorem ensures_parseExpression (synerr : Bool) (s : AsmState n m) :
    Ensures (parseExpression synerr) s fun o _ => o = evaluate (s.exprEnv synerr) s.lp := by
  refine .of_exec (t := (parseExpression synerr).final s) rfl ?_
  show (Sjasmplus.parseExpression (s.exprEnv synerr) s.flags s.lp).1.val = _
  unfold Sjasmplus.parseExpression evaluate
  dsimp only
  split_ifs <;> rfl

theorem ensures_blockArgument (default : Aint) (s : AsmState n m) :
    Ensures (blockArgument default) s fun len _ =>
      len = (evaluate (s.exprEnv true) s.lp).getD default := by
  refine .bind (ensures_parseExpression true s) fun o t ho => ?_
  rw [← ho]
  cases o with
  | none => exact .after fun _ _ => .pure rfl
  | some len => exact .pure rfl

/-- An alignment is a power of two, or there is an error. -/
theorem ensures_parseAlignArguments (bp : Text) (s : AsmState n m) :
    Ensures (parseAlignArguments bp) s fun r _ => (if r.1 = -1 then 4 else r.1)
      = writtenAlignment (evaluate (s.exprEnv true) (Sjasmplus.skipBlanks s.lp)) := by
  have hskip : Ensures (skipBlanks (n := n) (m := m)) s fun _ t =>
      t = { s with lp := Sjasmplus.skipBlanks s.lp } := .of_exec rfl rfl
  refine .bind hskip fun _ t ht => .get_bind (.bind (ensures_parseExpression true t) fun o u ho => ?_)
  subst ht
  change o = evaluate (s.exprEnv true) (Sjasmplus.skipBlanks s.lp) at ho
  rw [← ho]
  -- without an argument the alignment is 4
  cases o with
  | none => exact .pure rfl
  | some alignment =>
    refine .after fun _ _ => .after fun _ _ => .ite (fun h => .after fun _ _ => .pure ?_) fun h => ?_
    · rw [writtenAlignment, if_neg fun his => (isAlignment_iff alignment).mp his h]
      rfl
    -- -1 is no power of two, so that it cannot be mistaken for the missing argument
    · have his : IsAlignment alignment := (isAlignment_iff alignment).mpr h
      have hresult : (if alignment = -1 then 4 else alignment) = writtenAlignment (some alignment) := by
        rw [writtenAlignment, if_pos his, if_neg]
        rintro rfl
        exact h (.inl (by decide))
      refine .after fun c _ => .ite (fun _ => .get_bind (.after fun fill _ => ?_)) fun _ => .pure hresult
      cases fill with
      | none => exact .after fun _ _ => .pure hresult
      | some fill => exact .ite (fun _ => .after fun _ _ => .pure hresult) fun _ => .pure hresult

/-- A nested structure adds its labels and members. -/
theorem builds_parseNestedMember {s : AsmState n m} (htable : s.TableFlattened defs (some naam))
    (hst : s.Builds naam fields st) : Ensures (parseNestedMember st) s fun st' t => t.BuildsLine naam
      (fields ++ memberFields defs s naam (Layout.size fields) s.previousIsLabel (.unknown, s.lp))
      st' := by
  have hkeeps : Ensures (parseNestedMember st) s fun _ t => KeepsTable s t :=
    KeepsTable.ensures evaluates_parseNestedMember
  -- behind an error about the end of a definition nothing is promised
  rcases htable with hlog | htable
  · exact hkeeps.mono fun st' t h => .inr (.inl (h.mem_log hlog))
  rcases hst with hlog | ⟨rfl, hfields⟩
  · exact hkeeps.mono fun st' t h => .inr (.inl (h.mem_log hlog))
  have hnothing : ∀ t : AsmState n m, t.BuildsLine st.naam (fields ++ []) st := fun t => by
    rw [List.append_nil]
    exact .inr (.inr ⟨rfl, hfields⟩)
  refine .get_bind ?_
  rcases hname : structureName s.lp with ⟨_ | naam, gl, pp⟩
  · simp only [memberFields, hname]
    exact .pure (hnothing s)
  · simp only [memberFields, hname]
    rcases hzoek : zoek s naam gl with _ | source
    · exact .pure (hnothing s)
    · dsimp only
      -- a structure in itself is an error and adds nothing
      by_cases hself : source.naam = st.naam
      · rw [if_pos hself, if_pos hself]
        exact .after fun _ _ => .after fun _ t => .pure (hnothing t)
      · rw [if_neg hself, if_neg hself]
        obtain ⟨inner, hdefs, hinner⟩ := htable.flattened source (mem_of_zoek hzoek)
          fun h => hself (Option.some.inj h).symm
        rw [hdefs, Option.getD_some]
        refine .after fun _ _ => .after fun _ t => (ensures_copyMembers t).mono fun st' u hst' => ?_
        obtain ⟨kinds, rfl, hdone⟩ := hst'
        refine hdone.imp_right fun hkinds => .inr ⟨?_, ?_⟩
        · rw [Structure.addMember_naam, Structure.addMembers_naam, Structure.addMember_naam,
            Structure.copyLabels_naam]
        · exact .nested s.previousIsLabel hfields hinner (hkinds.trans hinner.lengths)

/-- The alignment that was written is one, or it is zero behind an error. -/
theorem writtenAlignment_cases (o : Option Aint) :
    writtenAlignment o = 0 ∨ IsAlignment (writtenAlignment o) := by
  cases o with
  | none => exact .inr ⟨2, by decide, by decide⟩
  | some alignment =>
    rw [writtenAlignment]
    split_ifs with h
    · exact .inr h
    · exact .inl rfl

/-- The length of a text is the number of its bytes. -/
theorem len_text {len : Aint} (hlen : 0 ≤ len.toInt) {bytes : List Byte}
    (hbytes : bytes.length = len.toInt.toNat) : (MemberKind.text bytes).len = len := by
  show BitVec.ofNat 32 bytes.length = len
  rw [hbytes, ← BitVec.ofInt_natCast, Int.toNat_of_nonneg hlen, BitVec.ofInt_toInt]

/-- A member adds the field that its text says. -/
theorem builds_parseMember (bp : Text) (id : MemberId) {s : AsmState n m}
    (htable : s.TableFlattened defs (some naam)) (hst : s.Builds naam fields st) :
    Ensures (parseMember st bp id) s fun st' t => t.BuildsLine naam
      (fields ++ memberFields defs s naam (Layout.size fields) s.previousIsLabel (id, s.lp)) st' := by
  have hkeeps : Ensures (parseMember st bp id) s fun _ t => KeepsTable s t :=
    KeepsTable.ensures evaluates_parseMember
  have hold := hst
  rcases hst with hlog | ⟨rfl, hfields⟩
  · exact hkeeps.mono fun st' t h => .inr (.inl (h.mem_log hlog))
  have hnothing : ∀ t : AsmState n m, t.BuildsLine st.naam (fields ++ []) st := fun t => by
    rw [List.append_nil]
    exact .inr (.inr ⟨rfl, hfields⟩)
  have hmember : ∀ (kind : MemberKind) (len : Aint) (t : AsmState n m), kind.len = len →
      t.BuildsLine st.naam (fields ++ [.member len]) (st.addMember kind) :=
    fun kind _ _ hlen => hlen ▸ .inr (.inr ⟨rfl, hfields.member kind⟩)
  -- one case for each kind of member; the length is what the text says, or the default
  cases id with
  | unknown => exact builds_parseNestedMember htable hold
  | value type =>
    refine .after fun _ _ => .after fun _ _ => .get_bind (.after fun _ _ => .pure (hmember _ _ _ ?_))
    cases type <;> rfl
  | block =>
    refine .bind (ensures_blockArgument 1 s) fun len _ hlen => .after fun _ _ => ?_
    exact .ite (fun _ => .after fun _ _ => .after fun _ _ => .pure (hmember _ _ _ hlen))
      fun _ => .pure (hmember _ _ _ hlen)
  | align =>
    refine .bind (ensures_parseAlignArguments bp s) fun r t hval => .pure ?_
    simp only [memberFields, ← hval]
    generalize (if r.1 = -1 then (4 : Aint) else r.1) = val at hval ⊢
    have halign : val = 0 ∨ IsAlignment val := hval ▸ writtenAlignment_cases _
    rw [← hfields.size, ← alignmentGap_eq halign]
    by_cases hgap : (alignmentGap st.noffset val).toInt < 1
    · rw [if_pos hgap, if_neg (by omega), List.append_nil]
      exact .inr (.inr ⟨rfl, hfields.align _⟩)
    · rw [if_neg hgap, if_pos (by omega)]
      exact .inr (.inr ⟨rfl, (hfields.align _).member (.block _ r.2)⟩)
  | text =>
    refine .bind (ensures_parseExpression true s) fun o t ho => ?_
    simp only [memberFields, ← ho]
    cases o with
    | none =>
      refine .ite (fun _ => .after fun _ _ => .after fun _ t => .pure (hnothing t)) fun h => ?_
      exact absurd (.inl (by decide)) h
    | some len =>
      show Ensures (ite (len.toInt < 1 ∨ textMaxSize < len.toInt) _ _) _ _
      by_cases hlen : 1 ≤ len.toInt ∧ len.toInt ≤ 8192
      · rw [if_neg (by unfold textMaxSize; omega)]
        dsimp only
        rw [if_pos hlen]
        refine .after fun c u => .ite (fun _ => ?_) fun _ => ?_
        · exact .bind (ensures_getStructText (by simp) u) fun bytes _ hbytes =>
            .pure (hmember _ _ _ (len_text (by omega) hbytes))
        · refine .after fun _ _ => .get_bind (.after fun _ _ => .pure (hmember _ _ _ ?_))
          exact len_text (by omega) List.length_replicate
      · rw [if_pos (by unfold textMaxSize; omega)]
        dsimp only
        rw [if_neg hlen]
        exact .after fun _ _ => .after fun _ t => .pure (hnothing t)

/-- What follows a member on its line stays on the line. -/
theorem buildsLine_of_evaluates {α : Type} {p : AsmProgram n m α} (hp : Keeps Evaluates p)
    {s : AsmState n m} (hlines : (p.final s).lines = s.lines) (hst : s.BuildsLine naam fields st) :
    Ensures p s fun _ t => t.BuildsLine naam fields st := by
  intro a t hexec
  have ht : p.final s = t := by rw [final, hexec]
  rw [ht] at hlines
  exact hst.imp hlines.trans (ht ▸ KeepsTable.of_evaluates hp s).builds

theorem builds_parseStructMember {s : AsmState n m} (htable : s.TableFlattened defs (some naam))
    (hst : s.Builds naam fields st) : Ensures (parseStructMember st) s fun st' t => t.BuildsLine naam
      (fields ++ memberFields defs s naam (Layout.size fields) s.previousIsLabel (memberAt s.lp))
      st' := by
  rw [parseStructMember, getStructMemberId_eq]
  -- the flags do not matter to what is read
  set t : AsmState n m := { s with flags := { s.flags with isResultAffected := false } } with ht
  set u : AsmState n m := { t with lp := (memberAt s.lp).2 } with hu
  have hclear : Ensures (clearResultAffected (n := n) (m := m)) s fun _ x => x = t := .of_exec rfl rfl
  have hscan : Ensures (scan (n := n) (m := m) memberAt) t fun id x => id = (memberAt s.lp).1 ∧ x = u :=
    .of_exec rfl ⟨rfl, rfl⟩
  refine .get_bind (.bind hclear fun _ x hx => ?_)
  subst hx
  refine .bind hscan fun id x hx => ?_
  obtain ⟨rfl, rfl⟩ := hx
  have hkeeps : KeepsTable s u := ⟨List.prefix_rfl, rfl⟩
  have hmember := builds_parseMember s.lp (memberAt s.lp).1 (hkeeps.tableFlattened htable)
    (hkeeps.builds hst)
  rw [show memberFields defs u = memberFields defs s from memberFields_congr rfl rfl rfl] at hmember
  refine .bind hmember fun st' v hv =>
    .bind (buildsLine_of_evaluates evaluates_checkAndWarn ?_ hv) fun _ w hw => .pure hw
  rw [checkAndWarn, final_bind_of_some (exec_get v)]
  unfold Program.when
  split_ifs <;> rfl

/-- What a field label leaves behind: the text of the member, and whether there is a label. -/
structure ReadsLabel (s t : AsmState n m) : Prop where
  keeps : KeepsTable s t
  env : t.exprEnv true = s.exprEnv true
  scope : t.scope = s.scope
  text : Sjasmplus.skipBlanks t.lp = lineMember s.lp
  previousIsLabel : t.previousIsLabel = lineLabel s.lp

/-- The field label of a line is recorded at the size so far. -/
theorem ensures_parseStructLabel (st : Structure) (s : AsmState n m) :
    Ensures (parseStructLabel st) s fun st' t => ReadsLabel s t ∧
      st' = (lineLabel s.lp).elim st st.addLabel := by
  refine .get_bind (.bind (.of_exec (exec_modify _ s) (Q := fun _ t => t = { s with
    previousIsLabel := none }) rfl) fun _ t ht => ?_)
  subst ht
  have hmodify : ∀ {f : AsmState n m → AsmState n m} (s : AsmState n m),
      Ensures (modify f) s fun _ t => t = f s := fun s => .of_exec (exec_modify _ s) rfl
  -- a line that starts with a blank has no label
  by_cases hwhite : white (cur s.lp) = true
  · rw [if_pos hwhite]
    have hlabel : lineLabel s.lp = none := if_pos (.inl hwhite)
    have htext : lineMember s.lp = Sjasmplus.skipBlanks s.lp := if_pos hwhite
    exact .pure ⟨⟨⟨List.prefix_rfl, rfl⟩, rfl, rfl, htext.symm, hlabel.symm⟩, by rw [hlabel]; rfl⟩
  · rw [if_neg hwhite]
    have htext : Sjasmplus.skipBlanks (behindFieldLabel s.lp) = lineMember s.lp := by
      rw [lineMember, if_neg hwhite]
      exact skipBlanks_skipBlanks _
    refine .bind (hmodify _) fun _ t ht => ?_
    subst ht
    -- a temporary label is reported and not recorded
    by_cases hdigit : (cur (fieldLabel s.lp)).isDigit = true
    · have hlabel : lineLabel s.lp = none := if_pos (.inr hdigit)
      refine .ite (fun _ => .bind (.of_exec (exec_modify _ _) (Q := fun _ u => ReadsLabel s u) ?_)
        fun _ u hu => .pure ⟨hu, by rw [hlabel]; rfl⟩) fun h => absurd hdigit h
      exact ⟨⟨List.prefix_append _ _, rfl⟩, rfl, rfl, htext, hlabel.symm⟩
    · have hlabel : lineLabel s.lp = some (fieldLabel s.lp) := if_neg (by tauto)
      refine .ite (fun h => absurd h hdigit) fun _ => .bind (hmodify _) fun _ u hu => .pure ?_
      subst hu
      exact ⟨⟨⟨List.prefix_rfl, rfl⟩, rfl, rfl, htext, hlabel.symm⟩, by rw [hlabel]; rfl⟩

/-- A line adds the fields that its text says. -/
theorem builds_parseStructLine {s : AsmState n m} (htable : s.TableFlattened defs (some naam))
    (hst : s.Builds naam fields st) : Ensures (parseStructLine st) s fun st' t =>
      t.BuildsLine naam (fields ++ lineFields defs s naam (Layout.size fields)) st' := by
  refine .get_bind ?_
  unfold lineFields
  by_cases hempty : cur s.lp = '\x00'
  · rw [if_pos hempty, if_pos hempty, List.append_nil]
    exact .pure (.inr hst)
  rw [if_neg hempty, if_neg hempty, ← List.append_assoc]
  -- the label comes first, at the size so far
  refine .bind (ensures_parseStructLabel st s) fun st₁ t ht => ?_
  obtain ⟨hreads, rfl⟩ := ht
  set labelled : Fields := fields ++ (lineLabel s.lp).toList.map .label with hlabelled
  have hsize : Layout.size labelled = Layout.size fields := by
    rw [hlabelled, Layout.size_append]
    cases lineLabel s.lp with
    | none => exact add_zero _
    | some label => exact add_zero _
  have hst : t.Builds naam labelled ((lineLabel s.lp).elim st st.addLabel) := by
    refine (hreads.keeps.builds hst).imp_right fun h => ?_
    rw [hlabelled]
    cases lineLabel s.lp with
    | none => exact ⟨h.1, (List.append_nil fields).symm ▸ h.2⟩
    | some label => exact ⟨h.1, h.2.label label⟩
  set u : AsmState n m := { t with lp := lineMember s.lp } with hu
  have hskip : Ensures (skipBlanks (n := n) (m := m)) t fun b x =>
      b = decide (cur (lineMember s.lp) = '\x00') ∧ x = u := by
    have hexec : (skipBlanks (n := n) (m := m)).exec t
        = (some (decide (cur (Sjasmplus.skipBlanks t.lp) = '\x00')),
          { t with lp := Sjasmplus.skipBlanks t.lp }) := rfl
    rw [hreads.text] at hexec
    exact .of_exec hexec ⟨rfl, rfl⟩
  refine .bind hskip fun b x hx => ?_
  obtain ⟨rfl, rfl⟩ := hx
  have htu : KeepsTable t u := ⟨List.prefix_rfl, rfl⟩
  -- a line may end behind its label
  by_cases hend : cur (lineMember s.lp) = '\x00'
  · rw [if_pos hend, if_pos (decide_eq_true hend), List.append_nil]
    exact .pure (.inr (htu.builds hst))
  · rw [if_neg hend, if_neg (by simpa using hend)]
    -- the member is read where the label has left the text
    have hsu : KeepsTable s u := IsTrans.trans _ _ _ hreads.keeps htu
    have hmember := builds_parseStructMember (hsu.tableFlattened htable) (htu.builds hst)
    rw [hsize, show memberFields defs u = memberFields defs s from
      memberFields_congr hreads.env hreads.scope hreads.keeps.structures,
      show u.previousIsLabel = lineLabel s.lp from hreads.previousIsLabel] at hmember
    refine .bind hmember fun st₂ v hv => .bind (buildsLine_of_evaluates evaluates_scan rfl hv)
      fun _ w hw => .ite (fun _ => .pure hw) fun _ => .get_bind ?_
    exact .bind (buildsLine_of_evaluates evaluates_error rfl hw) fun _ x hx => .pure hx

end AsmProgram

/-! ### Runs -/

namespace AsmState

namespace KeepsTable

theorem validateLabel {naam : Text} {setNameSpace ignoreCharAfter : Bool} :
    Keeps (KeepsTable (n := n) (m := m))
      (AsmProgram.validateLabel naam setNameSpace ignoreCharAfter) := by
  have hmain : ∀ label, Keeps (KeepsTable (n := n) (m := m))
      (modify (setMainLabel setNameSpace naam label)) := by
    intro label s
    cases label with
    | none => exact refl s
    | some label =>
      show KeepsTable s (if setNameSpace then _ else _)
      split_ifs
      · exact ⟨List.prefix_rfl, rfl⟩
      · exact refl s
  exact .get_bind fun t => .bind (of_evaluates evaluates_report) fun _ => .bind (hmain _) fun _ =>
    .pure _

theorem tryInsert {tp : Text} {val : Aint} {traits : Traits} {equPageNum : Page} :
    Keeps (KeepsTable (n := n) (m := m)) (AsmProgram.tryInsert tp val traits equPageNum) := by
  intro s
  rw [final, AsmProgram.tryInsert, exec_bind, exec_get]
  dsimp only
  rcases h : s.insert tp val traits equPageNum with _ | t
  · exact refl s
  · obtain ⟨symbol, rfl, -⟩ := insert_eq h
    exact ⟨List.prefix_rfl, rfl⟩

theorem setSize {name : Text} {size : Aint} :
    Keeps (KeepsTable (n := n) (m := m)) (AsmProgram.setSize name size) := by
  intro s
  rcases final_setSize name size s with ⟨-, hs⟩ | ⟨label, -, hs⟩ <;> rw [hs]
  · exact refl s
  · exact ⟨List.prefix_rfl, rfl⟩

theorem insertSingleStructLabel {setNameSpace : Bool} {name : Text} {isRelocatable : Bool}
    {value : Aint} {isDefine : Bool} : Keeps (KeepsTable (n := n) (m := m))
      (AsmProgram.insertSingleStructLabel setNameSpace name isRelocatable value isDefine) := by
  have hvalue : Keeps (KeepsTable (n := n) (m := m)) (labelValue name) := .get_bind fun _ =>
    .bind (of_evaluates (evaluates_modify fun _ => rfl)) fun _ => .get_bind fun _ =>
      .bind (of_evaluates evaluates_read) fun _ =>
        .bind (of_evaluates (evaluates_modify fun _ => rfl)) fun _ => .pure _
  refine .bind (.ite (.pure _) validateLabel) fun fullName => ?_
  cases fullName with
  | none => exact .pure _
  | some fullName =>
    refine .get_bind fun _ => .ite (.bind hvalue fun oval => ?_) ?_
    · cases oval with
      | none => exact .bind (of_evaluates evaluates_error) fun _ => .exit
      | some oval => exact .when (of_evaluates evaluates_error)
    · exact .bind (of_evaluates (evaluates_modify fun _ => rfl)) fun _ => .bind tryInsert fun _ =>
        .ite (.when setSize) (of_evaluates evaluates_error)

theorem insertStructSubLabels {mainName : Text} {isRelocatable : Bool} {address : Aint}
    {isDefine : Bool} {members : List StructureLabel} : Keeps (KeepsTable (n := n) (m := m))
      (AsmProgram.insertStructSubLabels mainName isRelocatable address isDefine members) := by
  induction members with
  | nil => exact .pure _
  | cons member members ih => exact .bind insertSingleStructLabel fun _ => ih

theorem deflab {st : Structure} : Keeps (KeepsTable (n := n) (m := m)) (AsmProgram.deflab st) :=
  .bind insertSingleStructLabel fun _ => insertStructSubLabels

end KeepsTable

/-- The states of runs, with the definitions that the texts of the run say: passes, devices,
definitions of structures at any text, and any other statement, which leaves the table of structures
alone.  A fatal error ends a run. -/
inductive StructureRun : {n m : Nat} → Definitions → AsmState n m → Prop
  | start (n m : Nat) : StructureRun (fun _ => none) (AsmState.start n m)
  | pass {n m : Nat} {defs : Definitions} {s : AsmState n m} :
      StructureRun defs s → StructureRun (fun _ => none) s.initPass
  | device {n m n' m' : Nat} {defs : Definitions} {s : AsmState n m} (device : Option (Device n' m'))
      (currentSlot : Option (Fin n')) :
      StructureRun defs s → StructureRun defs (s.withDevice device currentSlot)
  | struct {n m : Nat} {defs : Definitions} {s t : AsmState n m} (lp : Text)
      (lines : List SourceLine) : dirSTRUCT.exec (s.atText lp lines) = (some (), t) →
      StructureRun defs s → StructureRun (readDefinition defs (s.atText lp lines)) t
  | other {n m : Nat} {defs : Definitions} {s : AsmState n m} {program : AsmProgram n m Unit}
      (lp : Text) (lines : List SourceLine) : Keeps KeepsTable program →
      StructureRun defs s → StructureRun defs (program.final (s.atText lp lines))

variable {defs : Definitions} {naam : Text} {fields : Fields} {st : Structure}

/-- The end of a definition puts the structure into the table. -/
theorem TableFlattened.endStructure {s : AsmState n m} (htable : s.TableFlattened defs (some naam))
    (hst : s.Builds naam fields st) : Ensures (AsmProgram.endStructure (some st)) s fun _ t =>
      t.TableFlattened (Function.update defs naam (some fields)) none := by
  rw [AsmProgram.endStructure]
  refine .bind (.of_exec (exec_modify _ s) (Q := fun _ t => t.TableFlattened
    (Function.update defs naam (some fields)) none) ?_) fun _ t ht =>
    (Ensures.of_keeps (KeepsTable.deflab)).mono fun _ u hu => hu.tableFlattened ht
  rcases htable with hlog | htable
  · exact .inl hlog
  refine hst.imp_right fun ⟨hnaam, hflattened⟩ => ?_
  subst hnaam
  -- the structures of other names keep their definitions
  refine ⟨fun st' hst' _ => ?_, fun other hother => ?_⟩
  · obtain ⟨old, hold, rfl⟩ := List.mem_map.mp hst'
    by_cases hname : old.naam = st.naam
    · rw [if_pos hname, Function.update_self]
      exact ⟨fields, rfl, hflattened⟩
    · rw [if_neg hname, Function.update_of_ne hname]
      exact htable.flattened old hold fun h => hname (Option.some.inj h).symm
  · have hold : ∃ old ∈ s.structures, old.naam = other := by
      refine htable.named other (hother.resolve_right (by simp) |> fun h => ?_)
      by_cases hname : other = st.naam
      · exact .inr (congrArg some hname.symm)
      · rw [Function.update_of_ne hname] at h
        exact .inl h
    obtain ⟨old, hmem, rfl⟩ := hold
    refine ⟨_, List.mem_map_of_mem hmem, ?_⟩
    split_ifs with hname
    · exact hname.symm
    · rfl

/-- A definition without its end is reported, and the labels are inserted all the same. -/
theorem unexpectedEnd_mem {s : AsmState n m} {st : Option Structure} : Ensures (do
      error "[STRUCT] Unexpected end of structure"
      AsmProgram.endStructure st) s fun _ t => unexpectedEnd ∈ t.log := by
  have herror : Ensures (error (n := n) (m := m) "[STRUCT] Unexpected end of structure") s fun _ t =>
      Sjasmplus.unexpectedEnd ∈ t.log :=
    .of_exec rfl (List.mem_append_right _ (List.mem_singleton_self _))
  refine .bind herror fun _ t ht => ?_
  cases st with
  | none => exact .pure ht
  | some st =>
    exact .bind (.of_exec (exec_modify _ t) (Q := fun _ u => Sjasmplus.unexpectedEnd ∈ u.log) ht)
      fun _ u hu => (Ensures.of_keeps KeepsTable.deflab).mono fun _ v hv => hv.mem_log hu

/-- The lines of a definition build what they say. -/
theorem TableFlattened.structureLines {fuel : Nat} {s : AsmState n m}
    (htable : s.TableFlattened defs (some naam)) (hst : s.BuildsLine naam fields st) :
    Ensures (AsmProgram.structureLines fuel (some st)) s fun _ t => t.TableFlattened
      (Function.update defs naam (some (definitionFields defs naam fuel st fields s))) none := by
  -- by induction on the fuel, a line a turn
  induction fuel generalizing st fields s with
  | zero => exact unexpectedEnd_mem.mono fun _ _ h => .inl h
  | succ fuel ih =>
    rw [AsmProgram.structureLines, definitionFields]
    refine .get_bind ?_
    rcases hlines : s.lines with _ | ⟨line, lines⟩
    · exact unexpectedEnd_mem.mono fun _ _ h => .inl h
    · dsimp only
      have hkeeps : KeepsTable s { s with lp := line.substituted, lines := lines } :=
        ⟨List.prefix_rfl, rfl⟩
      refine .bind (.of_exec (exec_modify _ s) (Q := fun _ t => t = { s with
        lp := line.substituted, lines := lines }) rfl) fun _ t ht => ?_
      subst ht
      generalize ({ s with lp := line.substituted, lines := lines } : AsmState n m) = t at hkeeps ⊢
      have htable : t.TableFlattened defs (some naam) := hkeeps.tableFlattened htable
      have hst : t.Builds naam fields st := hkeeps.builds (hst.resolve_left (by simp [hlines]))
      -- `ENDS` puts the structure into the table, any other line adds to it
      by_cases hends : endsKeyword line.line = true
      · rw [if_pos hends, if_pos hends]
        exact htable.endStructure hst
      · rw [if_neg hends, if_neg hends]
        have hboth := (builds_parseStructLine htable hst).and
          (KeepsTable.ensures (s := t) evaluates_parseStructLine)
        rcases hexec : (parseStructLine st).exec t with ⟨_ | st', u⟩
        · -- a fatal error would end the program here
          intro a v hfinal
          rw [exec_bind, AsmProgram.structureLine, exec_bind, hexec] at hfinal
          exact absurd (congrArg Prod.fst hfinal) (by simp)
        · have hu := hboth st' u hexec
          have hline : (AsmProgram.structureLine (some st)).exec t = (some (some st'), u) := by
            rw [AsmProgram.structureLine, exec_bind_of_some hexec, exec_pure]
          refine .bind (.of_exec hline (Q := fun o v => o = some st' ∧ v = u) ⟨rfl, rfl⟩) fun o v hv => ?_
          obtain ⟨rfl, rfl⟩ := hv
          exact ih (hu.2.tableFlattened htable) hu.1

/-- Reading the lines of a definition only adds messages. -/
theorem ensures_structureLines_log (fuel : Nat) (st : Option Structure) (s : AsmState n m) :
    Ensures (AsmProgram.structureLines fuel st) s fun _ t => s.log <+: t.log := by
  have hend : ∀ (st : Option Structure) (s : AsmState n m),
      Ensures (AsmProgram.endStructure st) s fun _ t => s.log <+: t.log := by
    intro st s
    cases st with
    | none => exact .pure List.prefix_rfl
    | some st =>
      exact .bind (.of_exec (exec_modify _ s) (Q := fun _ t => s.log <+: t.log) List.prefix_rfl)
        fun _ t ht => (Ensures.of_keeps KeepsTable.deflab).mono fun _ u hu => ht.trans hu.log
  have herror : ∀ (st : Option Structure) (s : AsmState n m), Ensures (do
      error "[STRUCT] Unexpected end of structure"
      AsmProgram.endStructure st) s fun _ t => s.log <+: t.log := fun st s =>
    .bind (KeepsTable.ensures evaluates_error) fun _ t ht =>
      (hend st t).mono fun _ u hu => ht.log.trans hu
  induction fuel generalizing st s with
  | zero => exact herror st s
  | succ fuel ih =>
    rw [AsmProgram.structureLines]
    refine .get_bind ?_
    rcases s.lines with _ | ⟨line, lines⟩
    · exact herror st s
    · refine .bind (.of_exec (exec_modify _ s) (Q := fun _ t => s.log <+: t.log) List.prefix_rfl)
        fun _ t ht => .ite (fun _ => (hend st t).mono fun _ u hu => ht.trans hu) fun _ => ?_
      -- no line takes a message back
      have hline : Ensures (AsmProgram.structureLine st) t fun _ u => t.log <+: u.log := by
        cases st with
        | none => exact .pure List.prefix_rfl
        | some st => exact .bind (KeepsTable.ensures evaluates_parseStructLine) fun _ u hu => .pure hu.log
      exact .bind hline fun st' u hu => (ih st' u).mono fun _ v hv => ht.trans (hu.trans hv)

/-- Where the structure exists already the lines are skipped. -/
theorem TableFlattened.skippedLines {fuel : Nat} {s : AsmState n m}
    (htable : s.TableFlattened defs none) : Ensures (AsmProgram.structureLines fuel none) s fun _ t =>
      t.TableFlattened defs none := by
  induction fuel generalizing s with
  | zero => exact unexpectedEnd_mem.mono fun _ _ h => .inl h
  | succ fuel ih =>
    rw [AsmProgram.structureLines]
    refine .get_bind ?_
    rcases s.lines with _ | ⟨line, lines⟩
    · exact unexpectedEnd_mem.mono fun _ _ h => .inl h
    · refine .bind (.of_exec (exec_modify _ s) (Q := fun _ t => t.TableFlattened defs none) ?_)
        fun _ t ht => .ite (fun _ => .pure ht) fun _ => ih ht
      refine KeepsTable.tableFlattened ?_ htable
      exact ⟨List.prefix_rfl, rfl⟩

/-- A matcher moves the parsing pointer only. -/
theorem ensures_scan {α : Type} (f : Text → α × Text) (s : AsmState n m) :
    Ensures (AsmProgram.scan f) s fun a t => a = (f s.lp).1 ∧ t = { s with lp := (f s.lp).2 } :=
  .of_exec rfl ⟨rfl, rfl⟩

/-- A label that does not set the name space leaves messages only. -/
theorem ensures_validateLabel (naam : Text) (ignoreCharAfter : Bool) (s : AsmState n m) :
    Ensures (AsmProgram.validateLabel naam false ignoreCharAfter) s fun o t =>
      o = (Sjasmplus.validateLabel s.scope false ignoreCharAfter naam).1 ∧
        t = { s with log := s.log ++ (Sjasmplus.validateLabel s.scope false ignoreCharAfter naam).2 } := by
  refine .of_exec (exec_validateLabel naam false ignoreCharAfter s) ⟨rfl, ?_⟩
  show setMainLabel false naam (Sjasmplus.validateLabel s.scope false ignoreCharAfter naam).1 _ = _
  cases (Sjasmplus.validateLabel s.scope false ignoreCharAfter naam).1 <;> rfl

/-- What `STRUCT` finds in front of its lines: no name or no offset, or both, and the structure is added
under its name. -/
inductive Starts (s t : AsmState n m) : Option (Option Structure) → Prop
  | nothing : definitionName s = none ∨ definitionOffset s = none → KeepsTable s t → Starts s t none
  | added {naam : Text} {offset : Aint} {u : AsmState n m} {st : Option Structure} :
      definitionName s = some naam → definitionOffset s = some offset → KeepsTable s u →
      (addStructure naam offset).exec u = (some st, t) → Starts s t (some st)

/-- The offset of a definition is what its text says. -/
theorem ensures_structureOffset (s : AsmState n m) : Ensures (structureOffset (n := n) (m := m)) s
    fun o t => KeepsTable s t ∧ o =
      if cur (Sjasmplus.skipBlanks s.lp) = ',' ∧ cur (Sjasmplus.skipBlanks s.lp).tail ≠ ',' then
        evaluate (s.exprEnv false) (Sjasmplus.skipBlanks s.lp).tail
      else some 0 := by
  refine .bind (ensures_scan _ s) fun b u hu => ?_
  obtain ⟨rfl, rfl⟩ := hu
  -- the offset is behind one comma; two commas leave it out
  by_cases hcomma : cur (Sjasmplus.skipBlanks s.lp) = ',' ∧ cur (Sjasmplus.skipBlanks s.lp).tail ≠ ','
  · dsimp only
    rw [if_pos hcomma, if_pos hcomma]
    set t : AsmState n m := { s with
      lp := (Sjasmplus.skipBlanks s.lp).tail, isLabelNotFound := false } with ht
    have hst : KeepsTable s t := ⟨List.prefix_rfl, rfl⟩
    have hvalue := (ensures_parseExpression false t).and
      (KeepsTable.ensures (s := t) evaluates_parseExpressionNoSyntaxError)
    refine .bind (.of_exec (exec_modify _ _) (Q := fun _ u => u = t) rfl) fun _ u hu => ?_
    subst hu
    refine .bind hvalue fun o v hv => ?_
    have hkeeps : KeepsTable s v := IsTrans.trans _ _ _ hst hv.2
    rw [show evaluate (s.exprEnv false) (Sjasmplus.skipBlanks s.lp).tail = o from hv.1.symm]
    cases o with
    | none => exact .get_bind (.bind (KeepsTable.ensures evaluates_error) fun _ w hw =>
        .pure ⟨IsTrans.trans _ _ _ hkeeps hw, rfl⟩)
    | some offset =>
      exact .get_bind (.bind (KeepsTable.ensures (.when evaluates_error)) fun _ w hw =>
        .pure ⟨IsTrans.trans _ _ _ hkeeps hw, rfl⟩)
  · dsimp only
    rw [if_neg hcomma, if_neg hcomma]
    exact .pure ⟨⟨List.prefix_rfl, rfl⟩, rfl⟩

/-- The name and the offset of a definition are what its text says. -/
theorem starts_structureStart (s : AsmState n m) :
    Ensures (structureStart (n := n) (m := m)) s fun o t => Starts s t o := by
  refine .bind (ensures_scan _ s) fun _ t ht => .get_bind ?_
  obtain ⟨-, rfl⟩ := ht
  refine .bind (ensures_validateLabel _ true _) fun label u hu => ?_
  obtain ⟨rfl, rfl⟩ := hu
  dsimp only
  -- without a valid name there is no definition
  rcases hname : (Sjasmplus.validateLabel s.scope false true (Sjasmplus.skipBlanks s.lp)).1 with
    _ | validLabel
  · refine .bind (.of_exec (exec_modify _ _) (Q := fun _ v => KeepsTable s v) ?_) fun _ v hv =>
      .pure (.nothing (.inl hname) hv)
    exact ⟨List.prefix_append _ _, rfl⟩
  · refine .bind (ensures_scan _ _) fun _ v hv => ?_
    obtain ⟨-, rfl⟩ := hv
    refine .bind (ensures_structureOffset _) fun o w hw => ?_
    obtain ⟨hkeeps, ho⟩ := hw
    have hsw : KeepsTable s w := ⟨(List.prefix_append _ _).trans hkeeps.log, hkeeps.structures⟩
    -- and without an offset that can be read, neither
    cases o with
    | none => exact .pure (.nothing (.inr ho.symm) hsw)
    | some offset =>
      refine .bind (KeepsTable.ensures evaluates_scan) fun atEnd x hx => .get_bind ?_
      refine .bind (KeepsTable.ensures (.when evaluates_error)) fun _ y hy => ?_
      have hsy : KeepsTable s y := IsTrans.trans _ _ _ hsw (IsTrans.trans _ _ _ hx hy)
      rw [map_eq_pure_bind]
      refine .bind (R := fun st z => (addStructure validLabel offset).exec y = (some st, z))
        (fun _ _ h => h) fun st z hz => .pure (.added hname ho.symm hsy hz)

/-- A structure that exists already is an error, a new one is added. -/
theorem exec_addStructure (naam : Text) (offset : Aint) (s : AsmState n m) :
    (s.structures.any (·.naam = naam) = true ∧ (addStructure naam offset).exec s = (some none,
      Program.final (error "[STRUCT] Structure already exist" (some naam)) s)) ∨
    (s.structures.any (·.naam = naam) = false ∧ (addStructure naam offset).exec s =
      (some (some (.init naam offset)),
        { s with structures := .init naam offset :: s.structures })) := by
  rw [addStructure, exec_bind_of_some (exec_get s)]
  by_cases hany : s.structures.any (·.naam = naam) = true
  · rw [if_pos hany]
    exact .inl ⟨hany, rfl⟩
  · rw [if_neg hany]
    exact .inr ⟨Bool.not_eq_true _ ▸ hany, rfl⟩

/-- The definitions that were read are those whose names are in the table. -/
theorem HoldsDefinitions.isSome_iff {u : AsmState n m} (h : u.HoldsDefinitions defs none)
    (naam : Text) : (defs naam).isSome = true ↔ u.structures.any (·.naam = naam) = true := by
  rw [List.any_eq_true]
  constructor
  · intro hsome
    obtain ⟨old, hold, hold'⟩ := h.named naam (.inl hsome)
    exact ⟨old, hold, decide_eq_true hold'⟩
  · rintro ⟨old, hold, hold'⟩
    obtain ⟨fields, hfields, -⟩ := h.flattened old hold (by simp)
    rw [← of_decide_eq_true hold', hfields]
    rfl

/-- A structure that is added is in work. -/
theorem HoldsDefinitions.init {u : AsmState n m} (h : u.HoldsDefinitions defs none) (naam : Text)
    (offset : Aint) :
    HoldsDefinitions defs (some naam) { u with structures := .init naam offset :: u.structures } := by
  constructor
  · intro st hst hne
    rcases List.mem_cons.mp hst with rfl | hst
    · exact absurd (congrArg some (Structure.init_naam naam offset).symm) hne
    · exact h.flattened st hst (by simp)
  · rintro other (hother | hother)
    · obtain ⟨old, hold, hold'⟩ := h.named other (.inl hother)
      exact ⟨old, List.mem_cons_of_mem _ hold, hold'⟩
    · refine ⟨_, List.mem_cons_self, ?_⟩
      rw [Structure.init_naam]
      exact Option.some.inj hother

/-- `STRUCT` adds a flattened definition to the table. -/
theorem TableFlattened.dirSTRUCT {s : AsmState n m} (htable : s.TableFlattened defs none) :
    Ensures AsmProgram.dirSTRUCT s fun _ t => t.TableFlattened (readDefinition defs s) none := by
  rw [dirSTRUCT_eq]
  have hstart : Ensures (structureStart (n := n) (m := m)) s fun o t =>
      Starts s t o ∧ structureStart.final s = t := by
    intro o t hexec
    exact ⟨starts_structureStart s o t hexec, congrArg Prod.snd hexec⟩
  refine .bind hstart fun o t ht => ?_
  obtain ⟨hstarts, hfinal⟩ := ht
  -- no definition starts, or it is added to the table under its name
  cases hstarts with
  | nothing hmissing hkeeps =>
    have hread : readDefinition defs s = defs := by
      unfold readDefinition
      rcases hmissing with h | h
      · rw [h]
      · rw [h]
        cases definitionName s <;> rfl
    rw [hread]
    exact .pure (hkeeps.tableFlattened htable)
  | @added naam offset u st hname hoffset hkeeps hexec =>
    refine .get_bind ?_
    have hadd := exec_addStructure naam offset u
    rw [hexec] at hadd
    have htable : u.TableFlattened defs none := hkeeps.tableFlattened htable
    rcases htable with hlog | htable
    · -- an earlier definition had no end
      have hut : u.log <+: t.log := by
        rcases hadd with ⟨-, h⟩ | ⟨-, h⟩ <;> rw [(Prod.mk.inj h).2]
        exact List.prefix_append _ _
      exact (ensures_structureLines_log _ _ t).mono fun _ v hv => .inl (hv.subset (hut.subset hlog))
    have hnamed := htable.isSome_iff naam
    -- a name that is taken is an error: the lines are read and dropped
    rcases hadd with ⟨hany, h⟩ | ⟨hany, h⟩ <;> obtain ⟨hst, rfl⟩ := Prod.mk.inj h <;>
      obtain rfl := Option.some.inj hst
    · have hread : readDefinition defs s = defs := by
        simp only [readDefinition, hname, hoffset, hnamed.mpr hany, if_true]
      rw [hread]
      refine TableFlattened.skippedLines (KeepsTable.tableFlattened (s := u) ?_ (.inr htable))
      exact ⟨List.prefix_append _ _, rfl⟩
    · have hnew : ¬(defs naam).isSome = true := fun h => by
        rw [hnamed.mp h] at hany
        cases hany
      have hread : readDefinition defs s = Function.update defs naam (some (definitionFields defs naam
          u.lines.length (.init naam offset) (offsetFields offset)
          { u with structures := .init naam offset :: u.structures })) := by
        simp only [readDefinition, hname, hoffset, hfinal]
        rw [if_neg hnew]
      rw [hread]
      exact TableFlattened.structureLines (.inr (htable.init naam offset))
        (.inr (.inr ⟨Structure.init_naam naam offset, .init naam offset⟩))

/-- **In every run the table holds the definitions as their texts say**, unless one without its end was
reported. -/
theorem StructureRun.tableFlattened {s : AsmState n m} (hs : StructureRun defs s) :
    s.TableFlattened defs none := by
  have hempty : ∀ {n m : Nat} (s : AsmState n m), s.structures = [] →
      s.TableFlattened (fun _ => none) none := fun s h =>
    .inr ⟨fun st hst => absurd (h ▸ hst) List.not_mem_nil, fun _ h => absurd h (by simp)⟩
  induction hs with
  | start n m => exact hempty _ rfl
  | pass _ _ => exact hempty _ rfl
  | device _ _ _ ih => exact ih.imp_right fun h => ⟨h.flattened, h.named⟩
  | @struct n m defs s t lp lines hexec _ ih =>
    have hkeeps : KeepsTable s (s.atText lp lines) := ⟨List.prefix_rfl, rfl⟩
    exact (hkeeps.tableFlattened ih).dirSTRUCT () t hexec
  | @other n m defs s program lp lines hprogram _ ih =>
    have hkeeps : KeepsTable s (s.atText lp lines) := ⟨List.prefix_rfl, rfl⟩
    exact (hprogram _).tableFlattened (hkeeps.tableFlattened ih)

end AsmState

/-! ### Labels of nested structures -/

/-- No keyword for a member is at the text. -/
def NoMemberKeyword (p : Text) : Prop :=
  cur p ≠ '#' ∧ (memberKeywords.findSome? fun kw => cmphstr p kw.1.toList) = none

/-- The line is a field label with an instance of another structure. -/
structure NestedLine (s : AsmState n m) (st : Structure) (outer : Text) (source : Structure) :
    Prop where
  label : cur s.lp ≠ '\x00' ∧ ¬ (white (cur s.lp) = true) ∧ fieldLabel s.lp = outer ∧
    ¬ ((cur outer).isDigit = true)
  member : cur (behindFieldLabel s.lp) ≠ '\x00' ∧ NoMemberKeyword (behindFieldLabel s.lp)
  source : ∃ naam gl pp, structureName (behindFieldLabel s.lp) = (some naam, gl, pp) ∧
    zoek s naam gl = some source ∧ source.naam ≠ st.naam

namespace AsmProgram

/-- A field label is recorded at the size so far. -/
theorem exec_parseStructLabel {s : AsmState n m} {st : Structure} {outer : Text}
    {source : Structure} (h : NestedLine s st outer source) :
    (parseStructLabel st).exec s = (some (st.addLabel outer),
      { s with lp := behindFieldLabel s.lp, previousIsLabel := some outer }) := by
  obtain ⟨-, hwhite, rfl, hdigit⟩ := h.label
  rw [parseStructLabel, exec_bind_of_some (exec_get s), exec_bind_of_some (exec_modify _ s),
    if_neg hwhite, exec_bind_of_some (exec_modify _ _)]
  exact congrArg (exec · _) (if_neg hdigit)

theorem exec_getStructMemberId {s : AsmState n m} (h : NoMemberKeyword s.lp) :
    (getStructMemberId (n := n) (m := m)).exec s = (some .unknown, s) := by
  have hid : getStructMemberId (n := n) (m := m) = AsmProgram.scan fun p =>
      if cur p = '#' then
        if cur p.tail = '#' then (.align, p.tail.tail) else (.block, p.tail)
      else (memberKeywords.findSome? fun kw => (cmphstr p kw.1.toList).map fun q => (kw.2, q)).getD
        (.unknown, p) := rfl
  have hnone : (memberKeywords.findSome? fun kw =>
      (cmphstr s.lp kw.1.toList).map fun q => (kw.2, q)) = none := by
    rw [List.findSome?_eq_none_iff]
    intro kw hkw
    rw [List.findSome?_eq_none_iff.mp h.2 kw hkw]
    rfl
  rw [hid, AsmProgram.scan, exec_bind_of_some (exec_get s), if_neg h.1, hnone]
  rfl

/-- An instance of a structure copies its labels. -/
theorem ensures_parseNestedMember {s : AsmState n m} {st source : Structure} {outer naam pp : Text}
    {gl : Bool} (hlabel : s.previousIsLabel = some outer)
    (hname : structureName s.lp = (some naam, gl, pp)) (hzoek : zoek s naam gl = some source)
    (hself : source.naam ≠ st.naam) :
    Ensures (parseNestedMember st) s fun st' _ => st'.labels = st.labels ++
      source.labels.map fun np => ⟨nestedName outer np.naam, st.noffset + np.offset⟩ := by
  refine .get_bind ?_
  rw [hname]
  dsimp only
  rw [hzoek]
  dsimp only
  rw [if_neg hself]
  refine .after fun _ _ => .after fun _ t => (ensures_copyMembers t).mono fun st' _ hst' => ?_
  obtain ⟨kinds, rfl, -⟩ := hst'
  rw [Structure.addMember_labels, Structure.addMembers_labels, Structure.addMember_labels, hlabel,
    Structure.copyLabels_labels]

/-- **The labels of a nested structure are at the offset of the field plus their own offset**, under
the qualified name. -/
theorem ensures_nestedLine {s : AsmState n m} {st : Structure} {outer : Text} {source : Structure}
    (h : NestedLine s st outer source) :
    Ensures (parseStructLine st) s fun st' _ => st'.labels = st.labels ++ ⟨outer, st.noffset⟩ ::
      source.labels.map fun np => ⟨nestedName outer np.naam, st.noffset + np.offset⟩ := by
  obtain ⟨naam, gl, pp, hname, hzoek, hself⟩ := h.source
  have hblanks : Sjasmplus.skipBlanks (behindFieldLabel s.lp) = behindFieldLabel s.lp :=
    skipBlanks_skipBlanks _
  set t : AsmState n m :=
    { s with lp := behindFieldLabel s.lp, previousIsLabel := some outer } with ht
  have hskip : (AsmProgram.skipBlanks (n := n) (m := m)).exec t = (some false, t) := by
    have hfalse : decide (cur (Sjasmplus.skipBlanks t.lp) = '\x00') = false := by
      rw [decide_eq_false_iff_not, ht, hblanks]
      exact h.member.1
    show (some (decide (cur (Sjasmplus.skipBlanks t.lp) = '\x00')),
      { t with lp := Sjasmplus.skipBlanks t.lp }) = _
    rw [hfalse, ht, hblanks]
  -- the flags are all that changes up to the name of the structure
  set u : AsmState n m := { t with flags := { t.flags with isResultAffected := false } } with hu
  have hclear : (clearResultAffected (n := n) (m := m)).exec t = (some (), u) := rfl
  have hmember : Ensures (parseStructMember (st.addLabel outer)) t fun st' _ =>
      st'.labels = st.labels ++ ⟨outer, st.noffset⟩ ::
        source.labels.map fun np => ⟨nestedName outer np.naam, st.noffset + np.offset⟩ := by
    refine .get_bind (.bind (.of_exec hclear (Q := fun _ x => x = u) rfl) fun _ x hx => ?_)
    subst hx
    refine .bind (.of_exec (exec_getStructMemberId h.member.2) (Q := fun id x => id = .unknown ∧ x = u)
      ⟨rfl, rfl⟩) fun id x hx => ?_
    obtain ⟨rfl, rfl⟩ := hx
    refine .bind (ensures_parseNestedMember rfl hname hzoek
      (show source.naam ≠ (st.addLabel outer).naam from hself))
      fun st' _ hst' => .after fun _ _ => .pure ?_
    rw [hst']
    show (st.labels ++ [(⟨outer, st.noffset + 0⟩ : StructureLabel)]) ++ _ = _
    rw [add_zero, List.append_assoc]
    rfl
  refine .get_bind ?_
  rw [if_neg h.label.1]
  refine .bind (.of_exec (exec_parseStructLabel h) (Q := fun st' x => st' = st.addLabel outer ∧ x = t)
    ⟨rfl, rfl⟩) fun st' x hx => ?_
  obtain ⟨rfl, rfl⟩ := hx
  refine .bind (.of_exec hskip (Q := fun b x => b = false ∧ x = t) ⟨rfl, rfl⟩) fun b x hx => ?_
  obtain ⟨rfl, rfl⟩ := hx
  refine .bind hmember fun st' _ hst' => .after fun _ _ => .ite (fun _ => .pure hst') fun _ => ?_
  exact .get_bind (.after fun _ _ => .pure hst')

end AsmProgram

end Sjasmplus
