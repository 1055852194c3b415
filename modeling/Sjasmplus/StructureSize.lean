import Sjasmplus.EmittedMemory
import Sjasmplus.StructureLabels
import Sjasmplus.StructureValues

/-!
# The size of instances

An instance of a structure is emitted by one walk over the members, which reads the initializer text
on the way.  `emitmembsTraced` is the same walk with a note for every member: the state where its turn
starts, the address where its bytes start, and the bytes.  Whatever the text gives, every member emits
as many bytes as its length, so the walk moves the address by the size of the structure and every member
lands at its offset; its bytes are what the text gives to it, and the last pass stores them where the
slots show the address (`structure_size`).  Only a source that ends inside the braces of the text cuts
the walk short.
-/

namespace Sjasmplus

open Parsing ParseFn Program AsmState AsmProgram EmitState MemoryImage

variable {n m : Nat}

/-! ### The walk with notes -/

namespace MemberKind

/-- How many bytes a member moves the address by. -/
def length : MemberKind → Int
  | value type _ _ => type.size
  | block len _ => len.toInt
  | text data => data.length
  | parenOpen | parenClose => 0

/-- A block without a value leaves the memory of the device as it is. -/
def stores : MemberKind → Bool
  | block _ default => default ≠ -1
  | value .. | text _ | parenOpen | parenClose => true

end MemberKind

/-- Where the turn of a member starts, and where its bytes do: in the address space of the program, and
in that of the device, which are not the same inside `DISP`. -/
structure Placement (n m : Nat) where
  front : AsmState n m
  address : Int
  place : Int
  bytes : List Byte
  stored : Bool

/-- What a member stores at a place. -/
def Placement.laid (p : Placement n m) (place : Int) : List (Int × Byte) :=
  if p.stored then bytesFrom place p.bytes else []

/-- What a member stores. -/
def Placement.writes (p : Placement n m) : List (Int × Byte) := p.laid p.place

/-- The note of bytes that are emitted from a state on. -/
def AsmState.note (s front : AsmState n m) (bytes : List Byte) (stored : Bool) : Placement n m :=
  ⟨front, s.curAddress, s.emitAddress, bytes, stored⟩

namespace AsmProgram

/-- `emitMember` with a note of what is emitted where. -/
def emitMemberTraced (haakjes : Nat) (rest : List StructureMember) :
    MemberKind → AsmProgram n m (Nat × Placement n m)
  | .block len default => do
    let front ← get
    let byte := if default ≠ -1 then default else 0
    emit (·.emitBlock byte len.toInt (default = -1))
    pure (haakjes, front.note front (List.replicate len.toInt.toNat (byte.setWidth 8)) (default ≠ -1))
  | .value type default defDeltaType => do
    let front ← get
    let val ← parseValue type default defDeltaType
    let s ← get
    emitValue type val
    memberComma rest
    pure (haakjes, s.note front (valueBytes type val) true)
  | .text data => do
    let front ← get
    let emitTextBuffer ← getStructText data.length (some data)
    let s ← get
    emitText emitTextBuffer
    memberComma rest
    pure (haakjes, s.note front emitTextBuffer true)
  | .parenOpen => do
    let front ← get
    let haakjes ← openBrace haakjes
    let s ← get
    pure (haakjes, s.note front [] true)
  | .parenClose => do
    let front ← get
    let closed ← closeBrace haakjes
    let s ← get
    memberComma rest
    pure (closed.getD haakjes, s.note front [] true)

/-- `emitmembsLoop` with notes. -/
def emitmembsLoopTraced : List StructureMember → Nat → AsmProgram n m (Nat × List (Placement n m))
  | [], haakjes => do
    let haakjes ← closeBraces (pure ()) haakjes
    pure (haakjes, [])
  | ip :: rest, haakjes => do
    if ← startTurn haakjes then
      let (haakjes, placement) ← emitMemberTraced haakjes rest ip.kind
      let (haakjes, placements) ← emitmembsLoopTraced rest haakjes
      pure (haakjes, placement :: placements)
    else pure (haakjes, [])

/-- `emitmembs` with notes. -/
def emitmembsTraced (st : Structure) : AsmProgram n m (List (Placement n m)) := do
  let haakjes ← openBrace 0
  clearResultAffected
  let (haakjes, placements) ← emitmembsLoopTraced st.members haakjes
  Program.when (haakjes ≠ 0) <| error "closing \x7d missing"
  let atEnd ← skipBlanks
  Program.when (!atEnd) <| error "[STRUCT] Syntax error - too many arguments?"
  checkAndWarn
  pure placements

theorem get_bind_const {α : Type} (p : AsmProgram n m α) : (get >>= fun _ => p) = p := rfl

/-- The notes change nothing. -/
theorem emitMember_eq (haakjes : Nat) (rest : List StructureMember) (kind : MemberKind) :
    emitMember (n := n) (m := m) haakjes rest kind
      = emitMemberTraced haakjes rest kind >>= fun r => pure r.1 := by
  cases kind with
  | block len default =>
    simp only [emitMember, emitMemberTraced, bind_assoc, pure_bind, get_bind_const]
  | value type default defDeltaType =>
    simp only [emitMember, emitMemberTraced, bind_assoc, pure_bind, get_bind_const]
  | text data => simp only [emitMember, emitMemberTraced, bind_assoc, pure_bind, get_bind_const]
  | parenOpen =>
    simp only [emitMember, emitMemberTraced, bind_assoc, pure_bind, get_bind_const, bind_pure]
  | parenClose =>
    simp only [emitMember, emitMemberTraced, bind_assoc, pure_bind, get_bind_const]

theorem emitmembsLoop_eq (members : List StructureMember) (haakjes : Nat) :
    emitmembsLoop (n := n) (m := m) members haakjes
      = emitmembsLoopTraced members haakjes >>= fun r => pure r.1 := by
  induction members generalizing haakjes with
  | nil => simp only [emitmembsLoop, emitmembsLoopTraced, bind_assoc, pure_bind, bind_pure]
  | cons ip rest ih =>
    simp only [emitmembsLoop, emitmembsLoopTraced, bind_assoc]
    refine congrArg (startTurn haakjes >>= ·) (funext fun b => ?_)
    cases b with
    | false => rfl
    | true =>
      simp only [if_true, emitMember_eq, ih, bind_assoc, pure_bind]

/-- **The notes change nothing.** -/
theorem emitmembs_eq (st : Structure) :
    emitmembs (n := n) (m := m) st = emitmembsTraced st >>= fun _ => pure () := by
  have hcheck : (checkAndWarn (n := n) (m := m) >>= fun _ => pure ()) = checkAndWarn :=
    bind_pure checkAndWarn
  simp only [emitmembs, emitmembsTraced, emitmembsLoop_eq, bind_assoc, pure_bind, hcheck]

end AsmProgram

/-! ### Reading leaves the address alone -/

/-- The address stays where it is and the memory as it is, unless a next page is mapped. -/
structure Stays (s t : AsmState n m) : Prop where
  emits : Emits [] 0 s.toEmitState t.toEmitState
  lays : Lays (fun _ => []) 0 s.image t.image

theorem Stays.of_emission {s t : AsmState n m} (hpass : t.pass = s.pass) (hdevice : t.device = s.device)
    (houtput : t.output = s.output) (haddress : t.curAddress = s.curAddress)
    (hplace : t.emitAddress = s.emitAddress) : Stays s t where
  emits := .nothing hpass hdevice houtput haddress
  lays := .nothing (congrArg (fun pass => decide (pass = lastPass)) hpass) hdevice hplace

instance : ReadingKeeps (Stays (n := n) (m := m)) where
  refl _ := .of_emission rfl rfl rfl rfl rfl
  trans _ _ _ h h' := ⟨h.emits.trans_nothing h'.emits, h.lays.trans_nothing h'.lays le_rfl⟩
  of_fixedPart s t h := by
    have hemit : t.toEmitState = s.toEmitState := congrArg Prod.fst h
    refine .of_emission ?_ ?_ ?_ ?_ ?_ <;> rw [hemit]
  log _ _ := .of_emission rfl rfl rfl rfl rfl
  noteLookup s e := by
    have hemit := s.toEmitState_noteLookup e
    refine .of_emission ?_ ?_ ?_ ?_ ?_ <;> rw [hemit]
  prepareLine s := by
    refine ⟨s.emits_prepareLine, ?_⟩
    show Lays (fun _ => []) 0 s.image s.toEmitState.prepareLine.image
    rw [s.toEmitState.image_prepareLine]
    exact s.image.lays_prepare

/-! ### Emitting -/

/-- Bytes are emitted, and stored by the last pass. -/
structure EmitsBytes (bytes : List Byte) (s t : AsmState n m) : Prop where
  emits : Emits bytes bytes.length s.toEmitState t.toEmitState
  lays : Lays (bytesFrom · bytes) bytes.length s.image t.image

namespace EmitsBytes

theorem nil (s : AsmState n m) : EmitsBytes [] s s :=
  ⟨.nothing rfl rfl rfl rfl, .nothing rfl rfl rfl⟩

theorem trans {bytes bytes' : List Byte} {s t u : AsmState n m} (h : EmitsBytes bytes s t)
    (h' : EmitsBytes bytes' t u) : EmitsBytes (bytes ++ bytes') s u := by
  refine ⟨?_, ?_⟩
  · rw [List.length_append, Nat.cast_add]
    exact h.emits.trans h'.emits (Int.natCast_nonneg _)
  · rw [List.length_append, Nat.cast_add]
    have hlays := h.lays.trans h'.lays (Int.natCast_nonneg _) (Int.natCast_nonneg _)
    simp only [← bytesFrom_append] at hlays
    exact hlays

end EmitsBytes

theorem emitsBytes_emitByte (byte : Aint) (s : AsmState n m) :
    Ensures (AsmProgram.emitByte byte) s fun _ t => EmitsBytes [byte.setWidth 8] s t := by
  refine .of_exec rfl ⟨emits_emitByte byte s.toEmitState, ?_⟩
  show Lays _ 1 s.image (s.toEmitState.emitByte byte).image
  rw [image_emitByte]
  exact s.image.lays_emitByte (byte.setWidth 8) false

/-- The bytes of a word. -/
theorem valueBytes_word (val : Aint) : valueBytes .word val = EmitState.wordBytes val := by
  have hlow : (val &&& 0xFF).setWidth 8 = (val.setWidth 8 : Byte) := by
    ext i hi
    simp
    interval_cases i <;> simp
  have hhigh : (val.sshiftRight 8 &&& 0xFF).setWidth 8 = ((val >>> 8).setWidth 8 : Byte) := by
    ext i hi
    simp [BitVec.getLsbD_sshiftRight]
    interval_cases i <;> simp
  rw [EmitState.wordBytes, hlow, hhigh]
  rfl

theorem valueBytes_d24 (val : Aint) : valueBytes .d24 val = [(val &&& 0xFF).setWidth 8] ++
    valueBytes .word (val.sshiftRight 8 &&& 0xFFFF) := by
  show [_, _, _] = [_, _, _]
  refine List.ext_getElem rfl fun k hk _ => ?_
  ext i hi
  simp only [List.length_cons, List.length_nil] at hk
  interval_cases k <;> simp [BitVec.getLsbD_sshiftRight] <;> interval_cases i <;> simp

theorem valueBytes_dword (val : Aint) : valueBytes .dword val = valueBytes .word (val &&& 0xFFFF) ++
    valueBytes .word (val.sshiftRight 16 &&& 0xFFFF) := by
  show [_, _, _, _] = [_, _, _, _]
  refine List.ext_getElem rfl fun k hk _ => ?_
  ext i hi
  simp only [List.length_cons, List.length_nil] at hk
  interval_cases k <;> simp [BitVec.getLsbD_sshiftRight] <;> interval_cases i <;> simp

theorem emitsBytes_emitWord (word : Aint) (s : AsmState n m) :
    Ensures (AsmProgram.emitWord word) s fun _ t => EmitsBytes (valueBytes .word word) s t := by
  rw [valueBytes_word]
  refine .of_exec rfl ⟨emits_emitWord word s.toEmitState, ?_⟩
  show Lays _ _ s.image (s.toEmitState.emitWord word).image
  rw [image_emitWord]
  exact s.image.lays_emitBytes _

theorem emitsBytes_emitValue (type : ValueType) (val : Aint) (s : AsmState n m) :
    Ensures (emitValue type val) s fun _ t => EmitsBytes (valueBytes type val) s t := by
  cases type with
  | byte => exact emitsBytes_emitByte val s
  | word => exact emitsBytes_emitWord val s
  | d24 =>
    refine .bind (emitsBytes_emitByte _ s) fun _ t ht => (emitsBytes_emitWord _ t).mono fun _ u hu => ?_
    rw [valueBytes_d24]
    exact ht.trans hu
  | dword =>
    refine .bind (emitsBytes_emitWord _ s) fun _ t ht => (emitsBytes_emitWord _ t).mono fun _ u hu => ?_
    rw [valueBytes_dword]
    exact ht.trans hu

theorem emitsBytes_emitText (bytes : List Byte) (s : AsmState n m) :
    Ensures (emitText bytes) s fun _ t => EmitsBytes bytes s t := by
  induction bytes generalizing s with
  | nil => exact .pure (.nil s)
  | cons byte bytes ih =>
    have hbyte := emitsBytes_emitByte (byte.setWidth 32) s
    rw [BitVec.setWidth_setWidth_of_le _ (by decide), BitVec.setWidth_eq] at hbyte
    exact .bind hbyte fun _ t ht => (ih t).mono fun _ u hu => ht.trans hu

/-! ### One member -/

/-- The address where a member starts, and the one behind it, are in the address space.  An empty
block must not be at its very end, where a displaced address wraps around. -/
structure FitsAt (kind : MemberKind) (address : Int) : Prop where
  start : 0 ≤ address ∧ address ≤ 0x10000
  behind : 0 ≤ address + kind.length ∧ address + kind.length ≤ 0x10000
  empty : ∀ default, kind = .block 0 default → address ≠ 0x10000

theorem FitsAt.of_lt {kind : MemberKind} {address : Int} (hnonneg : 0 ≤ address)
    (hlt : address < 0x10000)
    (hbehind : 0 ≤ address + kind.length ∧ address + kind.length ≤ 0x10000) : FitsAt kind address :=
  ⟨⟨hnonneg, hlt.le⟩, hbehind, fun _ _ => hlt.ne⟩

/-- What a member emits, and where. -/
structure EmitsMember (kind : MemberKind) (p : Placement n m) (s t : AsmState n m) : Prop where
  pass : t.pass = s.pass
  pages : s.pageSum ≤ t.pageSum
  output : t.output = s.output ++ if s.pass = lastPass then p.bytes else []
  length : p.bytes.length = kind.length.toNat
  stored : p.stored = kind.stores
  placed : t.pageSum = s.pageSum → FitsAt kind s.curAddress →
    p.address = s.curAddress ∧ t.curAddress = s.curAddress + kind.length
  lays : Lays p.laid kind.length s.image t.image
  place : t.pageSum = s.pageSum → ∀ device, s.device = some device → device.SlotLayout →
    InSpace s.emitAddress → p.place = s.emitAddress

/-- Reading in front of the bytes and behind them. -/
theorem EmitsMember.of_emits {kind : MemberKind} {bytes : List Byte} {front s t u v : AsmState n m}
    (hst : Stays s t) (htu : EmitsBytes bytes t u) (huv : Stays u v)
    (hlength : (bytes.length : Int) = kind.length) (hstores : kind.stores = true) :
    EmitsMember kind (t.note front bytes true) s v := by
  have hnonneg : 0 ≤ kind.length := hlength ▸ Int.natCast_nonneg _
  have hemits : Emits bytes kind.length t.toEmitState u.toEmitState := hlength ▸ htu.emits
  have hlays : Lays (bytesFrom · bytes) kind.length t.image u.image := hlength ▸ htu.lays
  have hall : Emits bytes kind.length s.toEmitState v.toEmitState :=
    (hst.emits.nothing_trans hemits hnonneg).trans_nothing huv.emits
  -- where no page is mapped in all, none is mapped in any part
  have hpage : v.pageSum = s.pageSum → t.pageSum = s.pageSum := by
    intro hpages
    have := hst.emits.pages
    have := htu.emits.pages
    have := huv.emits.pages
    omega
  refine ⟨hall.pass, hall.pages, hall.output, by rw [← hlength]; rfl, hstores.symm, ?_,
    (hst.lays.nothing_trans hlays hnonneg).trans_nothing huv.lays hnonneg, ?_⟩
  · intro hpages hfits
    have hbound : s.curAddress + 0 ≤ 0x10000 := by
      have := hfits.start
      omega
    exact ⟨(hst.emits.address (hpage hpages) hbound).trans (add_zero _),
      hall.address hpages hfits.behind.2⟩
  -- the place is the one behind the reading, which moves nothing
  · intro hpages device hdevice hlayout hspace
    exact (hst.lays.stored (hpage hpages) device hdevice hlayout hspace
      ((add_zero s.emitAddress).symm ▸ hspace)).1.trans (add_zero _)

theorem ensures_emitMemberTraced {haakjes : Nat} {rest : List StructureMember} (kind : MemberKind)
    (s : AsmState n m) : Ensures (emitMemberTraced haakjes rest kind) s fun r t =>
      EmitsMember kind r.2 s t := by
  have hstays : ∀ {α : Type} {p : AsmProgram n m α} {s : AsmState n m}, Keeps Stays p →
      Ensures p s fun _ t => Stays s t := fun hp => .of_keeps hp
  -- a block reads nothing from the text; the other members read, emit, and take their comma
  cases kind with
  | block len default =>
    refine .get_bind ?_
    set byte := if default ≠ -1 then default else 0 with hbyte
    refine .bind (.of_exec (exec_modify _ s) (Q := fun _ t => t = { s with
      toEmitState := s.toEmitState.emitBlock byte len.toInt (default = -1) }) rfl) fun _ t ht => .pure ?_
    subst ht
    obtain ⟨hpass, hpages, houtput, hmoves⟩ :=
      emits_emitBlock byte len.toInt (default = -1) s.toEmitState
    have hlays := s.image.lays_emitBlock (byte.setWidth 8) len.toInt (default = -1)
    rw [← image_emitBlock] at hlays
    refine ⟨hpass, hpages, houtput, List.length_replicate, rfl, fun hsum hfits => ⟨rfl, ?_⟩, ?_,
      fun _ _ _ _ _ => rfl⟩
    · refine hmoves hsum hfits.behind.2 fun hle => ?_
      have hstart := hfits.start
      -- an empty block moves nothing, but it may still wrap
      by_cases hzero : len = 0
      · subst hzero
        have hne := hfits.empty default rfl
        have hlen : (0 : Aint).toInt = 0 := rfl
        omega
      · have hlen : len.toInt ≠ 0 := fun h => hzero (BitVec.toInt_inj.mp h)
        omega
    · -- a block without a value leaves the memory as it is
      have hlaid : (s.note s (List.replicate len.toInt.toNat (byte.setWidth 8)) (default ≠ -1)).laid
          = fun address => if decide (default = -1) = true then []
            else bytesFrom address (List.replicate len.toInt.toNat (byte.setWidth 8)) := by
        funext address
        by_cases hdefault : default = -1 <;> simp [Placement.laid, note, hdefault]
      rw [hlaid]
      exact hlays
  | value type default defDeltaType =>
    refine .get_bind (.bind (hstays evaluates_parseValue) fun val t ht => .get_bind ?_)
    refine .bind (emitsBytes_emitValue type val t) fun _ u hu => ?_
    refine .bind (hstays evaluates_memberComma) fun _ v hv => .pure ?_
    exact .of_emits ht hu hv (by simp [valueBytes, MemberKind.length]) rfl
  | text data =>
    have hkeeps : Keeps (Stays (n := n) (m := m)) (getStructText data.length (some data)) :=
      evaluates_getStructText
    have htext := (ensures_getStructText (fun d hd => Option.some.inj hd ▸ rfl) s).and
      (hstays hkeeps)
    refine .get_bind (.bind htext fun bytes t ht => .get_bind ?_)
    refine .bind (emitsBytes_emitText bytes t) fun _ u hu => ?_
    refine .bind (hstays evaluates_memberComma) fun _ v hv => .pure ?_
    exact .of_emits ht.2 hu hv (congrArg Nat.cast ht.1) rfl
  | parenOpen =>
    refine .get_bind (.bind (hstays evaluates_scan) fun _ t ht => .get_bind (.pure ?_))
    exact .of_emits ht (.nil t) (refl t) rfl rfl
  | parenClose =>
    refine .get_bind (.bind (hstays evaluates_scan) fun _ t ht => .get_bind ?_)
    refine .bind (hstays evaluates_memberComma) fun _ u hu => .pure ?_
    exact .of_emits ht (.nil t) hu rfl rfl

/-! ### The walk -/

/-- The walk over the members stays in the address space. -/
def Fits : Int → List StructureMember → Prop
  | address, [] => 0 ≤ address ∧ address ≤ 0x10000
  | address, ip :: rest => FitsAt ip.kind address ∧ Fits (address + ip.kind.length) rest

/-- The members land one behind the other. -/
def Lands (position : Placement n m → Int) :
    Int → List StructureMember → List (Placement n m) → Prop
  | _, [], [] => True
  | address, ip :: rest, p :: ps =>
    position p = address ∧ p.bytes.length = ip.kind.length.toNat ∧ p.stored = ip.kind.stores ∧
      Lands position (address + ip.kind.length) rest ps
  | _, _, _ => False

/-- The address behind the members. -/
def behind (address : Int) (members : List StructureMember) : Int :=
  address + (members.map (·.kind.length)).sum

/-- Where the members are stored, and the device behind them. -/
structure StoresMembers (members : List StructureMember) (ps : List (Placement n m)) (s t : AsmState n m)
    (device device' : Device n m) : Prop where
  lands : Lands (·.place) s.emitAddress members ps
  behind : t.emitAddress = behind s.emitAddress members
  written : Written (ps.flatMap (·.writes)) s.image t.image device device'

/-- What the walk emits, and where: all members, unless braces stay open. -/
structure EmitsMembers (members : List StructureMember) (haakjes : Nat) (ps : List (Placement n m))
    (s t : AsmState n m) : Prop where
  pass : t.pass = s.pass
  pages : s.pageSum ≤ t.pageSum
  output : t.output = s.output ++ if s.pass = lastPass then ps.flatMap (·.bytes) else []
  placed : haakjes = 0 → t.pageSum = s.pageSum → Fits s.curAddress members →
    Lands (·.address) s.curAddress members ps ∧ t.curAddress = behind s.curAddress members
  stored : haakjes = 0 → t.pageSum = s.pageSum → ∀ device, s.device = some device →
    device.SlotLayout → Fits s.emitAddress members → ∃ device', StoresMembers members ps s t device device'

theorem Fits.start {address : Int} {members : List StructureMember} (h : Fits address members) :
    0 ≤ address ∧ address ≤ 0x10000 := by
  cases members with
  | nil => exact h
  | cons ip rest => exact h.1.start

theorem Fits.behind {address : Int} {members : List StructureMember} (h : Fits address members) :
    0 ≤ behind address members ∧ behind address members ≤ 0x10000 := by
  induction members generalizing address with
  | nil =>
    rw [Sjasmplus.behind, List.map_nil, List.sum_nil, add_zero]
    exact h
  | cons ip rest ih =>
    have := ih h.2
    rw [Sjasmplus.behind, add_assoc, ← List.sum_cons] at this
    exact this

/-- Reading in front of the walk and behind it. -/
theorem EmitsMembers.between {members : List StructureMember} {haakjes : Nat}
    {ps : List (Placement n m)} {s t u v : AsmState n m} (h : EmitsMembers members haakjes ps t u)
    (hst : Stays s t) (huv : Stays u v) : EmitsMembers members haakjes ps s v := by
  have hpages : v.pageSum = s.pageSum → t.pageSum = s.pageSum ∧ u.pageSum = t.pageSum ∧
      v.pageSum = u.pageSum := by
    intro hpages
    have := hst.emits.pages
    have := h.pages
    have := huv.emits.pages
    omega
  have hpass : t.pass = s.pass := hst.emits.pass
  -- the output, the addresses, and the memory of the device
  refine ⟨huv.emits.pass.trans (h.pass.trans hst.emits.pass),
    hst.emits.pages.trans (h.pages.trans huv.emits.pages), ?_, fun hzero hsum hfits => ?_,
    fun hzero hsum device hdevice hlayout hfits => ?_⟩
  · rw [huv.emits.output, h.output, hst.emits.output, hst.emits.pass]
    split_ifs <;> simp
  · obtain ⟨hts, hut, hvu⟩ := hpages hsum
    have hstart := hfits.start
    have hcur : t.curAddress = s.curAddress :=
      (hst.emits.address hts (by omega)).trans (add_zero _)
    obtain ⟨hlands, hbehind⟩ := h.placed hzero hut (hcur ▸ hfits)
    rw [hcur] at hlands hbehind
    have hend := hfits.behind
    have hback := huv.emits.address hvu (by omega)
    exact ⟨hlands, by omega⟩
  · obtain ⟨hts, hut, hvu⟩ := hpages hsum
    have hspace : ∀ address : Int, InSpace address → InSpace (address + 0) := fun address h =>
      (add_zero address).symm ▸ h
    obtain ⟨hplace, front, hfront⟩ :=
      hst.lays.stored hts device hdevice hlayout hfits.start (hspace _ hfits.start)
    have hplace : t.emitAddress = s.emitAddress := hplace.trans (add_zero _)
    have hlayout' := hlayout.of_places hfront.view.places
    obtain ⟨walked, hstored⟩ := h.stored hzero hut front hfront.selected hlayout' (hplace ▸ hfits)
    have hend : InSpace u.emitAddress := by
      rw [hstored.behind, hplace]
      exact hfits.behind
    obtain ⟨hback, last, hlast⟩ := huv.lays.stored hvu walked hstored.written.selected
      (hlayout'.of_places hstored.written.view.places) hend (hspace _ hend)
    refine ⟨last, hplace ▸ hstored.lands, ?_, ?_⟩
    · exact (hback.trans (add_zero _)).trans (hplace ▸ hstored.behind)
    · have hpasses : u.image.lastPass = t.image.lastPass :=
        congrArg (fun pass => decide (pass = lastPass)) h.pass
      have hall := (hfront.trans hstored.written hst.lays.lastPass).trans hlast
        (hpasses.trans hst.lays.lastPass)
      simpa using hall

/-- A member in front of those that the walk goes on with. -/
theorem EmitsMembers.cons {ip : StructureMember} {rest : List StructureMember} {haakjes : Nat}
    {p : Placement n m} {ps : List (Placement n m)} {s t u : AsmState n m}
    (h : EmitsMember ip.kind p s t) (h' : EmitsMembers rest haakjes ps t u) :
    EmitsMembers (ip :: rest) haakjes (p :: ps) s u := by
  have hpages : u.pageSum = s.pageSum → t.pageSum = s.pageSum ∧ u.pageSum = t.pageSum := by
    intro hpages
    have := h.pages
    have := h'.pages
    omega
  have hbehind : ∀ address, behind (address + ip.kind.length) rest = behind address (ip :: rest) := by
    intro address
    rw [behind, behind, List.map_cons, List.sum_cons, add_assoc]
  -- the rest starts where this member has ended, in the output, the addresses and the memory
  refine ⟨h'.pass.trans h.pass, h.pages.trans h'.pages, ?_, fun hzero hsum hfits => ?_,
    fun hzero hsum device hdevice hlayout hfits => ?_⟩
  · rw [h'.output, h.output, h.pass, List.flatMap_cons]
    split_ifs <;> simp
  · obtain ⟨hts, hut⟩ := hpages hsum
    obtain ⟨hfirst, hrest⟩ := hfits
    obtain ⟨haddress, hmoved⟩ := h.placed hts hfirst
    obtain ⟨hlands, hend⟩ := h'.placed hzero hut (hmoved ▸ hrest)
    rw [hmoved] at hlands hend
    exact ⟨⟨haddress, h.length, h.stored, hlands⟩, hend.trans (hbehind _)⟩
  · obtain ⟨hts, hut⟩ := hpages hsum
    obtain ⟨hfirst, hrest⟩ := hfits
    have hplace := h.place hts device hdevice hlayout hfirst.start
    obtain ⟨hmoved, front, hfront⟩ := h.lays.stored hts device hdevice hlayout hfirst.start hfirst.behind
    have hmoved : t.emitAddress = s.emitAddress + ip.kind.length := hmoved
    obtain ⟨last, hlast⟩ := h'.stored hzero hut front hfront.selected
      (hlayout.of_places hfront.view.places) (hmoved ▸ hrest)
    refine ⟨last, ⟨hplace, h.length, h.stored, hmoved ▸ hlast.lands⟩, ?_, ?_⟩
    · exact (hmoved ▸ hlast.behind).trans (hbehind _)
    · have hwrites : p.writes = p.laid s.image.address := congrArg p.laid hplace
      rw [List.flatMap_cons, hwrites]
      exact hfront.trans hlast.written h.lays.lastPass

theorem ensures_emitmembsLoopTraced {members : List StructureMember} {haakjes : Nat}
    (s : AsmState n m) : Ensures (emitmembsLoopTraced members haakjes) s fun r t =>
      EmitsMembers members r.1 r.2 s t := by
  -- by induction on the members; an open brace may end the walk ahead of them
  induction members generalizing haakjes s with
  | nil =>
    have hclose : Keeps (Stays (n := n) (m := m)) (closeBraces (pure ()) haakjes) :=
      evaluates_closeBraces (.pure _)
    refine .bind (.of_keeps hclose) fun left t ht => .pure ?_
    -- without members nothing is emitted, and the braces are closed
    have hnone : EmitsMembers [] left [] s s := by
      refine ⟨rfl, le_rfl, by simp, fun _ _ _ => ⟨trivial, by simp [behind]⟩, ?_⟩
      exact fun _ _ device hdevice _ _ => ⟨device, trivial, by simp [behind],
        .nothing hdevice (.refl device) rfl⟩
    exact hnone.between (refl s) ht
  | cons ip rest ih =>
    have hstart : Ensures (startTurn haakjes) s fun b t => Stays s t ∧ (¬b = true → haakjes ≠ 0) := by
      refine Ensures.and (.of_keeps evaluates_startTurn) (.ite (fun h => ?_) fun _ => ?_)
      · exact fun _ _ _ _ => Nat.pos_iff_ne_zero.mp h
      · exact .pure fun h => absurd rfl h
    refine .bind hstart fun b t ht => .ite (fun _ => ?_) fun hb => ?_
    · refine .bind (ensures_emitMemberTraced ip.kind t) fun r u hu => ?_
      refine .bind (ih u) fun r' v hv => .pure ?_
      exact (hv.cons hu).between ht.1 (refl v)
    · have hopen : haakjes ≠ 0 := ht.2 hb
      exact .pure ⟨ht.1.emits.pass, ht.1.emits.pages, by rw [ht.1.emits.output]; rfl,
        fun hzero => absurd hzero hopen, fun hzero => absurd hzero hopen⟩

/-! ### Offsets -/

/-- Every member is recorded at the sum of the lengths in front of it. -/
def PlacedFrom : Aint → List StructureMember → Prop
  | _, [] => True
  | offset, ip :: rest => ip.offset = offset ∧ PlacedFrom (offset + ip.kind.len) rest

theorem placedFrom_append {offset : Aint} {members members' : List StructureMember} :
    PlacedFrom offset (members ++ members') ↔ PlacedFrom offset members ∧
      PlacedFrom (offset + (members.map (·.kind.len)).sum) members' := by
  induction members generalizing offset with
  | nil => simp [PlacedFrom]
  | cons ip rest ih =>
    simp only [List.cons_append, PlacedFrom, ih, List.map_cons, List.sum_cons, add_assoc, and_assoc]

/-- The members of a structure are placed, and its size is where the next one comes. -/
structure WellPlaced (st : Structure) : Prop where
  members : PlacedFrom 0 st.members
  size : st.noffset = (st.members.map (·.kind.len)).sum

namespace WellPlaced

theorem addMember {st : Structure} (h : WellPlaced st) (kind : MemberKind) :
    WellPlaced (st.addMember kind) := by
  have hmembers : (st.addMember kind).members = st.members ++ [⟨st.noffset, kind⟩] := rfl
  refine ⟨?_, ?_⟩
  · rw [hmembers, placedFrom_append]
    exact ⟨h.members, by rw [zero_add, ← h.size], trivial⟩
  · rw [hmembers, List.map_append, List.sum_append, ← h.size]
    exact congrArg (st.noffset + ·) (List.sum_singleton).symm

theorem addMembers {st : Structure} (h : WellPlaced st) (kinds : List MemberKind) :
    WellPlaced (st.addMembers kinds) := by
  induction kinds generalizing st with
  | nil => exact h
  | cons kind kinds ih => exact ih (h.addMember kind)

/-- The members of every structure are placed. -/
theorem of_flattened {st : Structure} {fields : Fields} (h : st.Flattened fields) :
    WellPlaced st := by
  induction h with
  | init naam offset =>
    have hempty : WellPlaced ⟨naam, [], [], 0, 0⟩ := ⟨trivial, rfl⟩
    unfold Structure.init
    split_ifs
    · exact hempty.addMember _
    · exact hempty
  | label temp _ ih => exact ⟨ih.members, ih.size⟩
  | member kind _ ih => exact ih.addMember kind
  | align maxAlignment _ ih => exact ⟨ih.members, ih.size⟩
  | @nested st source fields inner kinds outer _ _ _ ih _ =>
    have hcopy : WellPlaced (st.copyLabels outer source) :=
      ⟨(Structure.copyLabels_members st outer source).symm ▸ ih.members,
        by rw [Structure.copyLabels_noffset, Structure.copyLabels_members, ih.size]⟩
    exact ((hcopy.addMember _).addMembers kinds).addMember _

end WellPlaced

/-- Inside the address space offsets do not wrap around. -/
theorem toInt_add_len {start : Int} {offset : Aint} {kind : MemberKind}
    (hstart : 0 ≤ start ∧ start ≤ 0x10000) (h : FitsAt kind (start + offset.toInt)) :
    (offset + kind.len).toInt = offset.toInt + kind.length := by
  have hbehind := h.behind
  have hfirst := h.start
  have hlen : kind.len.toInt = kind.length := by
    cases kind with
    | value type default defDeltaType => cases type <;> rfl
    | block len default => rfl
    | text data =>
      show (BitVec.ofNat 32 data.length).toInt = (data.length : Int)
      have hbound : start + offset.toInt + data.length ≤ 0x10000 := hbehind.2
      rw [BitVec.toInt_ofNat', Int.bmod_eq_of_le (by omega) (by omega)]
    | parenOpen | parenClose => rfl
  rw [BitVec.toInt_add, hlen]
  exact Int.bmod_eq_of_le (by omega) (by omega)

/-- Members that land one behind the other land at their offsets. -/
theorem lands_offsets {position : Placement n m → Int} {start : Int}
    (hstart : 0 ≤ start ∧ start ≤ 0x10000) {members : List StructureMember} {offset : Aint}
    {ps : List (Placement n m)} (hplaced : PlacedFrom offset members)
    (hfits : Fits (start + offset.toInt) members)
    (hlands : Lands position (start + offset.toInt) members ps) :
    List.Forall₂ (fun ip p => position p = start + ip.offset.toInt ∧
      p.bytes.length = ip.kind.length.toNat ∧ p.stored = ip.kind.stores) members ps ∧
      behind (start + offset.toInt) members
        = start + (offset + (members.map (·.kind.len)).sum).toInt := by
  -- by induction on the members: the offset of the next one is the sum so far
  induction members generalizing offset ps with
  | nil =>
    cases ps with
    | nil => exact ⟨.nil, by simp [behind]⟩
    | cons p ps => exact hlands.elim
  | cons ip rest ih =>
    cases ps with
    | nil => exact hlands.elim
    | cons p ps =>
      obtain ⟨hoffset, hplaced⟩ := hplaced
      obtain ⟨hfirst, hrest⟩ := hfits
      obtain ⟨haddress, hlength, hstored, hlands⟩ := hlands
      have hnext := toInt_add_len hstart hfirst
      -- the sum of the offsets does not wrap inside of the address space
      have hsum : start + (offset + ip.kind.len).toInt = start + offset.toInt + ip.kind.length := by
        rw [hnext, add_assoc]
      obtain ⟨hall, hbehind⟩ := ih hplaced (hsum ▸ hrest) (hsum ▸ hlands)
      refine ⟨.cons ⟨hoffset ▸ haddress, hlength, hstored⟩ hall, ?_⟩
      rw [List.map_cons, List.sum_cons, ← add_assoc, ← hbehind, behind, behind, List.map_cons,
        List.sum_cons, hsum, add_assoc, add_assoc, add_assoc]

/-- The members of a structure land at their offsets, and its size is where they end. -/
theorem WellPlaced.lands {st : Structure} (h : WellPlaced st) {position : Placement n m → Int}
    {start : Int} {ps : List (Placement n m)} (hfits : Fits start st.members)
    (hlands : Lands position start st.members ps) :
    List.Forall₂ (fun ip p => position p = start + ip.offset.toInt ∧
      p.bytes.length = ip.kind.length.toNat ∧ p.stored = ip.kind.stores) st.members ps ∧
      behind start st.members = start + st.noffset.toInt := by
  have hstart : start + (0 : Aint).toInt = start := add_zero start
  have hall := lands_offsets hfits.start h.members (hstart.symm ▸ hfits) (hstart.symm ▸ hlands)
  rwa [hstart, zero_add, ← h.size] at hall

/-- Members that stay in the address space are stored in it. -/
theorem mem_writes {members : List StructureMember} {ps : List (Placement n m)} {address : Int}
    (hfits : Fits address members) (hlands : Lands (·.place) address members ps) {w : Int × Byte}
    (hw : w ∈ ps.flatMap (·.writes)) : 0 ≤ w.1 ∧ w.1 < 0x10000 := by
  -- by induction on the members, each of them inside by itself
  induction members generalizing address ps with
  | nil =>
    cases ps with
    | nil => cases hw
    | cons p ps => exact hlands.elim
  | cons ip rest ih =>
    cases ps with
    | nil => exact hlands.elim
    | cons p ps =>
      obtain ⟨hfirst, hrest⟩ := hfits
      obtain ⟨hplace, hlength, -, hlands⟩ := hlands
      rw [List.flatMap_cons, List.mem_append] at hw
      rcases hw with hw | hw
      · unfold Placement.writes Placement.laid at hw
        split_ifs at hw
        · have hrange := mem_bytesFrom hw
          have hstart := hfirst.start
          have hbehind := hfirst.behind
          dsimp only at hplace
          omega
        · cases hw
      · exact ih hrest hlands hw

/-! ### What the text gives -/

/-- The text from a number of open braces on gives the bytes to the members: the turn of every member
starts where the one in front of it has ended, in braces at the next character that is not blank. -/
inductive ReadsMembers : Nat → Source → List StructureMember → List (Placement n m) → Prop
  | nil (haakjes : Nat) (left : Source) : ReadsMembers haakjes left [] []
  | cons {haakjes haakjes' : Nat} {left left' : Source} {ip : StructureMember}
      {rest : List StructureMember} {p : Placement n m} {ps : List (Placement n m)}
      (hfront : p.front.source = if 0 < haakjes then nonBlank left.1 left.2 else left)
      (hgives : Gives rest haakjes p.front ip.kind p.bytes haakjes' left')
      (hrest : ReadsMembers haakjes' left' rest ps) : ReadsMembers haakjes left (ip :: rest) (p :: ps)

theorem sameSource_emitByte {byte : Aint} : Keeps (SameSource (n := n) (m := m)) (emitByte byte) :=
  .modify fun _ => rfl

theorem sameSource_emitWord {word : Aint} : Keeps (SameSource (n := n) (m := m)) (emitWord word) :=
  .modify fun _ => rfl

theorem sameSource_emitValue {type : ValueType} {val : Aint} :
    Keeps (SameSource (n := n) (m := m)) (emitValue type val) := by
  cases type with
  | byte => exact sameSource_emitByte
  | word => exact sameSource_emitWord
  | d24 => exact .bind sameSource_emitByte fun _ => sameSource_emitWord
  | dword => exact .bind sameSource_emitWord fun _ => sameSource_emitWord

theorem sameSource_emitText {bytes : List Byte} :
    Keeps (SameSource (n := n) (m := m)) (emitText bytes) := by
  induction bytes with
  | nil => exact .pure _
  | cons byte bytes ih => exact .bind sameSource_emitByte fun _ => ih

theorem evaluates_emitMemberTraced {haakjes : Nat} {rest : List StructureMember} (kind : MemberKind) :
    Keeps (Evaluates (n := n) (m := m)) (emitMemberTraced haakjes rest kind) := by
  cases kind with
  | block len default =>
    exact .get_bind fun _ =>
      .bind (evaluates_emit fun t => EmitState.sameMode_emitBlock _ _ _ t) fun _ => .pure _
  | value type default defDeltaType =>
    exact .get_bind fun _ => .bind evaluates_parseValue fun _ => .get_bind fun _ =>
      .bind evaluates_emitValue fun _ => .bind evaluates_memberComma fun _ => .pure _
  | text data =>
    exact .get_bind fun _ => .bind evaluates_getStructText fun _ => .get_bind fun _ =>
      .bind evaluates_emitText fun _ => .bind evaluates_memberComma fun _ => .pure _
  | parenOpen => exact .get_bind fun _ => .bind evaluates_scan fun _ => .get_bind fun _ => .pure _
  | parenClose =>
    exact .get_bind fun _ => .bind evaluates_scan fun _ => .get_bind fun _ =>
      .bind evaluates_memberComma fun _ => .pure _

theorem evaluates_emitmembsLoopTraced {members : List StructureMember} {haakjes : Nat} :
    Keeps (Evaluates (n := n) (m := m)) (emitmembsLoopTraced members haakjes) := by
  induction members generalizing haakjes with
  | nil => exact .bind (evaluates_closeBraces (.pure _)) fun _ => .pure _
  | cons ip rest ih =>
    exact .bind evaluates_startTurn fun _ => .ite (.bind (evaluates_emitMemberTraced ip.kind) fun _ =>
      .bind ih fun _ => .pure _) (.pure _)

/-- A member gets what the text gives to it. -/
theorem quietly_emitMemberTraced {haakjes : Nat} {rest : List StructureMember} (kind : MemberKind)
    (s : AsmState n m) : Quietly (emitMemberTraced haakjes rest kind) s fun r t =>
      r.2.front = s ∧ Gives rest haakjes s kind r.2.bytes r.1 t.source := by
  have hkeeps : Keeps Evaluates (emitMemberTraced (n := n) (m := m) haakjes rest kind) :=
    evaluates_emitMemberTraced kind
  have hcomma : ∀ t : AsmState n m, Ensures (memberComma rest) t fun _ u =>
      u.source = (behindMember rest t.lp, t.lines) := fun t => .of_exec (exec_memberComma rest t) rfl
  -- by the kind of the member: what it reads is followed by its comma
  cases kind with
  | block len default =>
    refine .of_ensures hkeeps (.get_bind (.bind (.of_exec (exec_modify _ s) (Q := fun _ t =>
      SameSource s t) rfl) fun _ t ht => .pure ⟨rfl, ?_⟩))
    rw [show t.source = s.source from ht]
    exact .block len default
  | value type default defDeltaType =>
    refine .of_ensures hkeeps (.get_bind (.bind (ensures_parseValue type default defDeltaType s)
      fun val t ht => .get_bind (.bind (.of_keeps sameSource_emitValue) fun _ u hu =>
        .bind (hcomma u) fun _ v hv => .pure ⟨rfl, ?_⟩)))
    have hsource : u.source = (behindValue s, s.lines) := hu.trans ht.2
    obtain ⟨hlp, hlines⟩ := Prod.mk.inj hsource
    rw [hv, hlp, hlines]
    show Gives _ _ _ _ (valueBytes type val) _ _
    rw [ht.1]
    exact .value type default defDeltaType
  | text data =>
    refine .get_bind (.bind (quietly_getStructText data s) (fun _ => .get_bind fun _ =>
      .bind evaluates_emitText fun _ => .bind evaluates_memberComma fun _ => .pure _) fun bytes t ht => ?_)
    refine .of_ensures (.get_bind fun _ => .bind evaluates_emitText fun _ =>
      .bind evaluates_memberComma fun _ => .pure _) (.get_bind (.bind (.of_keeps sameSource_emitText)
        fun _ u hu => .bind (hcomma u) fun _ v hv => .pure ⟨rfl, ?_⟩))
    have hsource : u.source = t.source := hu
    obtain ⟨hlp, hlines⟩ := Prod.mk.inj hsource
    rw [hv, hlp, hlines]
    exact .text ht
  | parenOpen =>
    exact .of_ensures hkeeps (.get_bind (.bind (ensures_openBrace rest haakjes s) fun haakjes' t ht =>
      .get_bind (.pure ⟨rfl, ht⟩)))
  | parenClose =>
    refine .of_ensures hkeeps (.get_bind (.bind (ensures_closeBrace rest haakjes s) fun closed t ht =>
      .get_bind (.bind (hcomma t) fun _ u hu => .pure ⟨rfl, ?_⟩)))
    rw [hu]
    exact ht

/-- The walk gives every member what the text gives to it, unless braces stay open. -/
theorem quietly_emitmembsLoopTraced {members : List StructureMember} {haakjes : Nat}
    (s : AsmState n m) : Quietly (emitmembsLoopTraced members haakjes) s fun r _ =>
      r.1 = 0 → ReadsMembers haakjes s.source members r.2 := by
  -- by induction on the members, each of them reading what the last one has left
  induction members generalizing haakjes s with
  | nil =>
    exact .of_ensures evaluates_emitmembsLoopTraced (.after fun _ _ => .pure fun _ => .nil _ _)
  | cons ip rest ih =>
    -- inside of braces the text may go on in the next line
    have hstart : Quietly (startTurn haakjes) s fun b t => (¬b = true → haakjes ≠ 0) ∧
        t.source = if 0 < haakjes then nonBlank s.lp s.lines else s.source := by
      refine .ite (fun h => ?_) fun h => .pure ⟨fun h => absurd rfl h, by rw [if_neg h]⟩
      rw [if_pos h]
      exact Ensures.of_exec (exec_prepareNonBlankMultiLine s)
        ⟨log_nextText s, fun _ => ⟨fun _ => Nat.pos_iff_ne_zero.mp h, source_nextText s⟩⟩
    refine .bind hstart (fun _ => .ite (.bind (evaluates_emitMemberTraced ip.kind) fun _ =>
      .bind evaluates_emitmembsLoopTraced fun _ => .pure _) (.pure _)) fun b t ht => .ite (fun _ => ?_)
        fun hb => .pure fun hzero => absurd hzero (ht.1 hb)
    refine .bind (quietly_emitMemberTraced ip.kind t) (fun _ => .bind evaluates_emitmembsLoopTraced
      fun _ => .pure _) fun r u hu => ?_
    refine .bind (ih u) (fun _ => .pure _) fun r' v hv => .pure fun hzero => ?_
    refine .cons ?_ (hu.1 ▸ hu.2) (hv hzero)
    rw [hu.1]
    exact ht.2

/-! ### Instances -/

/-- The error about an instance whose braces are still open where its text ends. -/
def missingBrace : Event := .error "closing \x7d missing" none .pass3

/-- The log behind a program, when it only grows. -/
theorem mem_drop_log {s t u : AsmState n m} {e : Event} (h : s.log <+: t.log)
    (htu : t.log ++ [e] <+: u.log) :
    e ∈ u.log.drop s.log.length := by
  obtain ⟨l, hl⟩ := h
  obtain ⟨l', hl'⟩ := htu
  rw [← hl', ← hl, List.append_assoc, List.append_assoc, List.drop_left]
  exact List.mem_append_right _ (List.mem_append_left _ (List.mem_singleton_self e))

/-- An instance emits all members, unless its braces stay open. -/
theorem ensures_emitmembsTraced (st : Structure) (s : AsmState n m) :
    Ensures (emitmembsTraced st) s fun ps t => ∃ haakjes,
      EmitsMembers st.members haakjes ps s t ∧ (haakjes ≠ 0 → missingBrace ∈ t.log.drop s.log.length) := by
  have hreads : ∀ {α : Type} {p : AsmProgram n m α} (s : AsmState n m), Keeps Stays p →
      Keeps Evaluates p → Ensures p s fun _ t => Stays s t ∧ s.log <+: t.log := fun s hp hp' =>
    Ensures.and (.of_keeps hp) ((Ensures.of_keeps hp').mono fun _ _ h => h.mode.log)
  have hloop : ∀ haakjes (t : AsmState n m), Ensures (emitmembsLoopTraced st.members haakjes) t
      fun r u => EmitsMembers st.members r.1 r.2 t u ∧ t.log <+: u.log := fun haakjes t =>
    (ensures_emitmembsLoopTraced t).and
      ((Ensures.of_keeps evaluates_emitmembsLoopTraced).mono fun _ _ h => h.mode.log)
  refine .bind (hreads s evaluates_scan evaluates_scan) fun haakjes t ht => ?_
  refine .bind (hreads t evaluates_clearResultAffected evaluates_clearResultAffected) fun _ u hu => ?_
  refine .bind (hloop haakjes u) fun r v hv => ?_
  -- the missing brace is reported
  have herror : Ensures (when (r.1 ≠ 0) (error "closing \x7d missing")) v fun _ w =>
      Stays v w ∧ (r.1 ≠ 0 → w.log = v.log ++ [missingBrace]) :=
    .when (fun _ => .of_exec rfl ⟨.of_emission rfl rfl rfl rfl rfl, fun _ => rfl⟩)
      fun h => ⟨refl v, fun h' => absurd h' h⟩
  refine .bind herror fun _ w hw => ?_
  refine .bind (hreads w evaluates_scan evaluates_scan) fun atEnd x hx => ?_
  refine .bind (hreads x (.when evaluates_error) (.when evaluates_error)) fun _ y hy => ?_
  refine .bind (hreads y evaluates_checkAndWarn evaluates_checkAndWarn) fun _ z hz => .pure ?_
  have hfront : Stays s u := IsTrans.trans _ _ _ ht.1 hu.1
  have hend : Stays v z := IsTrans.trans _ _ _ hw.1
    (IsTrans.trans _ _ _ hx.1 (IsTrans.trans _ _ _ hy.1 hz.1))
  refine ⟨r.1, hv.1.between hfront hend, fun hne => ?_⟩
  refine mem_drop_log (ht.2.trans (hu.2.trans hv.2)) ?_
  rw [← hw.2 hne]
  exact hx.2.trans (hy.2.trans hz.2)

/-- The text of an instance gives the bytes to the members.  An instance starts like a nested structure,
perhaps with a brace. -/
def ReadsInstance (st : Structure) (s : AsmState n m) (ps : List (Placement n m)) : Prop :=
  ∃ haakjes left, Gives st.members 0 s .parenOpen [] haakjes left ∧ ReadsMembers haakjes left st.members ps

/-- An instance gives every member what its text gives to it. -/
theorem quietly_emitmembsTraced (st : Structure) (s : AsmState n m) :
    Quietly (emitmembsTraced st) s fun ps _ => ReadsInstance st s ps := by
  have hend : ∀ ps : List (Placement n m), Keeps (Evaluates (n := n) (m := m)) (do
      let atEnd ← AsmProgram.skipBlanks
      Program.when (!atEnd) <| error "[STRUCT] Syntax error - too many arguments?"
      checkAndWarn
      pure ps) := fun ps => .bind evaluates_scan fun _ => .bind (.when evaluates_error) fun _ =>
    .bind evaluates_checkAndWarn fun _ => .pure _
  have hkeeps : ∀ r : Nat × List (Placement n m), Keeps (Evaluates (n := n) (m := m)) (do
      Program.when (r.1 ≠ 0) <| error "closing \x7d missing"
      let atEnd ← AsmProgram.skipBlanks
      Program.when (!atEnd) <| error "[STRUCT] Syntax error - too many arguments?"
      checkAndWarn
      pure r.2) := fun r => .bind (.when evaluates_error) fun _ => hend r.2
  refine .bind (.of_ensures evaluates_scan (ensures_openBrace st.members 0 s)) (fun _ =>
    .bind evaluates_clearResultAffected fun _ => .bind evaluates_emitmembsLoopTraced hkeeps)
    fun haakjes t ht => ?_
  have hclear : Ensures (clearResultAffected (n := n) (m := m)) t fun _ u => u.source = t.source :=
    .of_exec rfl rfl
  refine .bind (.of_ensures evaluates_clearResultAffected hclear) (fun _ =>
    .bind evaluates_emitmembsLoopTraced hkeeps) fun _ u hu => ?_
  refine .bind (quietly_emitmembsLoopTraced u) hkeeps fun r v hv => ?_
  obtain ⟨left, ps⟩ := r
  -- a brace that is left open is an error
  by_cases hzero : left = 0
  · exact .of_ensures (hkeeps (left, ps)) (.after fun _ _ => .after fun _ _ => .after fun _ _ =>
      .after fun _ _ => .pure ⟨haakjes, t.source, ht, hu ▸ hv hzero⟩)
  · have hmissing : Program.when (left ≠ 0) (error (n := n) (m := m) "closing \x7d missing")
        = error "closing \x7d missing" := if_pos hzero
    dsimp only
    rw [hmissing]
    exact .error_bind rfl (hend ps)

/-- The memory behind an instance: every member is stored at its offset, and an address reads the byte
that the members have stored there last. -/
structure StoresInstance (st : Structure) (ps : List (Placement n m)) (s t : AsmState n m)
    (device device' : Device n m) : Prop where
  places : List.Forall₂ (fun ip p => p.place = s.emitAddress + ip.offset.toInt ∧
    p.stored = ip.kind.stores) st.members ps
  written : Written (ps.flatMap (·.writes)) s.image t.image device device'
  reads : s.pass = lastPass → ∀ before address byte after,
    ps.flatMap (·.writes) = before ++ (address, byte) :: after →
      (∀ later ∈ after, device.cellOf later.1 ≠ device.cellOf address) →
        device'.memGetByte address.toNat = (byte.toNat, [])

/-- **Instance size.**  In the address space, and unless a next page is mapped or a closing brace is
missing, an instance moves the address by the size of the structure, and the bytes of every member
start at the offset of the member.  Without errors the bytes of a member are what the text gives to it,
its value or its default.  The notes are those of `emitmembs`; in the last pass the bytes of all members
are what is written, and what the memory of the device reads at their places. -/
theorem structure_size {st : Structure} {fields : Fields} (hst : st.Flattened fields)
    {s : AsmState n m} (hfits : Fits s.curAddress st.members) :
    emitmembs (n := n) (m := m) st = (emitmembsTraced st >>= fun _ => pure ()) ∧
      Ensures (emitmembsTraced st) s fun ps t => t.shownPages = s.shownPages →
        missingBrace ∉ t.log.drop s.log.length →
          t.curAddress = s.curAddress + st.noffset.toInt ∧
          List.Forall₂ (fun ip p => p.address = s.curAddress + ip.offset.toInt ∧
            p.bytes.length = ip.kind.length.toNat) st.members ps ∧
          (AddsNoError s t → ReadsInstance st s ps) ∧
          t.output = s.output ++ (if s.pass = lastPass then ps.flatMap (·.bytes) else []) ∧
          ∀ device, s.device = some device → device.SlotLayout → Fits s.emitAddress st.members →
            ∃ device', StoresInstance st ps s t device device' := by
  refine ⟨emitmembs_eq st, ((ensures_emitmembsTraced st s).and (quietly_emitmembsTraced st s)).mono
    fun ps t ht hpages hbrace => ?_⟩
  obtain ⟨⟨haakjes, hemits, hmissing⟩, -, hreads⟩ := ht
  -- without the report all braces are closed, so that all members were emitted
  have hzero : haakjes = 0 := not_not.mp fun h => hbrace (hmissing h)
  have hsum := pageSum_of_shownPages hpages
  have hplaced := WellPlaced.of_flattened hst
  -- the members land one behind the other, which is at their offsets
  obtain ⟨hlands, hbehind⟩ := hemits.placed hzero hsum hfits
  obtain ⟨hall, hend⟩ := hplaced.lands hfits hlands
  refine ⟨hbehind.trans hend, hall.imp fun _ _ h => ⟨h.1, h.2.1⟩, hreads, hemits.output, ?_⟩
  intro device hdevice hlayout hspace
  obtain ⟨device', hstored⟩ := hemits.stored hzero hsum device hdevice hlayout hspace
  obtain ⟨hall, -⟩ := hplaced.lands hspace hstored.lands
  refine ⟨device', hall.imp fun _ _ h => ⟨h.1, h.2.2⟩, hstored.written, ?_⟩
  -- a byte is read back unless a later member has written over it
  intro hpass before address byte after hwrites hlater
  have hmem : (address, byte) ∈ ps.flatMap (·.writes) := hwrites ▸ by simp
  have hspace := mem_writes hspace hstored.lands hmem
  have hmemory := hstored.written.memory
  rw [if_pos (show s.image.lastPass = true from decide_eq_true hpass), hwrites] at hmemory
  exact Device.memGetByte_run hlayout hstored.written.view hmemory hspace.1 hspace.2 hlater

/-- A byte, a word and a text of two bytes. -/
def exampleRecord : Structure :=
  (((Structure.init ['R'] 0).addMember (.value .byte 1 .off)).addMember (.value .word 2 .off)).addMember
    (.text [65, 66])

/-- An instance over the border of two slots, on two lines: the word gets its default, and so does the
second byte of the text. -/
def exampleInstance : AsmState 4 8 :=
  { (AsmState.start 4 8).initPass.atText "\x7b7,,".toList
      [⟨"\x7b'C'\x7d\x7d".toList, "\x7b'C'\x7d\x7d".toList⟩] with
    pass := lastPass
    curAddress := 0xBFFE
    device := some (zxSpectrum128 0xBFFE) }

theorem structure_size_exampleRecord :
    ∃ ps t device', (emitmembsTraced exampleRecord).exec exampleInstance = (some ps, t) ∧
      t.curAddress = exampleInstance.curAddress + exampleRecord.noffset.toInt ∧
      List.Forall₂ (fun ip p => p.address = exampleInstance.curAddress + ip.offset.toInt ∧
        p.bytes.length = ip.kind.length.toNat) exampleRecord.members ps ∧
      ReadsInstance exampleRecord exampleInstance ps ∧
      ps.map (·.bytes) = [[7], [2, 0], [67, 66]] ∧
      StoresInstance exampleRecord ps exampleInstance t (zxSpectrum128 0xBFFE) device' ∧
      device'.memGetByte 0xC001 = (67, []) := by
  have hflattened : exampleRecord.Flattened _ := .member _ (.member _ (.member _ (.init ['R'] 0)))
  have hfits : Fits 0xBFFE exampleRecord.members :=
    ⟨.of_lt (by decide) (by decide) (by decide), .of_lt (by decide) (by decide) (by decide),
      .of_lt (by decide) (by decide) (by decide), by decide, by decide⟩
  -- the run is evaluated, and its notes are what the general result asks for
  obtain ⟨hsome, hpages, hquiet, hread⟩ : ((emitmembsTraced exampleRecord).exec exampleInstance).1.map
        (·.map (·.bytes)) = some [[7], [2, 0], [67, 66]] ∧
      ((emitmembsTraced exampleRecord).exec exampleInstance).2.shownPages = exampleInstance.shownPages ∧
      ((emitmembsTraced exampleRecord).exec exampleInstance).2.log = exampleInstance.log ∧
      ((emitmembsTraced exampleRecord).exec exampleInstance).2.device.map (·.memGetByte 0xC001)
        = some (67, []) := by
    decide +kernel
  rcases hexec : (emitmembsTraced exampleRecord).exec exampleInstance with ⟨_ | ps, t⟩
  · rw [hexec] at hsome
    exact absurd hsome (by simp)
  · rw [hexec] at hsome hpages hquiet hread
    have hnone : t.log.drop exampleInstance.log.length = [] := by rw [hquiet, List.drop_length]
    obtain ⟨haddress, hall, hreads, -, hstores⟩ := (structure_size hflattened hfits).2 ps t hexec hpages
      (by rw [hnone]; exact List.not_mem_nil)
    obtain ⟨device', hstored⟩ := hstores _ rfl (slotLayout_zxSpectrum128 0xBFFE) hfits
    refine ⟨ps, t, device', rfl, haddress, hall, hreads ?_, Option.some.inj hsome, hstored, ?_⟩
    · rw [AddsNoError, hnone]
      rfl
    · have hselected : t.device = some device' := hstored.written.selected
      rw [hselected] at hread
      exact Option.some.inj hread

end Sjasmplus
