import Sjasmplus.ReplaceDefine

/-!
# The buffers of a substitution (`ReplaceDefineInternal` and `ReplaceDefine` of `parser.cpp`)

A pass checks that its output has less than `LINEMAX` characters before it looks at the next character of
the line, and values are cut there.  A string literal is copied as a whole, so a pass stays inside of its
buffer of `LINEMAX2` characters exactly when every literal that it copies still fits.  The buffer of
identifiers has `LINEMAX` characters, and a longer identifier ends the assembly.

* `substLoop_ends_iff` — the loops of a pass end exactly when every identifier fits;
* `staysInside_iff` — substitution stays inside its buffers exactly when each literal and each identifier
  fits where it is read.
-/

namespace Sjasmplus

open Program

variable {ω : Type}

/-! ### Staying inside -/

/-- The pass with this number starts in this state and with this text. -/
inductive PassStart (env : SubstContext ω) (s : SubstState ω) (src : Text) :
    Nat → SubstState ω → Text → Prop
  | first : PassStart env s src 0 { s with glueToProcess := false } src
  | next {k : Nat} {t u : SubstState ω} {text dst : Text} (h : PassStart env s src k t text)
      (hexec : (replaceDefineInternal env text).exec t = (some (true, dst), u)) :
      PassStart env s src (k + 1) { u with inLine := false } dst

/-- The number of characters that the loops of a pass write, and the terminator. -/
def writtenChars (env : SubstContext ω) (text : Text) (s : SubstState ω) : Nat :=
  ((substLoop env).final (startPass text s)).nl.length + 1

/-- Every pass stays inside of its buffer, and `ReplaceDefine` returns a line behind its last pass. -/
structure StaysInside (env : SubstContext ω) (s : SubstState ω) (src : Text) : Prop where
  written : ∀ k < 31, ∀ t text, PassStart env s src k t text → writtenChars env text t ≤ lineMax2
  returns : ∃ dst t, (replaceDefine env src).exec s = (some dst, t)

/-- The next turn copies a string literal. -/
def copiesLiteral (u : SubstState ω) : Prop :=
  u.subId = none ∧ u.lp ≠ [] ∧ u.nl.length < lineMax ∧ u.comlin = 0 ∧ startsLiteral u = true

/-- What goes to the identifier behind the name of an array: blanks, and the bracket of an index. -/
def arraySuffix (lp : Text) : Text :=
  lp.takeWhile white ++
    if cur (skipBlanks lp) = '[' ∧ (stripPrefix "[#]".toList (skipBlanks lp)).isNone then ['['] else []

/-- The identifier that a turn grows. -/
def grownId (env : SubstContext ω) (sub : SubId) (s : SubstState ω) : Text :=
  let grown := growSubId env.isSubwordSubstitution (cur s.lp = '_') sub.nid s.lp
  match (lookUpSub env { sub with nid := grown.1 } { s with lp := grown.2 }).1 with
  | .array _ => grown.1 ++ arraySuffix grown.2
  | _ => grown.1

/-- What the next turn reads fits. -/
def StepFits (env : SubstContext ω) (u : SubstState ω) : Prop :=
  match u.subId with
  | some sub => (grownId env sub u).length < lineMax
  | none => copiesLiteral u → u.nl.length + (literalText u.lp).length < lineMax2

/-! ### A turn for a part of an identifier -/

/-- In the loop over the parts of an identifier, the parts so far are the text in front of `lp`. -/
def InSubId (s : SubstState ω) : Prop :=
  ∀ sub, s.subId = some sub → islabchar (cur s.lp) = true ∧ sub.nid ++ s.lp = sub.nextSubIdLp ∧
    ∀ c ∈ sub.nid, islabchar c = true

/-- Behind a turn for a part of an identifier, where the text from the part on is `p`. -/
structure PartDone (p : Text) (s t : SubstState ω) : Prop where
  inSubId : InSubId t
  descends : substMeasure t < 2 * (p.length * p.length + s.lp.length)
  grows : s.nl.length ≤ t.nl.length
  fits : t.nl.length ≤ max lineMax s.nl.length

section

variable {env : SubstContext ω} {sub : SubId} {p : Text} {s t : SubstState ω}

theorem measure_lt {l a b : Nat} (h : l < a) : 2 * (l * l + l) + 1 < 2 * (a * a + b) := by
  have hsquare : (l + 1) * (l + 1) ≤ a * a := Nat.mul_self_le_mul_self h
  simp only [Nat.add_mul, Nat.mul_add] at hsquare
  omega

/-- Something is written for the part. -/
theorem partDone_writeSub (ver : Text) (hlp : t.lp.length < p.length)
    (hnl : t.nl.length = s.nl.length) : PartDone p s (writeSub ver t) := by
  have hlength : (t.nl ++ ver.take (lineMax - t.nl.length)).length ≤ max lineMax s.nl.length := by
    rw [List.length_append, List.length_take]
    omega
  constructor
  · rintro sub' hsub'
    simp only [writeSub] at hsub' ⊢
    split_ifs at hsub' with hlab
    obtain rfl := Option.some.inj hsub'
    exact ⟨hlab, rfl, nofun⟩
  · have hless := measure_lt (b := s.lp.length) hlp
    simp only [substMeasure, writeSub]
    split_ifs with hlab
    · exact lt_of_le_of_lt (Nat.le_succ _) hless
    · exact hless
  · show s.nl.length ≤ (t.nl ++ _).length
    rw [List.length_append]
    omega
  · exact hlength

theorem partDone_replaceSub (ver : Text) (hlp : t.lp.length < p.length)
    (hnl : t.nl.length = s.nl.length) : PartDone p s (replaceSub ver t) := by
  apply partDone_writeSub
  · exact (length_glueBehind t.lp).trans_lt hlp
  · exact (length_glueAhead t.nl).trans hnl

/-- A program that reads an identifier: it exits when this is too long for its buffer, and else it is
done with the part. -/
def ReadsId (id p : Text) (s t : SubstState ω) (program : SubstProgram ω Unit) : Prop :=
  (lineMax ≤ id.length → (program.exec t).1 = none) ∧
    (id.length < lineMax → ∃ u, program.exec t = (some (), u) ∧ PartDone p s u)

theorem ReadsId.done {id : Text} {program : SubstProgram ω Unit} {u : SubstState ω}
    (hexec : program.exec t = (some (), u)) (hid : id.length < lineMax) (hdone : PartDone p s u) :
    ReadsId id p s t program :=
  ⟨fun h => absurd hid (Nat.not_lt.mpr h), fun _ => ⟨u, hexec, hdone⟩⟩

/-- An identifier that is too long already. -/
theorem ReadsId.exit {id : Text} {program : SubstProgram ω Unit} (hexec : (program.exec t).1 = none)
    (hid : lineMax ≤ id.length) : ReadsId id p s t program :=
  ⟨fun _ => hexec, fun h => absurd h (Nat.not_lt.mpr hid)⟩

/-- Characters that go to the identifier, and a program behind them. -/
theorem ReadsId.growByExtraChars {id : Text} {n : Nat} {f : SubId → SubstProgram ω Unit}
    (hid : (sub.nid ++ t.lp.take n).length ≤ id.length)
    (h : (sub.nid ++ t.lp.take n).length < lineMax →
      ReadsId id p s { t with lp := t.lp.drop n } (f { sub with nid := sub.nid ++ t.lp.take n })) :
    ReadsId id p s t (growByExtraChars n sub >>= f) := by
  -- the check of the buffer exits, or the program goes on
  by_cases hlong : lineMax ≤ (sub.nid ++ t.lp.take n).length
  · apply ReadsId.exit _ (hlong.trans hid)
    rw [Sjasmplus.growByExtraChars, exec_bind, exec_bind_of_some (exec_get t),
      exec_bind_of_some (exec_modify _ t), if_pos hlong]
    rfl
  · have hexec : (Sjasmplus.growByExtraChars n sub).exec t
        = (some { sub with nid := sub.nid ++ t.lp.take n }, { t with lp := t.lp.drop n }) := by
      rw [Sjasmplus.growByExtraChars, exec_bind_of_some (exec_get t),
        exec_bind_of_some (exec_modify _ t), if_neg hlong]
      rfl
    rw [ReadsId, exec_bind_of_some hexec]
    exact h (Nat.not_le.mp hlong)

/-- The index of an array never exits. -/
theorem exec_substituteItem (env : SubstContext ω) (list : List Text) (sub : SubId)
    (hlp : t.lp.length < p.length) (hnl : t.nl.length = s.nl.length) :
    ∃ u, (substituteItem env list sub).exec t = (some (), u) ∧ PartDone p s u := by
  rw [substituteItem, exec_bind_of_some (exec_get t)]
  rcases env.parseExpressionInSubstitution t.world t.lp with ⟨index, world⟩
  dsimp only
  rw [exec_bind_of_some (exec_modify _ t)]
  have hbehind : (t.lp.drop index.length).tail.length < p.length := by
    simp only [List.length_tail, List.length_drop]
    omega
  -- an index that is no number leaves the name as it is
  rcases if cur (t.lp.drop index.length) = ']' ∧ index.isLabelNotFound = false then index.val else none
    with _ | val
  · exact ⟨_, rfl, partDone_writeSub sub.nid hlp hnl⟩
  · dsimp only
    rw [exec_bind_of_some (exec_modify _ _)]
    rcases arrayItem list val with _ | item
    · exact ⟨_, rfl, partDone_replaceSub [] hbehind hnl⟩
    · exact ⟨_, rfl, partDone_replaceSub item hbehind hnl⟩

theorem take_length_blanks (l : Text) : l.take (l.takeWhile white).length = l.takeWhile white := by
  calc l.take (l.takeWhile white).length
    _ = (l.takeWhile white ++ l.dropWhile white).take (l.takeWhile white).length := by
      rw [List.takeWhile_append_dropWhile]
    _ = l.takeWhile white := List.take_left

theorem drop_length_blanks (l : Text) : l.drop (l.takeWhile white).length = skipBlanks l := by
  calc l.drop (l.takeWhile white).length
    _ = (l.takeWhile white ++ l.dropWhile white).drop (l.takeWhile white).length := by
      rw [List.takeWhile_append_dropWhile]
    _ = skipBlanks l := List.drop_left

/-- The name of an array, and what is behind it. -/
theorem readsId_substituteArray (env : SubstContext ω) (list : List Text) (sub : SubId)
    (hlp : t.lp.length < p.length) (hnl : t.nl.length = s.nl.length) :
    ReadsId (sub.nid ++ arraySuffix t.lp) p s t (substituteArray env list sub) := by
  have hrest : (skipBlanks t.lp).length < p.length := (length_skipBlanks_le t.lp).trans_lt hlp
  rw [substituteArray, ReadsId, exec_bind_of_some (exec_get t)]
  refine ReadsId.growByExtraChars ?_ fun hfits => ?_
  · rw [take_length_blanks, arraySuffix]
    simp only [List.length_append]
    omega
  · rw [take_length_blanks] at hfits ⊢
    rw [drop_length_blanks, ReadsId, exec_bind_of_some (exec_get _)]
    show ReadsId _ p s _ (if cur (skipBlanks t.lp) ≠ '[' then _ else _)
    -- without a bracket there is the name alone
    by_cases hbracket : cur (skipBlanks t.lp) = '['
    · rw [if_neg (not_not.mpr hbracket)]
      dsimp only
      rcases hsize : stripPrefix "[#]".toList (skipBlanks t.lp) with _ | lp
      · -- the bracket goes to the identifier too
        have hid : sub.nid ++ arraySuffix t.lp = sub.nid ++ t.lp.takeWhile white ++ ['['] := by
          rw [arraySuffix, if_pos ⟨hbracket, by rw [hsize]; rfl⟩, List.append_assoc]
        have htake : (skipBlanks t.lp).take 1 = ['['] := by
          rcases hlist : skipBlanks t.lp with _ | ⟨c, q⟩ <;> rw [hlist] at hbracket
          · exact absurd hbracket (by decide)
          · rw [cur_cons] at hbracket
            rw [hbracket]
            rfl
        rw [hid]
        refine ReadsId.growByExtraChars ?_ fun hfits => ?_
        · dsimp only
          rw [htake]
        · dsimp only at hfits ⊢
          rw [htake] at hfits ⊢
          obtain ⟨u, hexec, hdone⟩ := exec_substituteItem (p := p) (s := s) env list
            { sub with nid := sub.nid ++ t.lp.takeWhile white ++ ['['] }
            (t := { t with lp := (skipBlanks t.lp).drop 1 })
            (by simp only [List.length_drop]; omega) hnl
          exact ReadsId.done hexec hfits hdone
      · have hid : sub.nid ++ arraySuffix t.lp = sub.nid ++ t.lp.takeWhile white := by
          rw [arraySuffix, if_neg (by rw [hsize]; simp), List.append_nil]
        have hsuffix : lp.length < p.length := by
          have hlength := length_le_of_stripPrefix hsize
          omega
        rw [hid]
        refine ReadsId.done rfl hfits ?_
        exact partDone_replaceSub _ hsuffix hnl
    · rw [if_pos hbracket]
      have hid : sub.nid ++ arraySuffix t.lp = sub.nid ++ t.lp.takeWhile white := by
        rw [arraySuffix, if_neg (fun h => hbracket h.1), List.append_nil]
      rw [hid]
      refine ReadsId.done rfl hfits ?_
      exact partDone_writeSub _ hrest hnl

/-- Label characters at the start of a text end with its first other character. -/
theorem length_labchars_le {q r nid lp : Text} (h : q ++ r = nid ++ lp)
    (hq : ∀ c ∈ q, islabchar c = true) (hlp : islabchar (cur lp) = false) : q.length ≤ nid.length := by
  by_contra hlong
  rw [Nat.not_le] at hlong
  have hc : (q ++ r)[nid.length]? = (nid ++ lp)[nid.length]? := by rw [h]
  rw [List.getElem?_append_left hlong, List.getElem?_append_right (Nat.le_refl _), Nat.sub_self,
    List.getElem?_eq_getElem hlong] at hc
  rcases lp with _ | ⟨c, lp⟩
  · exact absurd hc nofun
  · obtain rfl : q[nid.length] = c := Option.some.inj hc
    rw [cur_cons, hq _ (List.getElem_mem hlong)] at hlp
    exact absurd hlp.symm Bool.false_ne_true

/-- Nothing is found for the identifier: it grows, or its first part is copied. -/
theorem exec_copyPart (env : SubstContext ω) (sub : SubId) (hnid : sub.nid ++ t.lp = sub.nextSubIdLp)
    (hlab : ∀ c ∈ sub.nid, islabchar c = true) (hne : sub.nid ≠ []) (hfits : sub.nid.length < lineMax)
    (hlp : t.lp.length < s.lp.length) (hnl : t.nl.length = s.nl.length) :
    ∃ u, (copyPart env sub).exec t = (some (), u) ∧ PartDone sub.nextSubIdLp s u := by
  rw [copyPart, exec_bind_of_some (exec_get t)]
  -- the identifier goes on, or its first part is copied and the others follow
  by_cases hmore : islabchar (cur t.lp) = true
  · rw [if_pos hmore]
    refine ⟨_, rfl, ?_, ?_, ?_, ?_⟩
    · rintro sub' hsub'
      obtain rfl := Option.some.inj hsub'
      exact ⟨hmore, hnid, hlab⟩
    · show 2 * (_ + t.lp.length) < _
      omega
    · exact hnl.ge
    · exact hnl.le.trans (le_max_right _ _)
  · rw [if_neg hmore, exec_bind_of_some (exec_modify _ t)]
    rw [Bool.not_eq_true] at hmore
    obtain ⟨q, hgrown, hrest, hq, hqne⟩ := growSubId_spec env.isSubwordSubstitution
      (cur sub.nextSubIdLp = '_') [] sub.nextSubIdLp
    have hq_ne : q ≠ [] := by
      apply hqne
      obtain ⟨c, nid, hc⟩ := List.exists_cons_of_ne_nil hne
      rw [← hnid, hc]
      exact hlab c (by rw [hc]; exact List.mem_cons_self ..)
    have hlength := congrArg List.length hrest
    rw [List.length_append] at hlength
    have hpos := List.length_pos_iff.mpr hq_ne
    have hshort : q.length ≤ sub.nid.length := length_labchars_le (hrest.trans hnid.symm) hq hmore
    have hexec : (growPart env { sub with nid := [] }).exec { t with lp := sub.nextSubIdLp }
        = (some { sub with nid := q }, { t with
            lp := (growSubId env.isSubwordSubstitution (cur sub.nextSubIdLp = '_') []
              sub.nextSubIdLp).2 }) := by
      rw [growPart, exec_bind_of_some (exec_get _), exec_bind_of_some (exec_modify _ _)]
      dsimp only
      rw [hgrown, List.nil_append, if_neg (by omega)]
      rfl
    rw [exec_bind_of_some hexec]
    refine ⟨_, rfl, partDone_writeSub q ?_ hnl⟩
    dsimp only
    omega

theorem lookUpSub_state (env : SubstContext ω) (sub : SubId) (s : SubstState ω) :
    ∃ table counter, (lookUpSub env sub s).2 =
      { s with defineTable := table, predefinedCounter := counter } := by
  rw [lookUpSub]
  dsimp only
  split
  · exact ⟨s.defineTable, s.predefinedCounter, rfl⟩
  · split
    · split
      · exact ⟨_, _, rfl⟩
      · exact ⟨_, _, rfl⟩
    · exact ⟨s.defineTable, s.predefinedCounter, rfl⟩

/-- **A part of an identifier.**  The turn exits when the identifier does not fit its buffer, and else it
takes the measure down and writes up to `LINEMAX` characters. -/
theorem readsId_subIdTurn (hs : InSubId s) (hsub : s.subId = some sub) :
    ReadsId (grownId env sub s) sub.nextSubIdLp s s (subIdTurn env sub) := by
  obtain ⟨hcur, hnid, hlab⟩ := hs sub hsub
  obtain ⟨q, hgrown, hrest, hq, hqne⟩ :=
    growSubId_spec env.isSubwordSubstitution (cur s.lp = '_') sub.nid s.lp
  have hpos := List.length_pos_iff.mpr (hqne hcur)
  have hlength := congrArg List.length hrest
  have hwhole := congrArg List.length hnid
  rw [List.length_append] at hlength hwhole
  rw [grownId, subIdTurn]
  by_cases hlong : lineMax ≤ (growSubId env.isSubwordSubstitution (cur s.lp = '_') sub.nid s.lp).1.length
  · apply ReadsId.exit
    · rw [growPart, exec_bind, exec_bind_of_some (exec_get s), exec_bind_of_some (exec_modify _ s),
        if_pos hlong]
      rfl
    · split
      · exact hlong.trans (by simp)
      · exact hlong
  · have hexec : (growPart env sub).exec s = (some { sub with nid := sub.nid ++ q },
        { s with lp := (growSubId env.isSubwordSubstitution (cur s.lp = '_') sub.nid s.lp).2 }) := by
      rw [growPart, exec_bind_of_some (exec_get s), exec_bind_of_some (exec_modify _ s), if_neg hlong,
        hgrown]
      rfl
    rw [hgrown, Nat.not_le] at hlong
    dsimp only
    rw [ReadsId, exec_bind_of_some hexec, exec_bind_of_some (exec_get _), hgrown]
    generalize (growSubId env.isSubwordSubstitution (cur s.lp = '_') sub.nid s.lp).2 = rest
      at hrest hlength ⊢
    -- what was read and what is left are the identifier from its start on
    have hnid' : (sub.nid ++ q) ++ rest = sub.nextSubIdLp := by
      rw [List.append_assoc, hrest, hnid]
    obtain ⟨table, counter, hstate⟩ := lookUpSub_state env { sub with nid := sub.nid ++ q }
      { s with lp := rest }
    rcases hfound : lookUpSub env { sub with nid := sub.nid ++ q } { s with lp := rest } with ⟨found, t⟩
    rw [hfound] at hstate
    dsimp only at hstate ⊢
    rw [exec_bind_of_some (exec_modify _ _), hstate]
    -- a value, an array, or no define at all
    cases found with
    | value ver =>
      refine ReadsId.done rfl hlong ?_
      exact partDone_replaceSub ver (show rest.length < sub.nextSubIdLp.length by omega) rfl
    | array list =>
      have hbehind : rest.length < sub.nextSubIdLp.length := by omega
      exact readsId_substituteArray (s := s) (t := { s with
        lp := rest, defineTable := table, predefinedCounter := counter }) env list
        { sub with nid := sub.nid ++ q } hbehind rfl
    | nothing =>
      obtain ⟨u, hexec, hdone⟩ := exec_copyPart (s := s) env { sub with nid := sub.nid ++ q }
        (t := { s with lp := rest, defineTable := table, predefinedCounter := counter }) hnid'
        (by simpa [or_imp, forall_and] using ⟨hlab, hq⟩) (by simpa using fun _ => hqne hcur) hlong
        (show rest.length < s.lp.length by omega) rfl
      exact ReadsId.done hexec hlong hdone

/-! ### A turn over the line -/

/-- Behind a turn of the loops that returns, and perhaps goes on. -/
structure TurnDone (goesOn : Bool) (s t : SubstState ω) : Prop where
  inSubId : goesOn = true → InSubId t
  descends : goesOn = true → substMeasure t < substMeasure s
  grows : s.nl.length ≤ t.nl.length
  literal : copiesLiteral s → t.nl.length = s.nl.length + (literalText s.lp).length
  fits : ¬copiesLiteral s → t.nl.length ≤ max lineMax s.nl.length

theorem measure_lt_of_none {s t : SubstState ω} (hs : s.subId = none) (ht : t.subId = none)
    (h : t.lp.length < s.lp.length) : substMeasure t < substMeasure s := by
  rw [substMeasure, substMeasure, hs, ht]
  exact (measure_lt h).trans (Nat.lt_succ_self _)

theorem islabchar_of_isLabelStart {lp : Text} (h : isLabelStart lp false = true) :
    islabchar (cur lp) = true := by
  have hhead : isLabelHead (cur lp) = true := h
  rw [isLabelHead, Bool.or_eq_true] at hhead
  rw [islabchar, Char.isAlphanum]
  rcases hhead with halpha | hunderscore
  · simp [halpha]
  · simp [hunderscore]

/-- A turn that moves over text outside of literals, and copies at most one character. -/
theorem TurnDone.of_moved (hs : s.subId = none) (ht : t.subId = none) (hlp : t.lp.length < s.lp.length)
    (hliteral : ¬copiesLiteral s) (hroom : s.nl.length < lineMax) (hgrows : s.nl.length ≤ t.nl.length)
    (hnl : t.nl.length ≤ s.nl.length + 1) : TurnDone true s t where
  inSubId _ sub hsub := by
    rw [ht] at hsub
    cases hsub
  descends _ := measure_lt_of_none hs ht hlp
  grows := hgrows
  literal h := absurd h hliteral
  fits _ := by
    have hle : s.nl.length + 1 ≤ lineMax := hroom
    exact (hnl.trans hle).trans (le_max_left _ _)

/-- A turn that ends the loops. -/
theorem TurnDone.of_end (hliteral : ¬copiesLiteral s) (hnl : t.nl = s.nl) : TurnDone false s t where
  inSubId := nofun
  descends := nofun
  grows := by rw [hnl]
  literal h := absurd h hliteral
  fits _ := by
    rw [hnl]
    exact le_max_right _ _

theorem not_copiesLiteral_of_slash (h : cur s.lp = '/') : ¬copiesLiteral s := by
  rintro ⟨-, -, -, -, hstarts⟩
  rw [startsLiteral, h] at hstarts
  simp at hstarts

/-- **The loop over the line.**  A turn outside of identifiers moves on, and copies a literal or at most
one character. -/
theorem turnDone_scanTurn (hs : s.subId = none) : TurnDone (scanTurn s).1 s (scanTurn s).2 := by
  rw [scanTurn]
  dsimp only
  by_cases hend : s.lp = [] ∨ lineMax ≤ s.nl.length
  · rw [if_pos hend]
    refine TurnDone.of_end (fun h => ?_) rfl
    rcases hend with hnil | hfull
    · exact h.2.1 hnil
    · exact absurd h.2.2.1 (Nat.not_lt.mpr hfull)
  rw [if_neg hend]
  rw [not_or, Nat.not_le] at hend
  have hpos := List.length_pos_iff.mpr hend.1
  have hdrop : (s.lp.drop 2).length < s.lp.length := by
    rw [List.length_drop]
    omega
  have htail : s.lp.tail.length < s.lp.length := by
    rw [List.length_tail]
    omega
  -- the tests in the order of the source
  by_cases hopens : cur s.lp = '/' ∧ cur s.lp.tail = '*'
  · rw [if_pos hopens]
    have hliteral := not_copiesLiteral_of_slash hopens.1
    exact TurnDone.of_moved hs hs hdrop hliteral hend.2 le_rfl (Nat.le_succ _)
  rw [if_neg hopens]
  by_cases hcomment : s.comlin ≠ 0
  · rw [if_pos hcomment]
    have hliteral : ¬copiesLiteral s := fun h => hcomment h.2.2.2.1
    by_cases hcloses : cur s.lp = '*' ∧ cur s.lp.tail = '/'
    · rw [if_pos hcloses]
      refine TurnDone.of_moved hs hs hdrop hliteral hend.2 ?_ ?_
      · show s.nl.length ≤ (if s.comlin = 1 then s.nl ++ [' '] else s.nl).length
        split_ifs <;> simp
      · show (if s.comlin = 1 then s.nl ++ [' '] else s.nl).length ≤ s.nl.length + 1
        split_ifs <;> simp
    · rw [if_neg hcloses]
      exact TurnDone.of_moved hs hs htail hliteral hend.2 le_rfl (Nat.le_succ _)
  rw [if_neg hcomment]
  by_cases hline : cur s.lp = ';' ∨ (cur s.lp = '/' ∧ cur s.lp.tail = '/')
  · rw [if_pos hline]
    refine TurnDone.of_end (fun h => ?_) rfl
    rcases hline with hsemicolon | hslash
    · have hstarts := h.2.2.2.2
      rw [startsLiteral, hsemicolon] at hstarts
      simp at hstarts
    · exact not_copiesLiteral_of_slash hslash.1 h
  rw [if_neg hline]
  by_cases hstarts : startsLiteral s = true
  · rw [if_pos hstarts]
    have hliteral : copiesLiteral s := ⟨hs, hend.1, hend.2, not_not.mp hcomment, hstarts⟩
    have happend := congrArg List.length (literalRest_append (cur s.lp) s.lp.tail)
    rw [List.length_append] at happend
    constructor
    · rintro - sub hsub
      rw [hs] at hsub
      cases hsub
    · exact fun _ => measure_lt_of_none hs hs (by dsimp only; omega)
    · simp
    · exact fun _ => List.length_append
    · exact fun h => absurd hliteral h
  rw [if_neg hstarts]
  have hliteral : ¬copiesLiteral s := fun h => hstarts h.2.2.2.2
  by_cases hlabel : isLabelStart s.lp false = false
  · rw [if_pos hlabel]
    refine TurnDone.of_moved hs hs htail hliteral hend.2 ?_ ?_ <;> simp
  rw [if_neg hlabel]
  rw [Bool.not_eq_false] at hlabel
  constructor
  · rintro - sub hsub
    obtain rfl := Option.some.inj hsub
    exact ⟨islabchar_of_isLabelStart hlabel, rfl, nofun⟩
  · intro _
    rw [substMeasure, substMeasure, hs]
    exact Nat.lt_succ_self _
  · exact le_rfl
  · exact fun h => absurd h hliteral
  · exact fun _ => le_max_right _ _

/-! ### A turn -/

theorem exec_substTurn_of_none (env : SubstContext ω) (hs : s.subId = none) :
    (substTurn env ()).exec s =
      (some (if (scanTurn s).1 then .inl () else .inr ()), (scanTurn s).2) := by
  rw [substTurn, exec_bind_of_some (exec_get s), hs]
  rcases scanTurn s with ⟨more, t⟩
  rfl

theorem exec_substTurn_of_some (env : SubstContext ω) (hs : s.subId = some sub) :
    (substTurn env ()).exec s =
      (subIdTurn env sub >>= fun _ => pure (.inl ()) : SubstProgram ω (Unit ⊕ Unit)).exec s := by
  rw [substTurn, exec_bind_of_some (exec_get s), hs]

/-- The identifier that a turn reads fits if the turn returns. -/
theorem fits_of_exec {r : Unit ⊕ Unit} (hs : InSubId s) (hsub : s.subId = some sub)
    (hexec : (substTurn env ()).exec s = (some r, t)) : (grownId env sub s).length < lineMax := by
  by_contra hlong
  have hnone : ((subIdTurn env sub).exec s).1 = none :=
    (readsId_subIdTurn hs hsub).1 (Nat.not_lt.mp hlong)
  rw [exec_substTurn_of_some env hsub, exec_bind] at hexec
  rcases hturn : (subIdTurn env sub).exec s with ⟨_ | u, v⟩ <;> rw [hturn] at hexec hnone
  · exact absurd (congrArg Prod.fst hexec) nofun
  · cases hnone

/-- A turn returns if the identifier that it reads fits. -/
theorem exec_substTurn_of_fits (hs : InSubId s)
    (hfits : ∀ sub, s.subId = some sub → (grownId env sub s).length < lineMax) :
    ∃ r t, (substTurn env ()).exec s = (some r, t) := by
  rcases hsub : s.subId with _ | sub
  · exact ⟨_, _, exec_substTurn_of_none env hsub⟩
  · obtain ⟨u, hturn, -⟩ := (readsId_subIdTurn hs hsub).2 (hfits sub hsub)
    rw [exec_substTurn_of_some env hsub]
    exact ⟨_, u, exec_bind_of_some hturn⟩

/-- A turn that returns. -/
theorem turnDone_of_exec {r : Unit ⊕ Unit} (hs : InSubId s)
    (hexec : (substTurn env ()).exec s = (some r, t)) : TurnDone r.isLeft s t := by
  rcases hsub : s.subId with _ | sub
  · have hdone := turnDone_scanTurn hsub
    rw [exec_substTurn_of_none env hsub] at hexec
    obtain ⟨hr, rfl⟩ := Prod.mk.inj hexec
    obtain rfl := Option.some.inj hr
    rcases hmore : (scanTurn s).1 <;> rw [hmore] at hdone <;> exact hdone
  · have hliteral : ¬copiesLiteral s := by
      rintro ⟨hnone, -⟩
      rw [hsub] at hnone
      cases hnone
    obtain ⟨u, hturn, hdone⟩ := (readsId_subIdTurn hs hsub).2 (fits_of_exec hs hsub hexec)
    rw [exec_substTurn_of_some env hsub, exec_bind_of_some hturn] at hexec
    obtain ⟨hr, rfl⟩ := Prod.mk.inj hexec
    obtain rfl := Option.some.inj hr
    constructor
    · exact fun _ => hdone.inSubId
    · intro _
      rw [substMeasure, substMeasure, hsub]
      exact hdone.descends
    · exact hdone.grows
    · exact fun h => absurd h hliteral
    · exact fun _ => hdone.fits

/-! ### The loops of a pass -/

theorem descendsOn_substTurn (env : SubstContext ω) :
    DescendsOn InSubId substMeasure (substTurn env) := by
  intro _ s hs r t hexec hleft
  have hdone := turnDone_of_exec hs hexec
  exact ⟨hdone.inSubId hleft, hdone.descends hleft⟩

/-- The state behind a number of turns of a pass. -/
def Reaches (env : SubstContext ω) (s : SubstState ω) (n : Nat) (u : SubstState ω) : Prop :=
  TurnsIn (substTurn env) ((), s) n ((), u)

theorem Reaches.inSubId {n : Nat} {u : SubstState ω} (h : Reaches env s n u) (hs : InSubId s) :
    InSubId u := by
  induction n generalizing u with
  | zero =>
    cases h
    exact hs
  | succ n ih =>
    cases h with
    | @succ _ y _ h hturn => exact (turnDone_of_exec (ih h) hturn).inSubId rfl

/-- The loops of a pass end exactly when all identifiers on their way fit. -/
theorem substLoop_ends_iff (hs : InSubId s) : (∃ t, (substLoop env).exec s = (some (), t)) ↔
    ∀ n u, Reaches env s n u → ∀ sub, u.subId = some sub → (grownId env sub u).length < lineMax := by
  constructor
  · rintro ⟨t, hexec⟩ n u hu sub hsub
    obtain ⟨r, v, hturn⟩ := exec_turn_of_loop (x := ((), s)) hexec hu
    exact fits_of_exec (hu.inSubId hs) hsub hturn
  · intro hfits
    obtain ⟨⟨⟩, t, hexec⟩ := exec_whileLoop_of_returns (descendsOn_substTurn env) hs fun n y hy =>
      exec_substTurn_of_fits (Reaches.inSubId hy hs) (hfits n y.2 hy)
    exact ⟨t, hexec⟩

/-- The output only grows. -/
theorem length_nl_le {fuel : Nat} (hs : InSubId s)
    (hexec : (loop (substTurn env) fuel ()).exec s = (some (), t)) : s.nl.length ≤ t.nl.length := by
  induction fuel generalizing s with
  | zero => simp [loop] at hexec
  | succ fuel ih =>
    rw [loop, exec_bind] at hexec
    rcases hturn : (substTurn env ()).exec s with ⟨_ | ⟨⟨⟩⟩ | ⟨⟨⟩⟩, u⟩ <;> rw [hturn] at hexec
    · exact absurd (congrArg Prod.fst hexec) (Option.some_ne_none ()).symm
    · have hdone := turnDone_of_exec hs hturn
      exact hdone.grows.trans (ih (hdone.inSubId rfl) hexec)
    · obtain rfl : u = t := congrArg Prod.snd hexec
      exact (turnDone_of_exec hs hturn).grows

/-- A turn that copies no literal stays inside of the buffer. -/
theorem TurnDone.length_nl_lt {goesOn : Bool} (h : TurnDone goesOn s t) (hs : s.nl.length < lineMax2)
    (hliteral : copiesLiteral s → s.nl.length + (literalText s.lp).length < lineMax2) :
    t.nl.length < lineMax2 := by
  by_cases hcopies : copiesLiteral s
  · rw [h.literal hcopies]
    exact hliteral hcopies
  · have hlines : lineMax < lineMax2 := by decide
    exact (h.fits hcopies).trans_lt (max_lt hlines hs)

/-- The loops stay inside of the buffer exactly when all literals on their way do. -/
theorem length_nl_lt_iff (hs : InSubId s) (hnl : s.nl.length < lineMax2)
    (hexec : (substLoop env).exec s = (some (), t)) : t.nl.length < lineMax2 ↔
      ∀ n u, Reaches env s n u → copiesLiteral u →
        u.nl.length + (literalText u.lp).length < lineMax2 := by
  constructor
  · intro ht n u hu hcopies
    -- the buffer only grows, so that a turn of the run writes less than all of it
    obtain ⟨left, hleft⟩ := exec_loop_behind (x := ((), s)) hexec hu
    cases left with
    | zero => simp [loop] at hleft
    | succ left =>
      rw [loop, exec_bind] at hleft
      rcases hturn : (substTurn env ()).exec u with ⟨_ | ⟨⟨⟩⟩ | ⟨⟨⟩⟩, v⟩ <;> rw [hturn] at hleft
      · exact absurd (congrArg Prod.fst hleft) (Option.some_ne_none ()).symm
      · have hdone := turnDone_of_exec (hu.inSubId hs) hturn
        rw [← hdone.literal hcopies]
        exact (length_nl_le (hdone.inSubId rfl) hleft).trans_lt ht
      · obtain rfl : v = t := congrArg Prod.snd hleft
        rw [← (turnDone_of_exec (hu.inSubId hs) hturn).literal hcopies]
        exact ht
  · intro hliterals
    have hreached : ∀ n u, Reaches env s n u → u.nl.length < lineMax2 := by
      intro n
      -- by induction on the turns: any of them but a literal checks the buffer
      induction n with
      | zero =>
        intro u hu
        cases hu
        exact hnl
      | succ n ih =>
        intro u hu
        cases hu with
        | @succ _ y _ hy hturn =>
          have hdone := turnDone_of_exec (Reaches.inSubId hy hs) hturn
          exact hdone.length_nl_lt (ih y.2 hy) (hliterals n y.2 hy)
    obtain ⟨n, y, hy, hend⟩ := turns_of_exec_loop (x := ((), s)) hexec
    have hdone := turnDone_of_exec (Reaches.inSubId hy hs) hend
    exact hdone.length_nl_lt (hreached n y.2 hy) (hliterals n y.2 hy)

end

/-! ### The passes -/

section

variable {env : SubstContext ω} {s t : SubstState ω} {src text : Text} {k : Nat}

theorem inSubId_startPass (src : Text) (s : SubstState ω) : InSubId (startPass src s) := nofun

/-- What a pass does behind its loops. -/
def endPass (s : SubstState ω) : SubstProgram ω (Bool × Text) := do
  when (lineMax ≤ s.nl.length + 1) <|
    substError "line too long after macro expansion" (some s.nl) .suppress
  if !s.definegereplaced && s.glueToProcess then do
    modify fun s => { s with glueToProcess := false }
    pure (true, glueTogether s.nl)
  else pure (s.definegereplaced, if !s.glueToProcess && skipBlanks s.nl = [] then [] else s.nl)

theorem returns_endPass (s : SubstState ω) : Returns (endPass s) := by
  have herror : Returns (when (lineMax ≤ s.nl.length + 1) <|
      substError "line too long after macro expansion" (some s.nl) .suppress : SubstProgram ω Unit) :=
    Returns.ite (fun _ => ⟨(), rfl⟩) (Returns.pure ())
  refine herror.bind fun _ => Returns.ite ?_ (Returns.pure _)
  exact Returns.bind (fun _ => ⟨(), rfl⟩) fun _ => Returns.pure _

/-- A pass returns exactly when its loops do. -/
theorem replaceDefineInternal_returns_iff (env : SubstContext ω) (text : Text) (t : SubstState ω) :
    (∃ r u, (replaceDefineInternal env text).exec t = (some r, u)) ↔
      ∃ u, (substLoop env).exec (startPass text t) = (some (), u) := by
  rw [replaceDefineInternal, exec_bind_of_some (exec_modify _ t), exec_bind]
  rcases (substLoop env).exec (startPass text t) with ⟨_ | ⟨⟩, u⟩
  · simp
  · dsimp only
    rw [exec_bind_of_some (exec_get u)]
    obtain ⟨r, hend⟩ := returns_endPass u u
    exact ⟨fun _ => ⟨u, rfl⟩, fun _ => ⟨r, _, hend⟩⟩

/-- Behind its first passes, the loop of `ReplaceDefine` goes on with the ones that are left. -/
theorem PassStart.exec_eq (h : PassStart env s src k t text) (hk : k ≤ 31) :
    (replaceDefine env src).exec s = (replaceDefinePasses env (31 - k) text).exec t := by
  induction h with
  | first => rfl
  | @next k t u text dst _ hexec ih =>
    have hleft : 31 - k = (31 - (k + 1)) + 1 := by omega
    rw [ih (by omega), hleft, replaceDefinePasses, exec_bind_of_some hexec]
    rfl

/-- When `ReplaceDefine` returns, all its passes do. -/
theorem PassStart.returns {dst : Text} {v : SubstState ω} (h : PassStart env s src k t text)
    (hk : k < 31) (hreturns : (replaceDefine env src).exec s = (some dst, v)) :
    ∃ r u, (replaceDefineInternal env text).exec t = (some r, u) := by
  have hleft : 31 - k = (31 - (k + 1)) + 1 := by omega
  rw [h.exec_eq hk.le, hleft, replaceDefinePasses, exec_bind] at hreturns
  rcases hpass : (replaceDefineInternal env text).exec t with ⟨_ | r, u⟩ <;> rw [hpass] at hreturns
  · exact absurd (congrArg Prod.fst hreturns) nofun
  · exact ⟨r, u, rfl⟩

/-- When all passes return, so does `ReplaceDefine`. -/
theorem exec_replaceDefine_of_passes
    (h : ∀ k < 31, ∀ t text, PassStart env s src k t text →
      ∃ r u, (replaceDefineInternal env text).exec t = (some r, u)) :
    ∃ dst t, (replaceDefine env src).exec s = (some dst, t) := by
  have hleft : ∀ m ≤ 31, ∀ t text, PassStart env s src (31 - m) t text →
      ∃ dst u, (replaceDefinePasses env m text).exec t = (some dst, u) := by
    intro m
    -- by induction on the passes that are left
    induction m with
    | zero => exact fun _ t text _ => ⟨text, _, rfl⟩
    | succ m ih =>
      intro hm t text hstart
      obtain ⟨⟨replaced, dst⟩, u, hpass⟩ := h (31 - (m + 1)) (by omega) t text hstart
      rw [replaceDefinePasses, exec_bind_of_some hpass]
      cases replaced with
      | false => exact ⟨dst, u, rfl⟩
      | true =>
        have hnext : 31 - (m + 1) + 1 = 31 - m := by omega
        exact ih (by omega) _ dst (hnext ▸ hstart.next hpass)
  exact hleft 31 le_rfl _ src .first

/-- **Staying inside.**  Substitution stays inside of its buffers, and returns behind at most 31 passes,
exactly when all literals and identifiers fit where the passes read them. -/
theorem staysInside_iff (env : SubstContext ω) (s : SubstState ω) (src : Text) :
    StaysInside env s src ↔ ∀ k < 31, ∀ t text, PassStart env s src k t text →
      ∀ n u, Reaches env (startPass text t) n u → StepFits env u := by
  constructor
  · intro h k hk t text hstart n u hu
    have hinside := inSubId_startPass text t
    obtain ⟨dst, v, hreturns⟩ := h.returns
    obtain ⟨w, hloop⟩ := (replaceDefineInternal_returns_iff env text t).mp (hstart.returns hk hreturns)
    rw [StepFits]
    -- in an identifier the check exits, and outside of one the literals have to fit
    rcases hsub : u.subId with _ | sub
    · have hwritten := h.written k hk t text hstart
      rw [writtenChars, final, hloop] at hwritten
      exact (length_nl_lt_iff hinside (show 0 < lineMax2 by decide) hloop).mp hwritten n u hu
    · exact (substLoop_ends_iff hinside).mp ⟨w, hloop⟩ n u hu sub hsub
  · intro h
    have hends : ∀ k < 31, ∀ t text, PassStart env s src k t text →
        ∃ w, (substLoop env).exec (startPass text t) = (some (), w) := by
      intro k hk t text hstart
      apply (substLoop_ends_iff (inSubId_startPass text t)).mpr
      intro n u hu sub hsub
      have hfits := h k hk t text hstart n u hu
      rw [StepFits, hsub] at hfits
      exact hfits
    constructor
    · intro k hk t text hstart
      obtain ⟨w, hloop⟩ := hends k hk t text hstart
      rw [writtenChars, final, hloop]
      apply (length_nl_lt_iff (inSubId_startPass text t) (show 0 < lineMax2 by decide) hloop).mpr
      intro n u hu hcopies
      have hfits := h k hk t text hstart n u hu
      rw [StepFits, hcopies.1] at hfits
      exact hfits hcopies
    · apply exec_replaceDefine_of_passes
      intro k hk t text hstart
      exact (replaceDefineInternal_returns_iff env text t).mpr (hends k hk t text hstart)

end

/-! ### Literals behind values -/

section

variable {s : SubstState ω} {p : Text}

/-- A table with two defines. -/
def twoDefines (a b : Text) : DefineTable where
  defs i := if i = DefineTable.bucket ['A'] then [⟨['A'], a, []⟩]
    else if i = DefineTable.bucket ['B'] then [⟨['B'], b, []⟩] else []
  defArrayList := []

/-- Underscores inside of identifiers count, and there are no macro arguments. -/
def twoEnv : SubstContext Unit := ⟨true, fun _ => none, 1, fun w _ => (⟨none, 0, false, []⟩, w)⟩

/-- A state with two defines. -/
def twoState (a b : Text) (inLine : Bool) (log : List Event) : SubstState Unit :=
  ⟨[], [], none, false, true, false, 0, inLine, none, false, twoDefines a b, 0, (), log⟩

/-- Behind a blank there is nothing to glue, when no underscore comes next. -/
theorem glueBehind_of_blank {c : Char} (hwhite : white c = false) (hc : c ≠ glueChar) (p : Text) :
    glueBehind (' ' :: c :: p) = (' ' :: c :: p, false) := by
  have hrest : (' ' :: c :: p).dropWhile (fun c => white c && c ≠ glueTag) = c :: p := by
    rw [List.dropWhile_cons_of_pos (by decide), List.dropWhile_cons_of_neg (by simp [hwhite])]
  rw [glueBehind, hrest, if_neg (fun h => hc h.2.1)]

/-- A value at the start of the output, in front of a blank. -/
theorem replaceSub_of_blank {c : Char} {v p : Text} {u : SubstState ω} (hnl : u.nl = [])
    (hlp : u.lp = ' ' :: c :: p) (hwhite : white c = false) (hc : c ≠ glueChar) :
    replaceSub v u = { u with nl := v.take lineMax, subId := none, definegereplaced := true } := by
  have hbehind : glueBehind u.lp = (u.lp, false) := by
    rw [hlp]
    exact glueBehind_of_blank hwhite hc p
  have hahead : glueAhead u.nl = (u.nl, false) := by
    rw [hnl]
    rfl
  rw [replaceSub, writeSub, hbehind, hahead, hnl, hlp]
  simp [islabchar]

/-- The state with the name at the start of a line in front of `lp`. -/
def inName (line lp : Text) (s : SubstState ω) : SubstState ω :=
  { startPass lp s with subId := some ⟨[], line, true⟩, afterNonAlphaNumNext := false }

/-- The state behind the name, with its value in the output. -/
def behindName (v lp : Text) (s : SubstState ω) : SubstState ω :=
  { startPass lp s with nl := v.take lineMax, definegereplaced := true, afterNonAlphaNumNext := false }

/-- The name of a define at the start of a line, in front of a blank, is replaced. -/
theorem reaches_behindName (a b p : Text) {c x : Char} {v : Text}
    (hx : x = 'A' ∧ v = a ∨ x = 'B' ∧ v = b) (hwhite : white c = false) (hc : c ≠ glueChar)
    (inLine : Bool) (log : List Event) :
    Reaches twoEnv (startPass (x :: ' ' :: c :: p) (twoState a b inLine log)) 2
      (behindName v (' ' :: c :: p) (twoState a b inLine log)) := by
  let line := x :: ' ' :: c :: p
  let s := twoState a b inLine log
  have hname : (substTurn twoEnv ()).exec (startPass line s) =
      (some (.inl ()), inName line line s) := by
    rcases hx with ⟨rfl, rfl⟩ | ⟨rfl, rfl⟩ <;> rfl
  have hsub : (subIdTurn twoEnv ⟨[], line, true⟩).exec (inName line line s) =
      (some (), replaceSub v (inName line (' ' :: c :: p) s)) := by
    rcases hx with ⟨rfl, rfl⟩ | ⟨rfl, rfl⟩ <;> rfl
  have hvalue : (substTurn twoEnv ()).exec (inName line line s) =
      (some (.inl ()), behindName v (' ' :: c :: p) s) := by
    have hturn := exec_substTurn_of_some twoEnv
      (show (inName line line s).subId = some ⟨[], line, true⟩ from rfl)
    rw [hturn, exec_bind_of_some hsub,
      replaceSub_of_blank rfl rfl hwhite hc]
    rfl
  exact (TurnsIn.zero.succ (z := ((), inName line line s)) hname).succ hvalue

/-- A blank is copied. -/
theorem exec_substTurn_blank (env : SubstContext ω) {s : SubstState ω} {p : Text} (hsub : s.subId = none)
    (hlp : s.lp = ' ' :: p) (hroom : s.nl.length < lineMax) (hcomlin : s.comlin = 0) :
    (substTurn env ()).exec s = (some (.inl ()),
      { s with lp := p, nl := s.nl ++ [' '], afterNonAlphaNumNext := true }) := by
  have hscan : scanTurn s =
      (true, { s with lp := p, nl := s.nl ++ [' '], afterNonAlphaNumNext := true }) := by
    have hroom' : ¬(s.lp = [] ∨ lineMax ≤ s.nl.length) := by
      rw [hlp, not_or]
      exact ⟨List.cons_ne_nil _ _, Nat.not_le.mpr hroom⟩
    rw [scanTurn]
    dsimp only
    rw [if_neg hroom', hlp]
    simp [hcomlin, startsLiteral, hlp, isLabelStart, isLabelHead]
  rw [exec_substTurn_of_none env hsub, hscan]
  rfl

/-- A literal is copied. -/
theorem exec_substTurn_literal (env : SubstContext ω) {s : SubstState ω} (h : copiesLiteral s) :
    (substTurn env ()).exec s = (some (.inl ()),
      { s with
        lp := (literalRest (cur s.lp) s.lp.tail).2
        nl := s.nl ++ literalText s.lp
        afterNonAlphaNumNext := true }) := by
  obtain ⟨hsub, hne, hroom, hcomlin, hstarts⟩ := h
  have hquote : cur s.lp = '"' ∨ cur s.lp = '\'' := by
    simp only [startsLiteral, Bool.and_eq_true, Bool.or_eq_true, decide_eq_true_eq] at hstarts
    exact hstarts.2
  have hscan : scanTurn s = (true, { s with
      lp := (literalRest (cur s.lp) s.lp.tail).2
      nl := s.nl ++ literalText s.lp
      afterNonAlphaNumNext := true }) := by
    have hroom' : ¬(s.lp = [] ∨ lineMax ≤ s.nl.length) := not_or.mpr ⟨hne, Nat.not_le.mpr hroom⟩
    rw [scanTurn]
    dsimp only
    rcases hquote with hquote | hquote <;> simp [hroom', hquote, hcomlin, hstarts]
  rw [exec_substTurn_of_none env hsub, hscan]
  rfl

/-- The loops end with the line. -/
theorem exec_substTurn_end (env : SubstContext ω) (hsub : s.subId = none) (hlp : s.lp = []) :
    (substTurn env ()).exec s = (some (.inr ()), s) := by
  have hscan : scanTurn s = (false, s) := by
    rw [scanTurn]
    exact if_pos (.inl hlp)
  rw [exec_substTurn_of_none env hsub, hscan]
  rfl

/-- The delimiter that ends a literal. -/
theorem literalRest_of_closed {p : Text} (hp : ∀ c ∈ p, c ≠ '"' ∧ c ≠ '\\') :
    literalRest '"' (p ++ ['"']) = (p ++ ['"'], []) := by
  induction p with
  | nil => rfl
  | cons c p ih =>
    obtain ⟨⟨hquote, hescape⟩, hp⟩ := List.forall_mem_cons.mp hp
    obtain ⟨d, q, hq⟩ := List.exists_cons_of_ne_nil (show p ++ ['"'] ≠ [] by simp)
    rw [List.cons_append, hq, literalRest, if_neg hquote, if_neg (fun h => hescape h.2), ← hq, ih hp]

/-- A literal without a second delimiter goes to the end of the line. -/
theorem literalRest_of_open {c1 : Char} (hc1 : c1 ≠ '"') {p : Text} (hp : ∀ c ∈ p, c ≠ c1) :
    literalRest c1 p = (p, []) := by
  fun_induction literalRest c1 p with
  | case1 => rfl
  | case2 => rfl
  | case3 => exact absurd rfl (List.forall_mem_cons.mp hp).1
  | case4 c d p _ hescape => exact absurd hescape.1 hc1
  | case5 c d p _ _ ih => rw [ih (List.forall_mem_cons.mp hp).2]

/-- The state in front of a literal behind a value. -/
def atLiteral (v p : Text) (s : SubstState ω) : SubstState ω :=
  { startPass p s with nl := v ++ [' '], definegereplaced := true }

theorem copiesLiteral_atLiteral {c : Char} {v : Text} (hc : c = '"' ∨ c = '\'')
    (hv : v.length + 1 < lineMax) (hcomlin : s.comlin = 0) : copiesLiteral (atLiteral v (c :: p) s) := by
  refine ⟨rfl, List.cons_ne_nil _ _, ?_, hcomlin, ?_⟩
  · show (v ++ [' ']).length < lineMax
    rw [List.length_append]
    exact hv
  · rcases hc with rfl | rfl <;> rfl

/-- A pass comes to the literal behind a name and a blank. -/
theorem reaches_atLiteral (a b p : Text) {c x : Char} {v : Text} (hx : x = 'A' ∧ v = a ∨ x = 'B' ∧ v = b)
    (hc : c = '"' ∨ c = '\'') (hv : v.length + 1 < lineMax) (inLine : Bool) (log : List Event) :
    Reaches twoEnv (startPass (x :: ' ' :: c :: p) (twoState a b inLine log)) 3
      (atLiteral v (c :: p) (twoState a b inLine log)) := by
  have hname : Reaches twoEnv (startPass (x :: ' ' :: c :: p) (twoState a b inLine log)) 2
      (behindName v (' ' :: c :: p) (twoState a b inLine log)) := by
    apply reaches_behindName a b p hx
    · rcases hc with rfl | rfl <;> decide
    · rcases hc with rfl | rfl <;> decide
  have htake : v.take lineMax = v := List.take_of_length_le (by omega)
  have hblank := exec_substTurn_blank twoEnv
    (s := behindName v (' ' :: c :: p) (twoState a b inLine log)) rfl rfl
    (by show (v.take lineMax).length < lineMax; rw [htake]; omega) rfl
  have hbehind := hname.succ (z := ((), _)) hblank
  show TurnsIn _ _ 3 ((), { startPass (c :: p) _ with nl := v ++ [' '], definegereplaced := true })
  rw [← htake]
  exact hbehind

/-- The state at the end of a line. -/
def behindLiteral (text : Text) (s : SubstState ω) : SubstState ω :=
  { startPass [] s with nl := text, definegereplaced := true }

/-- A pass over a name, a blank and a literal that ends the line. -/
theorem exec_substLoop_twoEnv (a b p : Text) (ha : a.length + 1 < lineMax)
    (hp : literalRest '"' p = (p, [])) :
    (substLoop twoEnv).exec (startPass ('A' :: ' ' :: '"' :: p) (twoState a b true [])) =
      (some (), behindLiteral (a ++ ' ' :: '"' :: p) (twoState a b true [])) := by
  have hreached := reaches_atLiteral a b p (c := '"') (.inl ⟨rfl, rfl⟩) (.inl rfl) ha true []
  have hcopies : copiesLiteral (atLiteral a ('"' :: p) (twoState a b true [])) :=
    copiesLiteral_atLiteral (.inl rfl) ha rfl
  have hliteral : (substTurn twoEnv ()).exec (atLiteral a ('"' :: p) (twoState a b true [])) =
      (some (.inl ()), behindLiteral (a ++ ' ' :: '"' :: p) (twoState a b true [])) := by
    rw [exec_substTurn_literal twoEnv hcopies]
    simp [atLiteral, behindLiteral, startPass, literalText, hp]
  -- nothing is left behind the literal
  have hend : (substTurn twoEnv ()).exec (behindLiteral (a ++ ' ' :: '"' :: p) (twoState a b true [])) =
      (some (.inr ()), behindLiteral (a ++ ' ' :: '"' :: p) (twoState a b true [])) :=
    exec_substTurn_end twoEnv rfl rfl
  have hfuel : (asks substMeasure).exec (startPass ('A' :: ' ' :: '"' :: p) (twoState a b true [])) =
      (some (2 * ((p.length + 3) * (p.length + 3) + (p.length + 3)) + 1), _) := rfl
  rw [substLoop, whileLoop, exec_bind_of_some hfuel]
  apply exec_loop_of_end (x := ((), _)) (hreached.succ (z := ((), _)) hliteral) hend
  omega

/-- The first pass puts the value in the place of the name, and copies the literal. -/
theorem exec_firstPass (a b p : Text) (ha : ('B' :: a).length + 1 < lineMax)
    (hp : literalRest '"' p = (p, [])) :
    ∃ u log, (replaceDefineInternal twoEnv ('A' :: ' ' :: '"' :: p)).exec (twoState ('B' :: a) b true [])
      = (some (true, 'B' :: a ++ ' ' :: '"' :: p), u) ∧
      ∀ text, startPass text { u with inLine := false } =
        startPass text (twoState ('B' :: a) b false log) := by
  rw [replaceDefineInternal, exec_bind_of_some (exec_modify _ _),
    exec_bind_of_some (exec_substLoop_twoEnv _ b p ha hp), exec_bind_of_some (exec_get _), when]
  by_cases hlong : lineMax ≤ (behindLiteral ('B' :: a ++ ' ' :: '"' :: p)
      (twoState ('B' :: a) b true [])).nl.length + 1
  · rw [if_pos hlong]
    exact ⟨_, _, rfl, fun _ => rfl⟩
  · rw [if_neg hlong]
    exact ⟨_, _, rfl, fun _ => rfl⟩

/-- A character of a run of one character. -/
theorem mem_literal {c : Char} {n : Nat} {c1 c2 : Char} (hc : c ∈ List.replicate n c1) (hc1 : c1 ≠ c2) :
    c ≠ c2 := by
  rw [List.eq_of_mem_replicate hc]
  exact hc1

/-- A pass with a long value in front of a long literal leaves its buffer. -/
theorem not_staysInside_of_second (a b p : Text) (ha : ('B' :: a).length + 1 < lineMax)
    (hb : b.length + 1 < lineMax) (hp : literalRest '"' p = (p, [])) {q : Text}
    (hq : a ++ ' ' :: '"' :: p = ' ' :: '\'' :: q) (hopen : literalRest '\'' q = (q, []))
    (hlong : lineMax2 ≤ b.length + 1 + (q.length + 1)) :
    ¬StaysInside twoEnv (twoState ('B' :: a) b true []) ('A' :: ' ' :: '"' :: p) := by
  intro h
  obtain ⟨u, log, hpass, hstart⟩ := exec_firstPass a b p ha hp
  rw [List.cons_append, hq] at hpass
  have hfirst : PassStart twoEnv (twoState ('B' :: a) b true []) ('A' :: ' ' :: '"' :: p) 0
      (twoState ('B' :: a) b true []) ('A' :: ' ' :: '"' :: p) := .first
  have hsecond := hfirst.next hpass
  have hinside := inSubId_startPass ('B' :: ' ' :: '\'' :: q) { u with inLine := false }
  obtain ⟨dst, v, hreturns⟩ := h.returns
  obtain ⟨w, hloop⟩ := (replaceDefineInternal_returns_iff twoEnv _ _).mp
    (hsecond.returns (by decide) hreturns)
  have hwritten := h.written 1 (by decide) _ _ hsecond
  rw [writtenChars, final, hloop] at hwritten
  have hfits := (length_nl_lt_iff hinside (show 0 < lineMax2 by decide) hloop).mp hwritten 3
    (atLiteral b ('\'' :: q) (twoState ('B' :: a) b false log))
  rw [hstart] at hfits
  -- the second pass comes to a literal without an end
  have hreached := reaches_atLiteral ('B' :: a) b q (.inr ⟨rfl, rfl⟩) (.inr rfl) hb false log
  have hless := hfits hreached (copiesLiteral_atLiteral (.inr rfl) hb rfl)
  have htext : literalText ('\'' :: q) = '\'' :: q := by
    show '\'' :: (literalRest '\'' q).1 = _
    rw [hopen]
  change (b ++ [' ']).length + (literalText ('\'' :: q)).length < lineMax2 at hless
  rw [htext] at hless
  simp only [List.length_append, List.length_cons, List.length_nil] at hless
  omega

/-- The value of the define `A` has a literal without its second delimiter, and the second pass copies it
with the literal behind the name. -/
theorem not_staysInside :
    ¬StaysInside twoEnv
      (twoState ('B' :: ' ' :: '\'' :: List.replicate 100 'd') (List.replicate 2000 'c') true [])
      ('A' :: ' ' :: '"' :: (List.replicate 2000 'b' ++ ['"'])) := by
  apply not_staysInside_of_second
    (q := List.replicate 100 'd' ++ ' ' :: '"' :: (List.replicate 2000 'b' ++ ['"']))
  · simp only [List.length_cons, List.length_replicate]
    decide
  · rw [List.length_replicate]
    decide
  · apply literalRest_of_closed
    intro c hc
    exact ⟨mem_literal hc (by decide), mem_literal hc (by decide)⟩
  · rfl
  · apply literalRest_of_open (by decide)
    intro c hc
    simp only [List.mem_append, List.mem_cons, List.not_mem_nil, or_false] at hc
    rcases hc with hc | rfl | rfl | hc | rfl
    · exact mem_literal hc (by decide)
    · decide
    · decide
    · exact mem_literal hc (by decide)
    · decide
  · simp only [List.length_append, List.length_cons, List.length_replicate]
    decide

end

end Sjasmplus
