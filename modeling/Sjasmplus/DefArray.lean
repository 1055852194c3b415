import Sjasmplus.Defines
import Sjasmplus.MacroArguments

/-!
# Arrays of defines (`dirDEFARRAY` of `directives.cpp`)

`DEFARRAY` makes an array from the items of its line, and `DEFARRAY+` puts them behind those of an array.
A line of `DEFARRAY` is all or nothing: the items go to a list of its own first.  `DEFARRAY+` links them
to the array one by one, and an item that is not complete comes too late for those in front of it
(`isAtomic_iff`).
-/

namespace Sjasmplus

/-! ### The directive -/

/-- `dirDEFARRAY_parseItems`, with the list that the items are linked to: whether all items are complete,
the list, the text that is left, and the messages. -/
structure ItemsRead where
  complete : Bool
  list : List Text
  lp : Text
  log : List Event

/-- The loop of `dirDEFARRAY_parseItems`, a turn for every item. -/
def parseItemsLoop : Nat → List Text → Text → ItemsRead
  | 0, list, lp => ⟨false, list, lp, []⟩
  | fuel + 1, list, lp =>
    match argumentLoop none none [] 0 (skipBlanks lp) with
    | (none, rest) => ⟨false, list, rest, [.error "[DEFARRAY] Syntax error" (some lp) .suppress]⟩
    | (some ml, rest) =>
      let log := if ml = [] then [emptyValue (skipBlanks lp)] else []
      let p := skipBlanks rest
      if cur p = ',' then
        let items := parseItemsLoop fuel (list ++ [ml]) p.tail
        { items with log := log ++ items.log }
      else ⟨cur p = '\x00', list ++ [ml], p, log⟩

/-- `dirDEFARRAY_parseItems`: every item but the last one takes a comma. -/
def parseItems (list : List Text) (lp : Text) : ItemsRead := parseItemsLoop (lp.length + 1) list lp

/-- What the directive works on: the table, `PredefinedCounter`, and the line of the source position. -/
structure ArrayState where
  table : DefineTable
  predefinedCounter : Int
  line : Int

/-- The list of the first entry of a name. -/
def setItems (name : Text) (nss : List Text) : List DefineEntry → List DefineEntry
  | [] => []
  | p :: next => if p.name = name then { p with nss := nss } :: next else p :: setItems name nss next

/-- `dirDEFARRAY_add`. -/
def dirDEFARRAY_add (s : ArrayState) (id lp : Text) : Reported ArrayState :=
  let found := s.table.get id s.predefinedCounter s.line
  let s := { s with table := found.2.1, predefinedCounter := found.2.2 }
  if s.table.defArrayList = [] then
    (s, [.error "[DEFARRAY+] unknown array <id>" (some id) .pass3])
  else
    let items := parseItems s.table.defArrayList lp
    -- the items are behind the last one of the list itself, and the pointer stays there
    let table := s.table.setChain id (setItems id items.list (s.table.chain id))
    ({ s with table := { table with
      defArrayList := items.list.drop (s.table.defArrayList.length - 1) } }, items.log)

/-- `dirDEFARRAY`. -/
def dirDEFARRAY (s : ArrayState) (lp : Text) : Reported ArrayState :=
  let (plus, lp) := if cur lp = '+' then (true, lp.tail) else (false, lp)
  let (id, lp) := if white (cur lp) then AsmProgram.getID lp else (none, lp)
  match id with
  | none => (s, [.error "[DEFARRAY] Syntax error in <id>" (some lp) .pass3])
  | some id =>
    -- there is a blank between the name and the first item
    if white (cur lp) = false ∨ cur (skipBlanks lp) = '\x00' then
      if cur (skipBlanks lp) = '\x00' then
        (s, [.error "[DEFARRAY] must have at least one entry" none .pass3])
      else
        (s, [.error "[DEFARRAY] missing space between <id> and first <item>" (some (skipBlanks lp))
          .pass3])
    else if plus then dirDEFARRAY_add s id (skipBlanks lp)
    else
      let items := parseItems [] (skipBlanks lp)
      if items.complete = false ∨ items.list = [] then (s, items.log)
      else
        let added := s.table.add id [] items.list
        ({ s with table := added.1 }, items.log ++ added.2)

/-! ### All or nothing -/

/-- The items of a text. -/
def HasItems (p : Text) (items : List Text) : Prop :=
  ∃ texts, texts ≠ [] ∧ p = joinArguments texts ∧ List.Forall₂ IsArgument texts items

/-- The array of a name: the list of its first entry. -/
def DefineTable.array (table : DefineTable) (name : Text) : Option (List Text) :=
  ((table.chain name).find? (·.name = name)).map DefineEntry.nss

/-- What is behind the directive: whether there is a plus sign, the name, and the text of the items. -/
def defarrayLine (lp : Text) : Option (Bool × Text × Text) :=
  let (plus, lp) := if cur lp = '+' then (true, lp.tail) else (false, lp)
  match if white (cur lp) then AsmProgram.getID lp else (none, lp) with
  | (none, _) => none
  | (some id, lp) =>
    if white (cur lp) = false ∨ cur (skipBlanks lp) = '\x00' then none
    else some (plus, id, skipBlanks lp)

/-- The array is made with the items, or extended by them. -/
def Defines (s t : ArrayState) (plus : Bool) (id : Text) (items : List Text) : Prop :=
  if plus then
    ∃ old, s.table.array id = some old ∧ old ≠ [] ∧
      t.table.defs = (s.table.setChain id (setItems id (old ++ items) (s.table.chain id))).defs
  else t.table.defs = (s.table.push id [] items).defs

/-- There is an error. -/
def HasError (log : List Event) : Prop :=
  ∃ message badValueMessage type, Event.error message badValueMessage type ∈ log

/-- Either all items of the line go to the array, or there is an error and no array is changed. -/
def IsAtomic (s : ArrayState) (lp : Text) : Prop :=
  (∃ plus id p items, defarrayLine lp = some (plus, id, p) ∧ HasItems p items ∧
    Defines s (dirDEFARRAY s lp).1 plus id items) ∨
  HasError (dirDEFARRAY s lp).2 ∧ (dirDEFARRAY s lp).1.table.defs = s.table.defs

/-- The line extends an array, and an item behind the first one is not complete. -/
def FailsBehindItem (s : ArrayState) (lp : Text) : Prop :=
  ∃ id first v rest old, defarrayLine lp = some (true, id, first ++ ',' :: rest) ∧ IsArgument first v ∧
    isDynamicName id = false ∧ s.table.array id = some old ∧ old ≠ [] ∧
    ¬∃ items, HasItems (first ++ ',' :: rest) items

/-! ### Reading items -/

/-- The first item, and those behind its comma. -/
theorem HasItems.read {lp : Text} {items : List Text} (h : HasItems lp items) :
    ∃ v items', items = v :: items' ∧
      (argumentLoop none none [] 0 (skipBlanks lp) = (some v, []) ∧ items' = [] ∨
        ∃ p, argumentLoop none none [] 0 (skipBlanks lp) = (some v, ',' :: p) ∧ HasItems p items') := by
  obtain ⟨texts, hne, rfl, hitems⟩ := h
  cases hitems with
  | nil => exact absurd rfl hne
  | @cons t v texts items ht hitems =>
    have hread := isArgument_append ht (endsArgument_joinRest texts)
    rw [← joinArguments_cons] at hread
    refine ⟨v, items, rfl, ?_⟩
    cases hitems with
    | nil => exact .inl ⟨hread, rfl⟩
    | cons ht' hitems => exact .inr ⟨_, hread, _, List.cons_ne_nil _ _, rfl, .cons ht' hitems⟩

theorem hasItems_single {lp v : Text} (h : argumentLoop none none [] 0 (skipBlanks lp) = (some v, [])) :
    HasItems lp [v] := by
  obtain ⟨-, t, rfl, ht⟩ := isArgument_of_read h
  exact ⟨[t], List.cons_ne_nil _ _, List.append_nil t, .cons ht .nil⟩

theorem HasItems.cons {lp v p : Text} {items : List Text}
    (h : argumentLoop none none [] 0 (skipBlanks lp) = (some v, ',' :: p)) (hitems : HasItems p items) :
    HasItems lp (v :: items) := by
  obtain ⟨-, t, rfl, ht⟩ := isArgument_of_read h
  obtain ⟨texts, hne, rfl, htexts⟩ := hitems
  match texts with
  | [] => exact absurd rfl hne
  | t' :: texts => exact ⟨t :: t' :: texts, List.cons_ne_nil _ _, rfl, .cons ht htexts⟩

theorem HasItems.ne_nil {lp : Text} {items : List Text} (h : HasItems lp items) : items ≠ [] := by
  obtain ⟨v, items', rfl, -⟩ := h.read
  exact List.cons_ne_nil _ _

/-- What the loop reads, and when: with all items complete it has them all, and with one that is not
there is an error. -/
structure ItemsOf (list : List Text) (lp : Text) (r : ItemsRead) : Prop where
  complete : r.complete = true → ∃ items, r.list = list ++ items ∧ HasItems lp items
  fails : r.complete = false → (¬∃ items, HasItems lp items) ∧ HasError r.log
  extends_list : ∃ items, r.list = list ++ items
  first : ∀ first v rest, lp = first ++ ',' :: rest → IsArgument first v → r.list ≠ list
  behind : r.complete = false → r.list ≠ list → ∃ first v rest, lp = first ++ ',' :: rest ∧
    IsArgument first v

theorem HasError.append {log log' : List Event} (h : HasError log') : HasError (log ++ log') := by
  obtain ⟨message, bad, type, hmem⟩ := h
  exact ⟨message, bad, type, List.mem_append_right log hmem⟩

theorem itemsOf_parseItemsLoop (fuel : Nat) (list : List Text) {lp : Text} (hfuel : lp.length < fuel) :
    ItemsOf list lp (parseItemsLoop fuel list lp) := by
  -- by induction on the fuel: every turn reads an item, and the text gets shorter by it
  induction fuel generalizing list lp with
  | zero => exact absurd hfuel (Nat.not_lt_zero _)
  | succ fuel ih =>
    rw [parseItemsLoop]
    rcases hread : argumentLoop none none [] 0 (skipBlanks lp) with ⟨_ | ml, rest⟩
    · constructor
      · nofun
      · intro _
        refine ⟨?_, _, _, _, List.mem_singleton.mpr rfl⟩
        rintro ⟨items, hitems⟩
        obtain ⟨v, _, -, ⟨h, -⟩ | ⟨_, h, -⟩⟩ := hitems.read <;> rw [hread] at h <;> cases h
      · exact ⟨[], (List.append_nil _).symm⟩
      · rintro first v rest rfl hfirst
        rw [isArgument_append hfirst (endsArgument_comma rest)] at hread
        cases hread
      · exact fun _ h => absurd rfl h
    · obtain ⟨hend, t, rfl, ht⟩ := isArgument_of_read hread
      match rest, hend with
      | [], _ =>
        -- behind the last item there is no comma
        have hlist : list ++ [ml] ≠ list := by simp
        exact ⟨fun _ => ⟨[ml], rfl, hasItems_single hread⟩, nofun, ⟨[ml], rfl⟩, fun _ _ _ _ _ => hlist,
          nofun⟩
      | c :: p, .inr hc =>
        obtain rfl : c = ',' := hc
        have hskip : skipBlanks (',' :: p) = ',' :: p := skipBlanks_cons rfl p
        have hless : p.length < fuel := by
          rw [List.length_append, List.length_cons] at hfuel
          omega
        have hitems := ih (list ++ [ml]) hless
        dsimp only
        rw [hskip, cur_cons, if_pos rfl, List.tail_cons]
        obtain ⟨behind, hbehind⟩ := hitems.extends_list
        have hlist : (parseItemsLoop fuel (list ++ [ml]) p).list ≠ list := by
          rw [hbehind]
          simp
        constructor
        · intro hcomplete
          obtain ⟨items, hlist, hp⟩ := hitems.complete hcomplete
          exact ⟨ml :: items, hlist.trans (by simp), HasItems.cons hread hp⟩
        · intro hfails
          obtain ⟨hnone, herror⟩ := hitems.fails hfails
          refine ⟨?_, herror.append⟩
          rintro ⟨items, hall⟩
          obtain ⟨v, items', -, ⟨h, -⟩ | ⟨_, h, hp⟩⟩ := hall.read
          · rw [hread] at h
            cases h
          · rw [hread] at h
            cases h
            exact hnone ⟨items', hp⟩
        · exact ⟨ml :: behind, hbehind.trans (by simp)⟩
        · exact fun _ _ _ _ _ => hlist
        · exact fun _ _ => ⟨t, ml, p, rfl, ht⟩

theorem itemsOf_parseItems (list : List Text) (lp : Text) : ItemsOf list lp (parseItems list lp) :=
  itemsOf_parseItemsLoop (lp.length + 1) list (Nat.lt_succ_self _)

/-! ### Tables -/

theorem find?_setItems (name : Text) (nss : List Text) (entries : List DefineEntry) :
    (setItems name nss entries).find? (·.name = name) =
      (entries.find? (·.name = name)).map fun p => { p with nss := nss } := by
  induction entries with
  | nil => rfl
  | cons p next ih =>
    rw [setItems]
    by_cases hname : p.name = name
    · rw [if_pos hname, List.find?_cons_of_pos (by simpa using hname),
        List.find?_cons_of_pos (by simpa using hname)]
      rfl
    · rw [if_neg hname, List.find?_cons_of_neg (by simpa using hname),
        List.find?_cons_of_neg (by simpa using hname), ih]

/-- The list that is already there. -/
theorem setItems_self {name : Text} {nss : List Text} {entries : List DefineEntry}
    (h : (entries.find? (·.name = name)).map DefineEntry.nss = some nss) :
    setItems name nss entries = entries := by
  induction entries with
  | nil => rfl
  | cons p next ih =>
    rw [setItems]
    by_cases hname : p.name = name
    · rw [List.find?_cons_of_pos (by simpa using hname)] at h
      obtain rfl := Option.some.inj h
      rw [if_pos hname]
    · rw [List.find?_cons_of_neg (by simpa using hname)] at h
      rw [if_neg hname, ih h]

namespace DefineTable

variable {table : DefineTable} {id : Text} {old : List Text}

theorem array_setItems (h : table.array id = some old) (nss : List Text) :
    (table.setChain id (setItems id nss (table.chain id))).array id = some nss := by
  obtain ⟨p, hp, -⟩ := Option.map_eq_some_iff.mp h
  have hchain : (table.setChain id (setItems id nss (table.chain id))).chain id =
      setItems id nss (table.chain id) := Function.update_self ..
  rw [array, hchain, find?_setItems, hp]
  rfl

theorem setChain_setItems_self (h : table.array id = some old) :
    (table.setChain id (setItems id old (table.chain id))).defs = table.defs := by
  rw [setItems_self h, setChain, chain, Function.update_eq_self]

/-- `Get` finds the array of a name that is not a dynamic one, and leaves the entries. -/
theorem get_table (table : DefineTable) (id : Text) (predefinedCounter line : Int) :
    (table.get id predefinedCounter line).2.1 = { table with
      defArrayList := if id = [] ∨ isDynamicName id = true then [] else (table.array id).getD [] } := by
  rw [get]
  by_cases hid : id = []
  · rw [if_pos hid, if_pos (.inl hid)]
  · by_cases hdynamic : isDynamicName id = true
    · have hnone : (if id = [] ∨ isDynamicName id = true then [] else (table.array id).getD []) = [] :=
        if_pos (.inr hdynamic)
      rw [hnone, if_neg hid]
      -- the two dynamic names are counters and have no array
      rcases (Bool.or_eq_true _ _).mp hdynamic with hname | hname
      · obtain rfl := of_decide_eq_true hname
        rfl
      · obtain rfl := of_decide_eq_true hname
        rfl
    · rw [Bool.not_eq_true] at hdynamic
      obtain ⟨hcounter, hline⟩ := Bool.or_eq_false_iff.mp hdynamic
      rw [if_neg hid, if_neg (fun h => of_decide_eq_false hcounter h.2),
        if_neg (fun h => of_decide_eq_false hline h.2), if_neg (by simp [hid, hdynamic]), array]
      cases (table.chain id).find? (·.name = id) <;> rfl

end DefineTable

/-! ### The main result -/

/-- Without a name and items there is an error. -/
theorem dirDEFARRAY_of_none {lp : Text} (s : ArrayState) (h : defarrayLine lp = none) :
    (dirDEFARRAY s lp).1 = s ∧ HasError (dirDEFARRAY s lp).2 := by
  rw [defarrayLine] at h
  rw [dirDEFARRAY]
  -- the parts of the line in the order of the directive: the plus, and the name
  generalize (if cur lp = '+' then (true, lp.tail) else (false, lp)) = r at h ⊢
  obtain ⟨plus, lp⟩ := r
  dsimp only at h ⊢
  generalize (if white (cur lp) then AsmProgram.getID lp else (none, lp)) = r at h ⊢
  obtain ⟨_ | id, lp⟩ := r
  · exact ⟨rfl, _, _, _, List.mem_singleton.mpr rfl⟩
  · dsimp only at h ⊢
    split_ifs at h with hblank
    rw [if_pos hblank]
    split_ifs
    · exact ⟨rfl, _, _, _, List.mem_singleton.mpr rfl⟩
    · exact ⟨rfl, _, _, _, List.mem_singleton.mpr rfl⟩

theorem dirDEFARRAY_of_some {lp id p : Text} {plus : Bool} (s : ArrayState)
    (h : defarrayLine lp = some (plus, id, p)) :
    dirDEFARRAY s lp = if plus then dirDEFARRAY_add s id p
      else if (parseItems [] p).complete = false ∨ (parseItems [] p).list = [] then
        (s, (parseItems [] p).log)
      else ({ s with table := (s.table.add id [] (parseItems [] p).list).1 },
        (parseItems [] p).log ++ (s.table.add id [] (parseItems [] p).list).2) := by
  rw [defarrayLine] at h
  rw [dirDEFARRAY]
  generalize (if cur lp = '+' then (true, lp.tail) else (false, lp)) = r at h ⊢
  obtain ⟨plus', lp⟩ := r
  dsimp only at h ⊢
  generalize (if white (cur lp) then AsmProgram.getID lp else (none, lp)) = r at h ⊢
  obtain ⟨_ | id', lp⟩ := r
  · cases h
  · dsimp only at h ⊢
    split_ifs at h with hblank
    obtain ⟨rfl, rfl, rfl⟩ := h
    rw [if_neg hblank]

/-- A new array gets all items of its line, or is not made. -/
theorem isAtomic_of_new {lp id p : Text} {s : ArrayState} (h : defarrayLine lp = some (false, id, p)) :
    IsAtomic s lp := by
  have hitems := itemsOf_parseItems [] p
  rw [IsAtomic, dirDEFARRAY_of_some s h, if_neg Bool.false_ne_true]
  by_cases hcomplete : (parseItems [] p).complete = true
  · obtain ⟨items, hlist, hp⟩ := hitems.complete hcomplete
    rw [List.nil_append] at hlist
    rw [if_neg (by simp [hcomplete, hlist, hp.ne_nil]), hlist]
    exact .inl ⟨false, id, p, items, h, hp, rfl⟩
  · rw [Bool.not_eq_true] at hcomplete
    rw [if_pos (.inl hcomplete)]
    exact .inr ⟨(hitems.fails hcomplete).2, rfl⟩

/-- A name has a first character. -/
theorem getID_ne_nil {lp id rest : Text} (h : AsmProgram.getID lp = (some id, rest)) : id ≠ [] := by
  rw [AsmProgram.getID] at h
  by_cases hstart : cur (skipBlanks lp) = '\x00' ∨
      (!isLabelStart (skipBlanks lp) false ∧ cur (skipBlanks lp) ≠ '.')
  · rw [if_pos hstart] at h
    cases h
  rw [if_neg hstart, Prod.mk.injEq, Option.some_inj] at h
  obtain ⟨rfl, -⟩ := h
  match hskip : skipBlanks lp with
  | [] => exact absurd (.inl (by rw [hskip]; rfl)) hstart
  | c :: p =>
    -- the first character starts a label, or it is the dot of a local one
    have hlabel : islabchar c = true := by
      rw [hskip] at hstart
      by_cases hdot : c = '.'
      · rw [hdot]
        rfl
      · have hhead : isLabelHead c = true := by
          by_contra hhead
          exact hstart (.inr ⟨by simpa [isLabelStart] using hhead, hdot⟩)
        simp only [isLabelHead, Bool.or_eq_true, decide_eq_true_eq] at hhead
        rcases hhead with halpha | hunderscore
        · simp [islabchar, Char.isAlphanum, halpha]
        · simp [islabchar, hunderscore]
    rw [List.takeWhile_cons_of_pos hlabel]
    exact List.cons_ne_nil _ _

theorem ne_nil_of_defarrayLine {lp id p : Text} {plus : Bool}
    (h : defarrayLine lp = some (plus, id, p)) : id ≠ [] := by
  rw [defarrayLine] at h
  generalize (if cur lp = '+' then (true, lp.tail) else (false, lp)) = r at h
  obtain ⟨plus', lp⟩ := r
  dsimp only at h
  by_cases hwhite : white (cur lp) = true
  · rw [if_pos hwhite] at h
    rcases hid : AsmProgram.getID lp with ⟨_ | id', lp⟩
    · rw [hid] at h
      cases h
    · rw [hid] at h
      dsimp only at h
      split_ifs at h
      obtain ⟨-, rfl, -⟩ := h
      exact getID_ne_nil hid
  · rw [if_neg hwhite] at h
    cases h

section

variable {lp id p : Text} {s : ArrayState} {old : List Text}

/-- Without such an array there is an error. -/
theorem dirDEFARRAY_add_of_nil
    (hdefArrayList : (s.table.get id s.predefinedCounter s.line).2.1.defArrayList = []) :
    (dirDEFARRAY_add s id p).1.table.defs = s.table.defs ∧ HasError (dirDEFARRAY_add s id p).2 := by
  rw [dirDEFARRAY_add]
  dsimp only
  rw [if_pos hdefArrayList, DefineTable.get_table]
  exact ⟨rfl, _, _, _, List.mem_singleton.mpr rfl⟩

/-- The items that are read before anything is wrong stay in the array. -/
theorem dirDEFARRAY_add_of_array (hid : id ≠ []) (hdynamic : isDynamicName id = false)
    (harray : s.table.array id = some old) (hold : old ≠ []) :
    (dirDEFARRAY_add s id p).1.table.defs =
        (s.table.setChain id (setItems id (parseItems old p).list (s.table.chain id))).defs ∧
      (dirDEFARRAY_add s id p).2 = (parseItems old p).log := by
  have hlist : (s.table.get id s.predefinedCounter s.line).2.1.defArrayList = old := by
    rw [DefineTable.get_table, harray]
    exact if_neg (by simp [hid, hdynamic])
  rw [dirDEFARRAY_add]
  dsimp only
  rw [if_neg (by rw [hlist]; exact hold), hlist, DefineTable.get_table]
  exact ⟨rfl, rfl⟩

end

/-- **`DEFARRAY` is all or nothing**, unless an item of `DEFARRAY+` is not complete behind the first one:
then those in front of it are in the array, and there is an error. -/
theorem isAtomic_iff (s : ArrayState) (lp : Text) : IsAtomic s lp ↔ ¬ FailsBehindItem s lp := by
  match hline : defarrayLine lp with
  | none =>
    obtain ⟨hsame, herror⟩ := dirDEFARRAY_of_none s hline
    refine iff_of_true (.inr ⟨herror, by rw [hsame]⟩) ?_
    rintro ⟨_, _, _, _, _, h, -⟩
    rw [hline] at h
    cases h
  | some (false, id, p) =>
    refine iff_of_true (isAtomic_of_new hline) ?_
    rintro ⟨_, _, _, _, _, h, -⟩
    rw [hline] at h
    cases h
  | some (true, id, p) =>
    have hid := ne_nil_of_defarrayLine hline
    by_cases hknown : isDynamicName id = false ∧ ∃ old, s.table.array id = some old ∧ old ≠ []
    · obtain ⟨hdynamic, old, harray, hold⟩ := hknown
      have hitems := itemsOf_parseItems old p
      obtain ⟨hdefs, hlog⟩ := dirDEFARRAY_add_of_array (p := p) hid hdynamic harray hold
      rw [IsAtomic, dirDEFARRAY_of_some s hline, if_pos rfl, hdefs, hlog]
      -- all of the items are read, or one of them is not complete
      by_cases hcomplete : (parseItems old p).complete = true
      · obtain ⟨items, hlist, hp⟩ := hitems.complete hcomplete
        refine iff_of_true (.inl ⟨true, id, p, items, hline, hp, ?_⟩) ?_
        · exact ⟨old, harray, hold, by rw [hdefs, hlist]⟩
        · rintro ⟨_, _, _, _, _, h, -, -, -, -, hnone⟩
          obtain ⟨-, rfl⟩ := Prod.mk.inj (Prod.mk.inj (Option.some.inj (hline.symm.trans h))).2
          exact hnone ⟨items, hp⟩
      · rw [Bool.not_eq_true] at hcomplete
        obtain ⟨hnone, herror⟩ := hitems.fails hcomplete
        by_cases hlist : (parseItems old p).list = old
        · refine iff_of_true (.inr ⟨herror, ?_⟩) ?_
          · rw [hlist, DefineTable.setChain_setItems_self harray]
          · rintro ⟨_, first, v, rest, _, h, hfirst, -⟩
            obtain ⟨-, rfl⟩ := Prod.mk.inj (Prod.mk.inj (Option.some.inj (hline.symm.trans h))).2
            exact hitems.first first v rest rfl hfirst hlist
        -- items have been added in front of the one that is not complete
        · refine iff_of_false ?_ (not_not.mpr ?_)
          · rintro (⟨_, _, _, items, h, hp, -⟩ | ⟨-, hsame⟩)
            · obtain ⟨-, rfl⟩ := Prod.mk.inj (Prod.mk.inj (Option.some.inj (hline.symm.trans h))).2
              exact hnone ⟨items, hp⟩
            · have hextended := DefineTable.array_setItems harray (parseItems old p).list
              rw [DefineTable.array, DefineTable.chain, hsame] at hextended
              exact hlist (Option.some.inj (hextended.symm.trans harray))
          · obtain ⟨first, v, rest, rfl, hfirst⟩ := hitems.behind hcomplete hlist
            exact ⟨id, first, v, rest, old, hline, hfirst, hdynamic, harray, hold, hnone⟩
    -- there is no array to add to
    · have hdefArrayList : (s.table.get id s.predefinedCounter s.line).2.1.defArrayList = [] := by
        rw [DefineTable.get_table]
        dsimp only
        split_ifs with hname
        · rfl
        · obtain ⟨-, hdynamic⟩ := not_or.mp hname
          cases harray : s.table.array id with
          | none => rfl
          | some old =>
            by_contra hold
            exact hknown ⟨Bool.not_eq_true _ ▸ hdynamic, old, harray, hold⟩
      obtain ⟨hsame, herror⟩ := dirDEFARRAY_add_of_nil (p := p) hdefArrayList
      rw [IsAtomic, dirDEFARRAY_of_some s hline, if_pos rfl]
      refine iff_of_true (.inr ⟨herror, hsame⟩) ?_
      rintro ⟨_, _, _, _, old, h, -, hdynamic, harray, hold, -⟩
      obtain ⟨rfl, -⟩ := Prod.mk.inj (Prod.mk.inj (Option.some.inj (hline.symm.trans h))).2
      exact hknown ⟨hdynamic, old, harray, hold⟩

/-- An array with one item. -/
def exampleArrays : ArrayState :=
  { table := (DefineTable.init.add "arr".toList [] [['1']]).1, predefinedCounter := 0, line := 1 }

/-- `DEFARRAY+ arr 2, "x` fails, and leaves the `2` in the array. -/
theorem not_isAtomic : ¬ IsAtomic exampleArrays "+ arr 2, \"x".toList := by
  rintro (⟨_, _, _, items, h, hitems, -⟩ | ⟨-, hsame⟩)
  · obtain ⟨-, rfl⟩ := Prod.mk.inj (Prod.mk.inj (Option.some.inj ((show defarrayLine _ =
      some (true, "arr".toList, "2, \"x".toList) by decide).symm.trans h))).2
    exact ((itemsOf_parseItems [] "2, \"x".toList).fails (by decide)).1 ⟨items, hitems⟩
  · have harray := congrArg (fun defs => (defs (DefineTable.bucket "arr".toList)).map DefineEntry.nss) hsame
    revert harray
    decide

end Sjasmplus
