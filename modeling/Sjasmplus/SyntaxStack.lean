import Mathlib.Data.List.Infix
import Sjasmplus.SyntaxOptions

/-!
# Saving the syntax

`OPT push` saves the syntax, and `OPT pop` takes it back.  `optDepth` is what a line adds to the number of
saved syntaxes, which its text decides.

* `opt_push_pop` — whatever lines are between a `push` and its `pop`, the syntax behind them is the one in
  front of them.
-/

namespace Sjasmplus

namespace Options

open Program

/-! ### The depth of a line -/

/-- The next command, unless the options follow. -/
def nextCommand (p : Text) : Option (OptCommand × Text) :=
  if cur p = '\x00' ∨ cur p = '-' then none else optCommand p

theorem nextCommand_eq_some {p : Text} {command : OptCommand × Text} :
    nextCommand p = some command ↔ ¬(cur p = '\x00' ∨ cur p = '-') ∧ optCommand p = some command := by
  unfold nextCommand
  split_ifs with hend
  · simp [hend]
  · simp [hend]

/-- What the commands add to the number of saved syntaxes. -/
def optDepth : Nat → Text → Int
  | 0, _ => 0
  | fuel + 1, p =>
    match nextCommand (Sjasmplus.skipBlanks p) with
    | some (.pop, _) => -1
    | some (.push, q) => 1 + optDepth fuel q
    | some (_, q) => optDepth fuel q
    | none => 0

/-- What a line adds to the number of saved syntaxes. -/
def lineDepth (lp : Text) : Int := optDepth (lp.length + 1) lp

namespace OptionsEvent

def depth : OptionsEvent → Int
  | opt lp => lineDepth lp
  | _ => 0

end OptionsEvent

def depth (events : List OptionsEvent) : Int := (events.map OptionsEvent.depth).sum

/-! ### The stack -/

/-- On the syntaxes that were saved at the start there are some more. -/
def HasSaved (saved : List SSyntax) (count : Int) (o : Options) : Prop :=
  ∃ l, o.syxStack = l ++ saved ∧ (l.length : Int) = count

section

variable {saved : List SSyntax} {count : Int} {o : Options}

theorem HasSaved.congr (h : HasSaved saved count o) {t : Options} (hstack : t.syxStack = o.syxStack) :
    HasSaved saved count t := by
  obtain ⟨l, hl, hcount⟩ := h
  exact ⟨l, hstack.trans hl, hcount⟩

theorem HasSaved.push (h : HasSaved saved count o) :
    HasSaved saved (count + 1) { o with syxStack := o.syx :: o.syxStack } := by
  obtain ⟨l, hl, hlength⟩ := h
  refine ⟨o.syx :: l, by rw [hl, List.cons_append], ?_⟩
  rw [List.length_cons, Nat.cast_succ, hlength]

/-- Taking back a syntax that was saved behind the start. -/
theorem ensures_popSyntax (h : HasSaved saved count o) (hcount : 0 < count) :
    Ensures popSyntax o fun found t => found = true ∧ HasSaved saved (count - 1) t := by
  obtain ⟨l, hl, hlength⟩ := h
  cases l with
  | nil =>
    rw [List.length_nil] at hlength
    omega
  | cons syx l =>
    apply Ensures.get_bind
    rw [hl]
    refine Ensures.modify_bind (Ensures.pure ⟨rfl, l, rfl, ?_⟩)
    rw [List.length_cons] at hlength
    omega

/-- The commands of a line, of which none takes back a syntax from before the start. -/
theorem ensures_optCommands (fuel : Nat) (didReset : Bool) (p : Text) (h : HasSaved saved count o)
    (hcount : 0 ≤ count + optDepth fuel p) :
    Ensures (optCommands fuel didReset p) o fun _ t => HasSaved saved (count + optDepth fuel p) t := by
  -- by induction on the fuel: the commands in front have not taken back too much
  induction fuel generalizing didReset p count o with
  | zero =>
    rw [optDepth, add_zero]
    exact Ensures.pure h
  | succ fuel ih =>
    rw [optDepth, nextCommand] at hcount ⊢
    refine Ensures.ite (fun hend => ?_) fun hend => ?_
    · rw [if_pos hend, add_zero]
      exact Ensures.pure h
    rw [if_neg hend] at hcount ⊢
    generalize optCommand (Sjasmplus.skipBlanks p) = command at hcount ⊢
    rcases command with _ | ⟨command, q⟩
    · rw [add_zero]
      exact Ensures.modify_bind (Ensures.pure (h.congr rfl))
    cases command with
    | pop =>
      have hpositive : 0 ≤ count + -1 := hcount
      refine (ensures_popSyntax h (by omega)).bind ?_
      rintro _ t ⟨rfl, ht⟩
      exact Ensures.pure ht
    | push =>
      simp only [← add_assoc] at hcount ⊢
      have hwarning : Ensures (when didReset
          (report (.warning "[OPT] pushing syntax status after reset" none .pass3))) o
          fun _ t => HasSaved saved count t :=
        Ensures.when (fun _ => Ensures.of_exec (exec_modify _ o) (h.congr rfl)) fun _ => h
      refine hwarning.bind fun _ t ht => Ensures.modify_bind (ih didReset q (ht.push) hcount)
    | reset => exact Ensures.modify_bind (ih true q (h.congr rfl) hcount)
    | _ => exact Ensures.modify_bind (ih didReset q (h.congr rfl) hcount)

/-- Options and extensions leave the saved syntaxes alone. -/
theorem OptionStep.syxStack {o t : Options} (h : OptionStep o t) : t.syxStack = o.syxStack := by
  cases h <;> rfl

theorem ensures_parseSyntaxOptions (args : List Text) (h : HasSaved saved count o) :
    Ensures (parseSyntaxOptions args) o fun _ t => HasSaved saved count t := by
  have hsteps : ∀ s t, Relation.ReflTransGen OptionStep s t → Survives (HasSaved saved count) s t :=
    survives_of_steps fun _ _ hstep hs => hs.congr hstep.syxStack
  exact (Ensures.of_keeps ((keeps_parseSyntaxOptions args).mono hsteps)).mono fun _ _ ht => ht h

/-- What follows the commands of a line. -/
theorem ensures_optOptions (result : Option Text) (h : HasSaved saved count o) :
    Ensures (do
      match result with
      | none => pure ()
      | some p =>
        match ← parseSyntaxOptions (splitArguments p) with
        | [] => pure ()
        | arg :: _ => report (.error "[OPT] invalid/failed option" (some arg) .pass3)
        initNextExtensions) o fun _ t => HasSaved saved count t := by
  cases result with
  | none => exact Ensures.pure h
  | some p =>
    refine (ensures_parseSyntaxOptions _ h).bind fun rest t ht => ?_
    cases rest with
    | nil => exact Ensures.of_exec (exec_modify _ t) (ht.congr rfl)
    | cons arg args =>
      exact Ensures.modify_bind (Ensures.of_exec (exec_modify _ _) (ht.congr rfl))

theorem ensures_dirOPT_depth (lp : Text) (h : HasSaved saved count o)
    (hcount : 0 ≤ count + lineDepth lp) :
    Ensures (dirOPT lp) o fun _ t => HasSaved saved (count + lineDepth lp) t :=
  (ensures_optCommands _ false lp h hcount).bind fun result _ ht => ensures_optOptions result ht

theorem ensures_event_depth {event : OptionsEvent} (hpass : event ≠ .initPass)
    (h : HasSaved saved count o)
    (hcount : 0 ≤ count + event.depth) :
    Ensures event.run o fun _ t => HasSaved saved (count + event.depth) t := by
  cases event with
  | initPass => exact absurd rfl hpass
  | opt lp => exact ensures_dirOPT_depth lp h hcount
  | zxnDevice line =>
    have hzero : OptionsEvent.depth (.zxnDevice line) = 0 := rfl
    rw [hzero, add_zero]
    refine (ensures_requireZ80 o).bind ?_
    rintro _ _ ⟨rfl, -⟩
    refine Ensures.get_bind (Ensures.ite (fun _ => ?_) fun _ => Ensures.pure h)
    exact Ensures.modify_bind (Ensures.of_exec (exec_modify _ _) (h.congr rfl))

/-- Lines that never take back a syntax from before the start. -/
theorem ensures_runEvents_depth {events : List OptionsEvent} (hpass : .initPass ∉ events)
    (h : HasSaved saved count o) (hcount : ∀ front, front <+: events → 0 ≤ count + depth front) :
    Ensures (runEvents events) o fun _ t => HasSaved saved (count + depth events) t := by
  -- by induction on the lines, every front of which is nested
  induction events generalizing count o with
  | nil => exact Ensures.pure (by simpa [depth] using h)
  | cons event events ih =>
    have hcons : ∀ events, depth (event :: events) = event.depth + depth events := fun _ => List.sum_cons
    have hevent : 0 ≤ count + event.depth := by
      have := hcount [event] (by simp)
      rwa [hcons, show depth [] = 0 from rfl, add_zero] at this
    rw [hcons, ← add_assoc]
    refine (ensures_event_depth (fun heq => hpass (heq ▸ List.mem_cons_self ..)) h hevent).bind ?_
    intro _ t ht
    refine ih (fun hmem => hpass (List.mem_cons_of_mem _ hmem)) ht fun front hfront => ?_
    have := hcount (event :: front) ((List.prefix_cons_inj event).mpr hfront)
    rwa [hcons, ← add_assoc] at this

end

/-! ### `push` and `pop` -/

/-- Behind a line that starts with `push` and saves nothing more, the syntax in front of it is on top. -/
theorem ensures_push {lp q : Text} (hpush : nextCommand (Sjasmplus.skipBlanks lp) = some (.push, q))
    (hdepth : lineDepth lp = 1) (o : Options) :
    Ensures (dirOPT lp) o fun _ t => t.syxStack = o.syx :: o.syxStack := by
  obtain ⟨hend, hcommand⟩ := nextCommand_eq_some.mp hpush
  have hrest : optDepth lp.length q = 0 := by
    rw [lineDepth, optDepth, hpush] at hdepth
    dsimp only at hdepth
    omega
  -- the rest of the line leaves the syntax that was pushed
  have hsaved : Ensures (dirOPT lp) o fun _ t => HasSaved (o.syx :: o.syxStack) 0 t := by
    have hstart : HasSaved (o.syx :: o.syxStack) 0 { o with syxStack := o.syx :: o.syxStack } := ⟨[], rfl, rfl⟩
    have hbehind := ensures_optCommands lp.length false q hstart (by omega)
    rw [hrest, add_zero] at hbehind
    refine Ensures.bind (R := fun _ t => HasSaved (o.syx :: o.syxStack) 0 t) ?_ fun result _ ht =>
      ensures_optOptions result ht
    refine Ensures.ite (fun h => absurd h hend) fun _ => ?_
    rw [hcommand]
    refine Ensures.bind (R := fun _ t => t = o) (Ensures.pure rfl) ?_
    rintro _ _ rfl
    exact Ensures.modify_bind hbehind
  refine hsaved.mono ?_
  rintro _ t ⟨l, hl, hlength⟩
  rw [Nat.cast_eq_zero, List.length_eq_zero_iff] at hlength
  rwa [hlength, List.nil_append] at hl

/-- A line that starts with `pop` takes back the syntax on top. -/
theorem ensures_pop {lp q : Text} (hpop : nextCommand (Sjasmplus.skipBlanks lp) = some (.pop, q))
    {o : Options} {syx : SSyntax} {syxStack : List SSyntax} (hstack : o.syxStack = syx :: syxStack) :
    Ensures (dirOPT lp) o fun _ t => t.syx = syx ∧ t.syxStack = syxStack := by
  obtain ⟨hend, hcommand⟩ := nextCommand_eq_some.mp hpop
  have hcommands : Ensures (optCommands (lp.length + 1) false lp) o fun result t =>
      result = none ∧ t.syx = syx ∧ t.syxStack = syxStack := by
    refine Ensures.ite (fun h => absurd h hend) fun _ => ?_
    rw [hcommand]
    have htop : Ensures popSyntax o fun found t => found = true ∧ t.syx = syx ∧ t.syxStack = syxStack := by
      apply Ensures.get_bind
      rw [hstack]
      exact Ensures.modify_bind (Ensures.pure ⟨rfl, rfl, rfl⟩)
    refine htop.bind ?_
    rintro _ t ⟨rfl, ht⟩
    exact Ensures.pure ⟨rfl, ht⟩
  refine hcommands.bind ?_
  rintro _ t ⟨rfl, ht⟩
  exact Ensures.pure ht

/-- **`OPT pop` restores the syntax that its `OPT push` saved**, whatever lines are in between. -/
theorem opt_push_pop {push pop : Text} {q q' : Text} {events : List OptionsEvent}
    (hpush : nextCommand (Sjasmplus.skipBlanks push) = some (.push, q)) (hdepth : lineDepth push = 1)
    (hpop : nextCommand (Sjasmplus.skipBlanks pop) = some (.pop, q')) (hpass : .initPass ∉ events)
    (hnested : ∀ front, front <+: events → 0 ≤ depth front) (hbalanced : depth events = 0) (o : Options) :
    Ensures (do dirOPT push; runEvents events; dirOPT pop) o fun _ t =>
      t.syx = o.syx ∧ t.syxStack = o.syxStack := by
  refine (ensures_push hpush hdepth o).bind fun _ s hs => ?_
  -- it is on top of the stack behind the line, and again behind those that follow
  have hsaved : HasSaved (o.syx :: o.syxStack) 0 s := ⟨[], hs, rfl⟩
  refine (ensures_runEvents_depth hpass hsaved fun front hfront => ?_).bind fun _ t ht => ?_
  · rw [zero_add]
    exact hnested front hfront
  · obtain ⟨l, hl, hlength⟩ := ht
    rw [hbalanced, add_zero, Nat.cast_eq_zero, List.length_eq_zero_iff] at hlength
    rw [hlength, List.nil_append] at hl
    exact ensures_pop hpop hl

set_option maxRecDepth 2000 in
/-- A part of a source with its own syntax, which saves one more. -/
theorem opt_push_pop_nested :
    Ensures (do
      dirOPT " push reset --syntax=abfw".toList
      runEvents [.opt " --zxnext".toList, .opt " push --nofakes".toList, .opt " pop".toList]
      dirOPT " pop".toList) {} fun _ t => t.syx = ({} : Options).syx ∧ t.syxStack = ({} : Options).syxStack := by
  have hpush : nextCommand (Sjasmplus.skipBlanks " push reset --syntax=abfw".toList)
      = some (.push, " reset --syntax=abfw".toList) := by decide
  have hpop : nextCommand (Sjasmplus.skipBlanks " pop".toList) = some (.pop, []) := by decide
  have hnested : ∀ front ∈ List.inits [OptionsEvent.opt " --zxnext".toList,
      .opt " push --nofakes".toList, .opt " pop".toList], 0 ≤ depth front := by decide
  exact opt_push_pop hpush (by decide) hpop (by decide)
    (fun front hfront => hnested front ((List.mem_inits _ _).mpr hfront)) (by decide) {}

end Options

end Sjasmplus
