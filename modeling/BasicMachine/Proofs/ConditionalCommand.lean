import BasicMachine.Proofs.CommandLikeness
import BasicMachine.Proofs.NestedConditional
import BasicMachine.Proofs.Tracking

/-! Commands behind a condition. A command that waits behind `THEN` runs one turn later than its line, from
a list of tokens of its own, on a machine that has decided the condition and has the command pending. None
of this is seen by a command that is not itself a conditional: it reads and writes the same addresses,
stacks, variables and files as it would if it stood on the line alone. -/
namespace BasicMachine

open Run (Alike Steady Simulates)

namespace Run

variable {σ α : Type}

theorem Simulates.refl (x : Run σ α) : Simulates Eq x x := by
  rintro s t rfl a s' hrun
  exact ⟨s', hrun, rfl⟩

theorem Simulates.tryCatch_right (x : Run σ α) {f g : Fault → Run σ α}
    (h : ∀ e, Simulates Eq (f e) (g e)) : Simulates Eq (tryCatch x f) (tryCatch x g) := by
  rintro s t rfl a s' hrun
  rw [run_tryCatch] at hrun ⊢
  rcases hx : x.run s with ⟨r, s₁⟩
  rw [hx] at hrun
  cases r with
  | ok b => exact ⟨s', hrun, rfl⟩
  | error e => exact h e s₁ s₁ rfl a s' hrun

end Run

namespace Command

open Call

theorem simulates_complain (kind t : Text) (y : Routine) :
    Simulates Eq (onMachine (Hooks.failing.complain kind t)) y :=
  .of_failing y fun _ => ⟨.noInterpreter, rfl⟩

theorem simulates_routine (h : Hooks) (c : Command) :
    Simulates Eq (c.routine Hooks.failing) (c.routine h) := by
  cases c with
  | assign =>
    apply (Simulates.refl _).bind
    intro name
    apply (Simulates.refl _).bind
    intro _
    apply (Simulates.refl _).bind
    intro v
    apply (Simulates.refl _).bind
    intro more
    exact .ite _ ((simulates_complain _ _ _).bind fun _ => .refl _) (.refl _)
  | buildString =>
    apply (Simulates.refl _).bind
    intro name
    apply (Simulates.refl _).bind
    intro _
    apply (Simulates.refl _).bind
    intro t
    apply (Simulates.refl _).bind
    intro more
    exact .ite _ ((simulates_complain _ _ _).bind fun _ => .refl _) (.refl _)
  | breakPoint | endProgram => exact .of_failing _ fun _ => ⟨.noInterpreter, rfl⟩
  | callCode | port => exact simulates_complain _ _ _
  | includeFile =>
    apply (Simulates.refl _).bind
    intro name
    apply (Simulates.refl get).bind
    intro call
    apply Simulates.tryCatch_right
    intro e
    exact .ite _ (simulates_complain _ _ _) (.refl _)
  | next =>
    apply (Simulates.refl _).bind
    intro name
    apply (Simulates.refl control).bind
    intro c
    cases c.loops.lookup name with
    | none => exact simulates_complain _ _ _
    | some l => exact .refl _
  | returnSub =>
    apply (Simulates.refl control).bind
    intro c
    cases c.gosubStack with
    | nil => exact simulates_complain _ _ _
    | cons a rest => exact .refl _
  | _ => exact .refl _

/-- Tokens that need no debugger run the same way with any. -/
theorem run_runTokens_of_failing {tokens : List Token} {m m' : Machine}
    (hrun : (runTokens Hooks.failing tokens).run m = (.ok (), m')) (h : Hooks) :
    (runTokens h tokens).run m = (.ok (), m') := by
  cases tokens with
  | nil => exact hrun
  | cons t ts =>
    have hfirst : Simulates Eq (firstRoutine Hooks.failing t) (firstRoutine h t) := by
      cases t with
      | numericVar name => exact simulates_routine h .assign
      | stringVar name => exact simulates_routine h .buildString
      | word w =>
        apply (Simulates.refl _).bind
        intro _
        unfold dispatch.execute
        cases ofName? (upper w) with
        | some c => exact simulates_routine h c
        | none => exact .refl _
      | _ => exact .refl _
    rcases hleft : (firstRoutine Hooks.failing t).run ⟨m, ⟨t :: ts, 0⟩⟩ with ⟨r, c⟩
    rw [runTokens, run_withArguments ((run_dispatch_cons _ m t ts).trans hleft), Prod.mk.injEq] at hrun
    obtain ⟨rfl, rfl⟩ := hrun
    obtain ⟨d, hright, rfl⟩ := hfirst _ _ rfl () c hleft
    exact run_withArguments ((run_dispatch_cons _ m t ts).trans hright)

end Command

/-- The cores agree but for the last condition and the pending command, which are those. -/
def DecidedApart (lastIf lastIf' : Bool) (pending pending' : Option (List Token)) (c d : Core) : Prop :=
  c.control.lastIf = lastIf ∧ c.control.pending = pending ∧
    d = { c with control := { c.control with lastIf := lastIf', pending := pending' } }

namespace DecidedApart

variable {lastIf lastIf' : Bool} {pending pending' : Option (List Token)}

theorem sameMemory : SameMemory (DecidedApart lastIf lastIf' pending pending') where
  memory := by rintro c d ⟨-, -, rfl⟩; rfl
  settings := by rintro c d ⟨-, -, rfl⟩; rfl
  write := by rintro c d ⟨hlast, hpending, rfl⟩ memory; exact ⟨hlast, hpending, rfl⟩
  set := by rintro c d ⟨hlast, hpending, rfl⟩ settings; exact ⟨hlast, hpending, rfl⟩
  keep := by rintro c d ⟨hlast, hpending, rfl⟩ blocks; exact ⟨hlast, hpending, rfl⟩

theorem likeness : Likeness (DecidedApart lastIf lastIf' pending pending') :=
  sameMemory.likeness (by rintro c d ⟨-, -, rfl⟩; exact ⟨lastIf', pending', rfl⟩)
    (by rintro c d ⟨hlast, hpending, rfl⟩ s; exact ⟨hlast, hpending, rfl⟩)

theorem needs {c : Command} (hc : c ≠ .ifThen ∧ c ≠ .elseThen) :
    c.Needs (DecidedApart lastIf lastIf' pending pending') := by
  cases c with
  | ifThen => exact absurd rfl hc.1
  | elseThen => exact absurd rfl hc.2
  | gosub => rintro c d ⟨-, -, rfl⟩; rfl
  | includeFile | load | save | peek | poke | peekInt | pokeInt | readData => exact sameMemory
  | _ => trivial

theorem steady_failing :
    Hooks.failing.Steady (Alongside (DecidedApart lastIf lastIf' pending pending')) :=
  ⟨.throw _, .throw _⟩

end DecidedApart

/-- The tokens of a line with a single condition and a command behind it. -/
inductive IsConditional : List Token → Condition → List Token → Prop
  | line {w w' : Text} (first : upper w = "IF".toList) (second : upper w' = "THEN".toList)
    (c : Condition) (x : List Token) : IsConditional (.word w :: (c.tokens ++ .word w' :: x)) c x

namespace Machine

theorem nextProgramLine_of_read {m n : Machine} {line : Text} (h : readProgramLine.run m = (.ok line, n)) :
    nextProgramLine.run m = (.ok (some line), n) := by
  simp [nextProgramLine, Run.run_tryCatch, Run.run_map, h]

theorem eq_of_read {m n : Machine} {line : Text} (h : readProgramLine.run m = (.ok line, n)) :
    ∃ a b, n = { m with control := { m.control with counter := a, next := b } } := by
  obtain ⟨a, b, hafter⟩ := m.nextProgramLine_snd
  rw [nextProgramLine_of_read h] at hafter
  exact ⟨a, b, hafter⟩

/-- In its next turn the machine reads the line of the program, and `n` is the machine then. -/
structure AtLine (m n : Machine) (line : Text) : Prop where
  queue : m.queue = []
  pending : m.control.pending = none
  running : m.running = true
  going : m.isDone = false
  read : readProgramLine.run m = (.ok line, n)

namespace AtLine

variable {m n : Machine} {line : Text}

theorem found (h : AtLine m n line) : nextProgramLine.run m = (.ok (some line), n) :=
  nextProgramLine_of_read h.read

theorem eq_of_found (h : AtLine m n line) : ∃ a b, n =
    { m with control := { m.control with counter := a, next := b } } := eq_of_read h.read

end AtLine

/-- A line with a single condition that has a value decides it, and leaves the command behind it pending
if it holds. -/
theorem run_conditional {tokens x : List Token} {c : Condition} (h : IsConditional tokens c x)
    {m : Machine} {result : Bool} (hvalue : c.holds m = .ok result) :
    (runTokens tokens).run m = (.ok (), m.decided result x) := by
  cases h with
  | @line w w' first second =>
    let ts := .word w :: (c.tokens ++ .word w' :: x)
    obtain ⟨args, hread, hargs⟩ := @Condition.run_condition c m ts 1 ⟨by decide, by decide, rfl⟩
      ⟨by decide, by decide, rfl⟩ ⟨by decide, by decide, rfl⟩
    rw [hvalue, hargs result hvalue] at hread
    have hthen : Arguments.Has ts 4 (.word w') := ⟨by decide, by decide, rfl⟩
    have hrest : dropTo (4 + 1) ts = x := by simp [ts, dropTo, bound, Condition.tokens]
    have hnone : (Command.andAlso result).run ⟨m, ⟨ts, 4⟩⟩ = (.ok result, ⟨m, ⟨ts, 4⟩⟩) := by
      simp [Command.andAlso, Call.hasWordIs, Call.look, Run.run_bind, hthen.current, Token.toWord, second]
    have hend : (Command.conclude result).run ⟨m, ⟨ts, 4⟩⟩ = _ := run_conclude result hthen second
    rw [hrest] at hend
    have hroutine := Command.run_dispatch_word Debugger.hooks m w (c.tokens ++ .word w' :: x)
    rw [first] at hroutine
    exact Command.run_withArguments
      (hroutine.trans ((Run.run_bind_ok hread).trans ((Run.run_bind_ok hnone).trans hend)))

/-- The machine takes a turn, and in the next one it looks for a line of the program as `k`. -/
def ReadsNextAs (m k : Machine) : Prop :=
  ∃ n, turn.run m = (.ok (), n) ∧ n.isDone = false ∧ runPending.run n = (.ok (), k) ∧
    k.queue = [] ∧ k.running = true

/-- The tokens run without a fault, and without the debugger. -/
def RunsAlone (x : List Token) (m : Machine) : Prop :=
  ((Command.runTokens Hooks.failing x).run m).1 = .ok ()

/-- The machine behind tokens that are run if the condition holds. -/
def conditionally (m : Machine) (result : Bool) (x : List Token) : Machine :=
  if result then ((runTokens x).run m).2 else m

end Machine

open Machine

/-- A pending command does what it would do without the turn in between, but for the last condition. -/
theorem run_waiting_command {x : List Token}
    (hkind : ∀ c ∈ Command.commandOf? x, c ≠ .ifThen ∧ c ≠ .elseThen) {m : Machine}
    (hpending : m.control.pending = none) (halone : RunsAlone x m) (lastIf : Bool) (printed : List Text)
    (logged : List LogEntry) :
    ∃ printed' logged', runPending.run { m with
        control := { m.control with lastIf, pending := some x }
        console := { m.console with printed, logged } } =
      (.ok (), { ((runTokens x).run m).2 with
        control := { ((runTokens x).run m).2.control with lastIf }
        console := { ((runTokens x).run m).2.console with printed := printed', logged := logged' } }) := by
  rcases hdirect : (Command.runTokens Hooks.failing x).run m with ⟨r, m'⟩
  obtain rfl : r = .ok () := by
    have hresult : ((Command.runTokens Hooks.failing x).run m).1 = .ok () := halone
    rwa [hdirect] at hresult
  have halong : Alongside (DecidedApart m.control.lastIf lastIf none (some x)) m { m with
      control := { m.control with lastIf, pending := some x }
      console := { m.console with printed, logged } } :=
    ⟨_, printed, logged, ⟨rfl, hpending, rfl⟩, rfl⟩
  have halike := Command.steady_runTokens DecidedApart.likeness DecidedApart.steady_failing
    (fun c hc => DecidedApart.needs (hkind c hc)) m _ halong
  rw [hdirect] at halike
  obtain ⟨hok, core, printed', logged', ⟨-, hnone, rfl⟩, hafter⟩ := halike
  have hwaited : (Command.runTokens Hooks.failing x).run { m with
      control := { m.control with lastIf, pending := some x }
      console := { m.console with printed, logged } } =
      (.ok (), { m' with
        control := { m'.control with lastIf, pending := some x }
        console := { m'.console with printed := printed', logged := logged' } }) :=
    Prod.ext hok.symm hafter
  refine ⟨printed', logged', (run_runPending_done rfl
    (Command.run_runTokens_of_failing hwaited Debugger.hooks)).trans ?_⟩
  have hcleared : m'.control.pending = none := hnone
  rw [runTokens, Command.run_runTokens_of_failing hdirect Debugger.hooks]
  simp only [cleared, hcleared]

theorem run_pending_command {x : List Token}
    (hkind : ∀ c ∈ Command.commandOf? x, c ≠ .ifThen ∧ c ≠ .elseThen) {m : Machine}
    (hpending : m.control.pending = none) (halone : RunsAlone x m) (printed : List Text)
    (logged : List LogEntry) :
    ∃ printed' logged', runPending.run
        (decided { m with console := { m.console with printed, logged } } true x) =
      (.ok (), { ((runTokens x).run m).2 with
        control := { ((runTokens x).run m).2.control with lastIf := true }
        console := { ((runTokens x).run m).2.console with printed := printed', logged := logged' } }) :=
  run_waiting_command hkind hpending halone true printed logged

/-- A line with a single condition comes, one turn later, to where its command would have come to on the
line alone, if the condition holds, and to where the line was read if it does not. All that is left of the
condition is its result. -/
theorem conditional_behaves_as_command {m m₁ : Machine} {line : Text} {tokens x : List Token}
    {c : Condition} {result : Bool} (hline : AtLine m m₁ line)
    (hparse : Token.parse line = .ok tokens) (hconditional : IsConditional tokens c x)
    (hvalue : c.holds m₁ = .ok result)
    (hkind : ∀ k ∈ Command.commandOf? x, k ≠ .ifThen ∧ k ≠ .elseThen)
    (halone : result = true → RunsAlone x m₁) :
    ∃ printed logged, ReadsNextAs m { conditionally m₁ result x with
      control := { (conditionally m₁ result x).control with lastIf := result }
      console := { (conditionally m₁ result x).console with printed, logged } } := by
  obtain ⟨a, b, hread⟩ := hline.eq_of_found
  have hpending : m₁.control.pending = none := by
    rw [hread]
    exact hline.pending
  obtain ⟨⟨input, printed, logged⟩, hinput, hrun⟩ := Act.run_execute
    (show (Act.stored line).tokens? = some tokens from toOption_eq_some_iff.mpr hparse) m₁
  obtain rfl : input = m₁.console.input := hinput
  have hvalue' : c.holds { m₁ with console := { m₁.console with printed, logged } } = .ok result := by
    have hview : SameView m₁ { m₁ with console := { m₁.console with printed, logged } } :=
      ⟨rfl, rfl, rfl⟩
    rw [← hvalue]
    simp only [Condition.holds, hview.toNumeric]
  have hturn : turn.run m =
      (.ok (), decided { m₁ with console := { m₁.console with printed, logged } } result x) :=
    (turn_found hline.pending hline.queue hline.running hline.found).trans
      (hrun.trans (run_conditional hconditional hvalue'))
  have hgoing : (decided { m₁ with console := { m₁.console with printed, logged } } result x).isDone =
      false := by
    rw [hread]
    exact hline.going
  have hqueue : m₁.queue = [] := by
    rw [hread]
    exact hline.queue
  have hrunning : m₁.running = true := by
    rw [hread]
    exact hline.running
  cases result with
  | false => exact ⟨printed, logged, _, hturn, hgoing, run_runPending_none hpending, hqueue, hrunning⟩
  | true =>
    obtain ⟨printed', logged', hrest⟩ := run_pending_command hkind hpending (halone rfl) printed logged
    have hcourse := keeps_runTokens Frame.open_course x m₁
    exact ⟨printed', logged', _, hturn, hgoing, hrest, hcourse.1.trans hqueue,
      hcourse.2.trans hrunning⟩

/-- The line `if 1 = 1 then a = 7`, whose condition holds. -/
theorem conditional_behaves_as_assignment :
    ∃ m m₁ line tokens c x, AtLine m m₁ line ∧ Token.parse line = .ok tokens ∧
      IsConditional tokens c x ∧ c.holds m₁ = .ok true ∧ RunsAlone x m₁ ∧
      ((runTokens x).run m₁).2.numeric ['A'] = .ok 7 ∧
      ∃ printed logged, ReadsNextAs m { conditionally m₁ true x with
        control := { (conditionally m₁ true x).control with lastIf := true }
        console := { (conditionally m₁ true x).console with printed, logged } } := by
  let line := "if 1 = 1 then a = 7".toList
  let m := started [line, "B = 1".toList]
  let m₁ := (readProgramLine.run m).2
  let c : Condition := ⟨.number 1, .equal, .number 1⟩
  let x : List Token := [.numericVar ['A'], .symbol ['='], .number 7]
  have hread : (readProgramLine.run m).1 = .ok line := by decide +kernel
  have hline : AtLine m m₁ line := ⟨rfl, rfl, rfl, rfl, by rw [← hread]⟩
  have hparse : Token.parse line = .ok (.word "if".toList :: (c.tokens ++ .word "then".toList :: x)) := by
    decide +kernel
  have hconditional := IsConditional.line (show upper "if".toList = "IF".toList by decide +kernel)
    (show upper "then".toList = "THEN".toList by decide +kernel) c x
  have hvalue : c.holds m₁ = .ok true := rfl
  have halone : RunsAlone x m₁ := by
    unfold RunsAlone
    decide +kernel
  have hkind : ∀ k ∈ Command.commandOf? x, k ≠ .ifThen ∧ k ≠ .elseThen := by
    intro k hk
    obtain rfl : Command.assign = k := Option.some.inj hk
    decide
  exact ⟨m, m₁, line, _, c, x, hline, hparse, hconditional, hvalue, halone, by decide +kernel,
    conditional_behaves_as_command hline hparse hconditional hvalue hkind fun _ => halone⟩

end BasicMachine
