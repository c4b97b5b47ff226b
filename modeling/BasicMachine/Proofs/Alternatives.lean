import BasicMachine.Proofs.ConditionalCommand
import BasicMachine.Proofs.FinalNewline
import BasicMachine.Proofs.OutsideVariables

/-! Two lines for the two outcomes of a condition. The line `ELSE` looks at the result that the last `IF`
left, not at the condition, so it does not matter what the command behind `THEN` has stored in the meantime:
an assignment leaves that result, and the text of the program, as they are. -/
namespace BasicMachine

/-- The tokens are those of an assignment to a numeric variable or to a string variable. -/
def IsAssignment (x : List Token) : Prop :=
  Command.commandOf? x = some .assign ∨ Command.commandOf? x = some .buildString

/-- The control, the queue, and whether the program runs and is done, stay as they are. -/
def Frame.onCourse : Frame Machine where
  allows m n := n.control = m.control ∧ n.queue = m.queue ∧ n.running = m.running ∧ n.isDone = m.isDone
  refl _ := ⟨rfl, rfl, rfl, rfl⟩
  trans h h' := ⟨h'.1.trans h.1, h'.2.1.trans h.2.1, h'.2.2.1.trans h.2.2.1, h'.2.2.2.trans h.2.2.2⟩

theorem Frame.calm_onCourse : Frame.onCourse.Calm := by
  have hstill : Frame.onCourse.Still := by
    intro m n h hcontrol _
    refine ⟨hcontrol, ?_, ?_, ?_⟩ <;> rw [h.same]
    rfl
  exact hstill.calm (.of_any fun _ _ _ => ⟨rfl, rfl, rfl, rfl⟩)

theorem Hooks.keep_failing (F : Frame Machine) : Hooks.failing.Keep F := ⟨F.refl, F.refl⟩

namespace IsAssignment

variable {x : List Token} (hx : IsAssignment x)
include hx

theorem command_cases {c : Command} (hc : c ∈ Command.commandOf? x) : c = .assign ∨ c = .buildString := by
  rcases hx with h | h <;> rw [h] at hc
  · exact .inl (Option.some.inj hc).symm
  · exact .inr (Option.some.inj hc).symm

theorem notConditional : ∀ c ∈ Command.commandOf? x, c ≠ .ifThen ∧ c ≠ .elseThen := by
  intro c hc
  rcases hx.command_cases hc with rfl | rfl <;> decide

/-- An assignment stores variables and does nothing else to the program or its course. -/
theorem allows_runTokens {m : Machine} (halone : Machine.RunsAlone x m) :
    Frame.onCourse.allows m ((Machine.runTokens x).run m).2 ∧
      Frame.outside.allows m ((Machine.runTokens x).run m).2 := by
  have hwrites : ∀ c ∈ Command.commandOf? x, c.writesMemory = false := by
    intro c hc
    rcases hx.command_cases hc with rfl | rfl <;> rfl
  have hsteers {F : Frame Machine} : ∀ c ∈ Command.commandOf? x,
      F.Steered (c.steers (Command.argumentsOf x)) := by
    intro c hc m control hcontrol
    have hsame : control = m.control := by rcases hx.command_cases hc with rfl | rfl <;> exact hcontrol
    rw [hsame]
    exact F.refl m
  have hkeeps {F : Frame Machine} (hF : F.Calm) : Run.Keeps F (Command.runTokens Hooks.failing x) :=
    Command.keeps_runTokens_of_steered hF (Hooks.keep_failing F) x hsteers fun c hc h =>
      absurd h (by rw [hwrites c hc]; decide)
  have hrun : (Machine.runTokens x).run m = (.ok (), ((Command.runTokens Hooks.failing x).run m).2) :=
    Command.run_runTokens_of_failing (Prod.ext halone rfl) Debugger.hooks
  rw [hrun]
  exact ⟨hkeeps Frame.calm_onCourse m, hkeeps Frame.roomy_outside.calm m⟩

theorem allows_conditionally {m : Machine} {result : Bool}
    (halone : result = true → Machine.RunsAlone x m) :
    Frame.onCourse.allows m (m.conditionally result x) ∧
      Frame.outside.allows m (m.conditionally result x) := by
  cases result with
  | false => exact ⟨Frame.onCourse.refl m, Frame.outside.refl m⟩
  | true => exact hx.allows_runTokens (halone rfl)

end IsAssignment

namespace Machine

/-- `ELSE` leaves the command behind it to be run unless the last condition was true. -/
theorem run_elseTokens {w : Text} (hw : upper w = "ELSE".toList) (y : List Token) (m : Machine) :
    (runTokens (.word w :: y)).run m = (.ok (), { m with control := { m.control with
      pending := if m.control.lastIf then m.control.pending else some y } }) := by
  have hroutine := Command.run_dispatch_word Debugger.hooks m w y
  rw [hw] at hroutine
  have hlook : Command.runElse.run ⟨m, ⟨.word w :: y, 1⟩⟩ =
      (if !m.control.lastIf then Command.deferRest else pure ()).run ⟨m, ⟨.word w :: y, 1⟩⟩ := rfl
  have hrest : Arguments.remaining ⟨.word w :: y, 1⟩ = y := by simp [Arguments.remaining, dropTo, bound]
  refine Command.run_withArguments (c := ⟨_, ⟨.word w :: y, 1⟩⟩) (hroutine.trans (hlook.trans ?_))
  by_cases hlast : m.control.lastIf = true
  · rw [if_neg (by simp [hlast]), if_pos hlast]
    rfl
  · rw [if_pos (by simp [hlast]), if_neg hlast, ← hrest]
    rfl

/-- A line of the program stays what it is when only variables are stored. -/
theorem nextProgramLine_of_outside {m n k : Machine} {line : Text} (hsize : 65536 ≤ m.memory.size)
    (hread : readProgramLine.run m = (.ok line, n)) (hplace : programStart ≤ m.control.next)
    (houtside : Frame.outside.allows m k) (hnext : k.control.next = m.control.next) :
    nextProgramLine.run k = (.ok (some line), { k with control := { k.control with
      counter := n.control.counter, next := n.control.next } }) := by
  have hfound := nextProgramLine_of_read hread
  obtain ⟨hsame, -, hbytes⟩ := houtside hsize
  -- The variables lie below the program, where the search for the line does not look.
  have hbehind : ∀ i, 32768 ≤ i → k.memory.get i = m.memory.get i := by
    intro i hi
    apply hbytes
    unfold InVariables
    omega
  have hstart : (32768 : Int) ≤ m.control.next := hplace
  have hline : k.memory.readLine m.control.next = m.memory.readLine m.control.next := by
    refine Memory.readLine_congr hsame fun i hi hinside => hbehind i ?_
    rw [bound, if_neg (by omega)] at hi
    omega
  have hskip : k.memory.nextLine m.control.next = m.memory.nextLine m.control.next := by
    refine Memory.nextLine_congr hsame fun i hi _ => hbehind i ?_
    rw [Memory.searchStart, if_neg (by omega)] at hi
    omega
  rw [run_nextProgramLine] at hfound ⊢
  rw [hnext, hline, hskip]
  cases hfirst : m.memory.readLine m.control.next with
  | error e =>
    rw [hfirst] at hfound
    dsimp only at hfound
    split at hfound <;> cases hfound
  | ok text =>
    cases hsecond : m.memory.nextLine m.control.next with
    | error e => simp [hfirst, hsecond] at hfound
    | ok b =>
      simp only [hfirst, hsecond, Prod.mk.injEq, Except.ok.injEq, Option.some.injEq] at hfound ⊢
      obtain ⟨rfl, rfl⟩ := hfound
      exact ⟨rfl, rfl⟩

/-- The machine goes through its program, with no other lines to run first. -/
structure RunsProgram (k : Machine) : Prop where
  queue : k.queue = []
  running : k.running = true
  going : k.isDone = false

theorem RunsProgram.of_allows {k k' : Machine} (hk : RunsProgram k) (h : Frame.onCourse.allows k k') :
    RunsProgram k' :=
  ⟨h.2.1.trans hk.queue, h.2.2.1.trans hk.running, h.2.2.2.trans hk.going⟩

theorem map_act_runPending (k : Machine) :
    (Recording.runPending.moments k).map Moment.act = (k.control.pending.map Act.pending).toList := by
  cases hpending : k.control.pending with
  | none => rw [Recording.moments_runPending_none hpending]; rfl
  | some tokens => rw [Recording.moments_runPending_some hpending]; rfl

section Turns

variable {k k₁ : Machine} (hk : RunsProgram k) (hk₁ : RunsProgram k₁)
  (hfirst : runPending.run k = (.ok (), k₁))
include hk hk₁ hfirst

omit hk hk₁ in
theorem moments_turn_of_pending :
    Recording.turn.moments k = Recording.runPending.moments k ++ Recording.runNext.moments k₁ ∧
      turn.run k = Recording.runNext.action.run k₁ := by
  rw [← Recording.action_runPending] at hfirst
  rw [← Recording.action_turn]
  exact ⟨Recording.moments_bind_ok hfirst, Run.run_bind_ok hfirst⟩

/-- A turn that reads a line of the program and runs it notes the pending command and the line. -/
theorem moments_line {k₂ k₃ : Machine} {line : Text}
    (hfound : nextProgramLine.run k₁ = (.ok (some line), k₂)) (hrun : (runLine line).run k₂ = (.ok (), k₃))
    (hk₃ : RunsProgram k₃) (n : Nat) :
    k.moments (n + 1) =
      Recording.runPending.moments k ++ [⟨k₁, .fetch⟩, ⟨k₂, .stored line⟩] ++ k₃.moments n := by
  obtain ⟨hnotes, hturn⟩ := moments_turn_of_pending hfirst
  obtain ⟨hrest, hresult⟩ := GoesOn.unique (.stored hk₁.queue hk₁.running hfound) (Recording.goesOn k₁)
  have hbusy : k₃.isIdle = false := by simp [isIdle, hk₃.running]
  rw [moments_turn hk.going (hturn.trans (hresult.trans hrun)) hbusy, hnotes, hrest]

theorem moments_fetch (n : Nat) : ∃ rest,
    k.moments (n + 1) = Recording.runPending.moments k ++ ⟨k₁, .fetch⟩ :: rest := by
  obtain ⟨hnotes, -⟩ := moments_turn_of_pending hfirst
  obtain ⟨rest, hrest⟩ := (Recording.goesOn k₁).fetches hk₁.queue hk₁.running
  refine ⟨rest ++ momentsAfter n (turn.run k), ?_⟩
  rw [moments_succ, if_neg (by simp [hk.going]), hnotes, hrest, List.append_assoc, List.cons_append]

end Turns

/-- Two lines in a row, each with the command that it leaves pending. -/
theorem moments_two_lines {m m₁ k₁ k₂ k₃ k₄ k : Machine} {line other : Text} (hline : AtLine m m₁ line)
    (hrun : (runLine line).run m₁ = (.ok (), k₁)) (hwait : runPending.run k₁ = (.ok (), k₂))
    (hfound : nextProgramLine.run k₂ = (.ok (some other), k₃))
    (hrun' : (runLine other).run k₃ = (.ok (), k₄)) (hwait' : runPending.run k₄ = (.ok (), k))
    (hk₁ : RunsProgram k₁) (hk₂ : RunsProgram k₂) (hk₄ : RunsProgram k₄) (hk : RunsProgram k) (n : Nat) :
    ∃ before after : List Moment, m.moments (n + 3) = before ++ ⟨k, .fetch⟩ :: after ∧
      before.map Moment.act = [.fetch, .stored line] ++ (k₁.control.pending.map Act.pending).toList ++
        [.fetch, .stored other] ++ (k₄.control.pending.map Act.pending).toList := by
  have hm : RunsProgram m := ⟨hline.queue, hline.running, hline.going⟩
  have hturn₁ := moments_line hm hm (run_runPending_none hline.pending) hline.found hrun hk₁ (n + 2)
  have hturn₂ := moments_line hk₁ hk₂ hwait hfound hrun' hk₄ (n + 1)
  obtain ⟨after, hturn₃⟩ := moments_fetch hk₄ hk hwait' n
  refine ⟨[⟨m, .fetch⟩, ⟨m₁, .stored line⟩] ++ Recording.runPending.moments k₁ ++
    [⟨k₂, .fetch⟩, ⟨k₃, .stored other⟩] ++ Recording.runPending.moments k₄, after, ?_, ?_⟩
  · rw [hturn₁, hturn₂, hturn₃, Recording.moments_runPending_none hline.pending]
    simp only [List.nil_append, List.append_assoc]
  · simp only [List.map_append, map_act_runPending]
    rfl

/-- The next two lines of the program are `IF c THEN x` and `ELSE y`. They are read as `m₁` and `m₂`. -/
structure AtAlternatives (m m₁ m₂ : Machine) (c : Condition) (x y : List Token) (line other : Text) :
    Prop where
  size : 65536 ≤ m.memory.size
  first : AtLine m m₁ line
  conditional : ∃ tokens, Token.parse line = .ok tokens ∧ IsConditional tokens c x
  place : programStart ≤ m₁.control.next
  second : readProgramLine.run m₁ = (.ok other, m₂)
  alternative : ∃ w, upper w = "ELSE".toList ∧ Token.parse other = .ok (.word w :: y)

namespace AtAlternatives

variable {m m₁ m₂ : Machine} {c : Condition} {x y : List Token} {line other : Text}
  (h : AtAlternatives m m₁ m₂ c x y line other)
include h

theorem run_first {result : Bool} (hvalue : c.holds m = .ok result) : ∃ printed logged,
    (runLine line).run m₁ =
      (.ok (), decided { m₁ with console := { m₁.console with printed, logged } } result x) := by
  obtain ⟨tokens, hparse, hconditional⟩ := h.conditional
  obtain ⟨a, b, hread⟩ := h.first.eq_of_found
  obtain ⟨⟨input, printed, logged⟩, hinput, hrun⟩ := Act.run_execute
    (show (Act.stored line).tokens? = some tokens from toOption_eq_some_iff.mpr hparse) m₁
  obtain rfl : input = m₁.console.input := hinput
  have hview : SameView m { m₁ with console := { m₁.console with printed, logged } } := by
    rw [hread]
    exact ⟨rfl, rfl, rfl⟩
  refine ⟨printed, logged, hrun.trans (run_conditional hconditional ?_)⟩
  rw [← hvalue]
  simp only [Condition.holds, hview.toNumeric]

theorem pending_first : m₁.control.pending = none := by
  obtain ⟨a, b, hread⟩ := h.first.eq_of_found
  rw [hread]
  exact h.first.pending

theorem pending_second : m₂.control.pending = none := by
  obtain ⟨a, b, hread⟩ := eq_of_read h.second
  rw [hread]
  exact h.pending_first

theorem run_waiting {result : Bool} (hx : IsAssignment x) (halone : result = true → RunsAlone x m₁)
    (printed : List Text) (logged : List LogEntry) : ∃ printed' logged',
    runPending.run (decided { m₁ with console := { m₁.console with printed, logged } } result x) =
      (.ok (), { conditionally m₁ result x with
        control := { m₁.control with lastIf := result }
        console := { (conditionally m₁ result x).console with
          printed := printed', logged := logged' } }) := by
  cases result with
  | false => exact ⟨printed, logged, run_runPending_none h.pending_first⟩
  | true =>
    obtain ⟨printed', logged', hrun⟩ :=
      run_pending_command hx.notConditional h.pending_first (halone rfl) printed logged
    refine ⟨printed', logged', hrun.trans ?_⟩
    rw [(hx.allows_runTokens (halone rfl)).1.1]
    rfl

theorem found_second (result : Bool) {a : Machine} (houtside : Frame.outside.allows m₁ a)
    (console : Console) :
    nextProgramLine.run { a with control := { m₁.control with lastIf := result }, console } =
      (.ok (some other), { a with control := { m₂.control with lastIf := result }, console }) := by
  obtain ⟨i, j, hread⟩ := h.first.eq_of_found
  have hsize : 65536 ≤ m₁.memory.size := by
    rw [hread]
    exact h.size
  have hfound := nextProgramLine_of_outside
    (k := { a with control := { m₁.control with lastIf := result }, console }) hsize h.second h.place
    (Frame.outside.trans houtside (Frame.aside_outside ⟨rfl, .refl _⟩)) rfl
  obtain ⟨i', j', hsecond⟩ := eq_of_read h.second
  rw [hsecond] at hfound ⊢
  exact hfound

theorem run_second (result : Bool) (a : Machine) (printed : List Text) (logged : List LogEntry) :
    ∃ printed' logged', (runLine other).run { a with
        control := { m₂.control with lastIf := result }
        console := { a.console with printed, logged } } =
      (.ok (), { a with
        control := { m₂.control with lastIf := result, pending := if result then none else some y }
        console := { a.console with printed := printed', logged := logged' } }) := by
  obtain ⟨w, hw, hparse⟩ := h.alternative
  obtain ⟨⟨input, printed', logged'⟩, hinput, hrun⟩ := Act.run_execute
    (show (Act.stored other).tokens? = some (.word w :: y) from toOption_eq_some_iff.mpr hparse)
    { a with
      control := { m₂.control with lastIf := result }, console := { a.console with printed, logged } }
  obtain rfl : input = a.console.input := hinput
  refine ⟨printed', logged', hrun.trans ((run_elseTokens hw y _).trans ?_)⟩
  rw [← h.pending_second]

theorem runsProgram_first : RunsProgram m₁ := by
  obtain ⟨a, b, hread⟩ := h.first.eq_of_found
  rw [hread]
  exact ⟨h.first.queue, h.first.running, h.first.going⟩

theorem runsProgram_second : RunsProgram m₂ := by
  obtain ⟨a, b, hread⟩ := eq_of_read h.second
  rw [hread]
  exact ⟨h.runsProgram_first.queue, h.runsProgram_first.running, h.runsProgram_first.going⟩

/-- The command behind `ELSE` runs before the line behind it is looked for, if it is to run. -/
theorem run_last {result : Bool} (hx : IsAssignment x) (hy : IsAssignment y)
    (hxalone : result = true → RunsAlone x m₁) (hyalone : result = false → RunsAlone y m₂)
    (printed : List Text) (logged : List LogEntry) : ∃ k, runPending.run { conditionally m₁ result x with
        control := { m₂.control with lastIf := result, pending := if result then none else some y }
        console := { (conditionally m₁ result x).console with printed, logged } } = (.ok (), k) ∧
      k.memory = (if result then (runTokens x).run m₁ else (runTokens y).run m₂).2.memory ∧
      k.control.next = m₂.control.next ∧ RunsProgram k := by
  cases result with
  | true =>
    obtain ⟨hqueue, hrunning, hgoing⟩ :=
      h.runsProgram_first.of_allows (hx.allows_runTokens (hxalone rfl)).1
    exact ⟨_, run_runPending_none rfl, rfl, rfl, hqueue, hrunning, hgoing⟩
  | false =>
    obtain ⟨printed', logged', hrun⟩ :=
      run_waiting_command hy.notConditional h.pending_second (hyalone rfl) false printed logged
    have hkept := (hy.allows_runTokens (hyalone rfl)).1
    obtain ⟨hqueue, hrunning, hgoing⟩ := h.runsProgram_second.of_allows hkept
    -- The first command has not run, so the machine is `m₂` but for the result and the command to run.
    have hstart : { m₂ with
        control := { m₂.control with lastIf := false, pending := some y }
        console := { m₂.console with printed, logged } } =
        { conditionally m₁ false x with
          control := { m₂.control with lastIf := false, pending := if false then none else some y }
          console := { (conditionally m₁ false x).console with printed, logged } } := by
      obtain ⟨i, j, hsecond⟩ := eq_of_read h.second
      rw [hsecond]
      rfl
    rw [hstart] at hrun
    have hnext : ((runTokens y).run m₂).2.control.next = m₂.control.next := congrArg Control.next hkept.1
    exact ⟨_, hrun, rfl, hnext, hqueue, hrunning, hgoing⟩

end AtAlternatives

end Machine

open Machine

/-- Of two alternatives one is run, once, and before the line behind them is looked for: the first if the
condition holds before the first line, and the second if it does not. The one that is run must not fail, nor
come to the debugger's prompt, where other commands can be typed. -/
theorem one_alternative_runs {m m₁ m₂ : Machine} {c : Condition} {x y : List Token} {line other : Text}
    {result : Bool} (h : AtAlternatives m m₁ m₂ c x y line other) (hx : IsAssignment x)
    (hy : IsAssignment y) (hvalue : c.holds m = .ok result) (hxalone : result = true → RunsAlone x m₁)
    (hyalone : result = false → RunsAlone y m₂) (n : Nat) :
    ∃ (before after : List Moment) (k : Machine), m.moments (n + 3) = before ++ ⟨k, .fetch⟩ :: after ∧
      before.map Moment.act = (if result then [.fetch, .stored line, .pending x, .fetch, .stored other]
        else [.fetch, .stored line, .fetch, .stored other, .pending y]) ∧
      k.memory = (if result then (runTokens x).run m₁ else (runTokens y).run m₂).2.memory ∧
      k.control.next = m₂.control.next := by
  obtain ⟨hcourse, houtside⟩ := hx.allows_conditionally hxalone
  obtain ⟨printed, logged, hfirst⟩ := h.run_first hvalue
  obtain ⟨printed₁, logged₁, hwaiting⟩ := h.run_waiting hx hxalone printed logged
  have hfound := h.found_second result houtside
    { (conditionally m₁ result x).console with printed := printed₁, logged := logged₁ }
  obtain ⟨printed₂, logged₂, hsecond⟩ :=
    h.run_second result (conditionally m₁ result x) printed₁ logged₁
  obtain ⟨k, hlast, hmemory, hnext, hk⟩ := h.run_last hx hy hxalone hyalone printed₂ logged₂
  obtain ⟨hqueue, hrunning, hgoing⟩ := h.runsProgram_first
  obtain ⟨hqueue₁, hrunning₁, hgoing₁⟩ := h.runsProgram_first.of_allows hcourse
  obtain ⟨before, after, hmoments, hacts⟩ := moments_two_lines h.first hfirst hwaiting hfound hsecond hlast
    ⟨hqueue, hrunning, hgoing⟩ ⟨hqueue₁, hrunning₁, hgoing₁⟩ ⟨hqueue₁, hrunning₁, hgoing₁⟩ hk n
  refine ⟨before, after, k, hmoments, hacts.trans ?_, hmemory, hnext⟩
  simp only [decided, h.pending_first]
  cases result <;> rfl

/-- In `IF A = 0 THEN A = 5` the assignment makes the condition false, and `ELSE B = 1` is not run. -/
theorem one_alternative_runs_changed : ∃ m m₁ m₂ c x y line other,
    AtAlternatives m m₁ m₂ c x y line other ∧ IsAssignment x ∧ IsAssignment y ∧
      c.holds m = .ok true ∧ c.holds ((runTokens x).run m₁).2 = .ok false ∧ RunsAlone x m₁ ∧
      ∀ n, ∃ (before after : List Moment) (k : Machine),
        m.moments (n + 3) = before ++ ⟨k, .fetch⟩ :: after ∧
        before.map Moment.act = [.fetch, .stored line, .pending x, .fetch, .stored other] ∧
        k.memory = ((runTokens x).run m₁).2.memory ∧ k.control.next = m₂.control.next := by
  let line := "IF A = 0 THEN A = 5".toList
  let other := "ELSE B = 1".toList
  let m := Machine.started [line, other, "C = 2".toList]
  let m₁ := (readProgramLine.run m).2
  let m₂ := (readProgramLine.run m₁).2
  let c : Condition := ⟨.numericVar ['A'], .equal, .number 0⟩
  let x : List Token := [.numericVar ['A'], .symbol ['='], .number 5]
  let y : List Token := [.numericVar ['B'], .symbol ['='], .number 1]
  have hfirst : (readProgramLine.run m).1 = .ok line := by decide +kernel
  have hsecond : (readProgramLine.run m₁).1 = .ok other := by decide +kernel
  have hparse : Token.parse line = .ok (.word "IF".toList :: (c.tokens ++ .word "THEN".toList :: x)) := by
    decide +kernel
  have helse : Token.parse other = .ok (.word "ELSE".toList :: y) := by decide +kernel
  have hlines : AtAlternatives m m₁ m₂ c x y line other := {
    size := by decide +kernel
    first := ⟨rfl, rfl, rfl, rfl, by rw [← hfirst]⟩
    conditional := ⟨_, hparse, .line (by decide +kernel) (by decide +kernel) c x⟩
    place := by decide +kernel
    second := by rw [← hsecond]
    alternative := ⟨_, by decide +kernel, helse⟩ }
  have hvalue : c.holds m = .ok true := by decide +kernel
  have halone : RunsAlone x m₁ := by
    unfold RunsAlone
    decide +kernel
  refine ⟨m, m₁, m₂, c, x, y, line, other, hlines, .inl rfl, .inl rfl, hvalue, by decide +kernel, halone,
    fun n => ?_⟩
  have hruns := one_alternative_runs hlines (.inl rfl) (.inl rfl) hvalue (fun _ => halone)
    (fun hfalse => absurd hfalse (by decide)) n
  simpa only [if_true] using hruns

end BasicMachine
