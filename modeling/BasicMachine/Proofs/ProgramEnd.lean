import BasicMachine.Proofs.TurnFrame

/-! The end of a program. The command `END` marks the program as finished, and the mark is looked at
between two turns only. A line that begins with `END` is the last thing its turn does, so nothing is run
behind it. As the pending command it is the first thing, and its turn still runs a line from the queue or
of the program if there is one. -/
namespace BasicMachine

/-- No step makes a finished program unfinished, or turns the prompt on exit on or off. -/
def Frame.ending : Frame Machine where
  allows m n := n.debugger.promptOnExit = m.debugger.promptOnExit ∧
    (m.programFinished = true → n.programFinished = true)
  refl _ := ⟨rfl, id⟩
  trans h h' := ⟨h'.1.trans h.1, h'.2 ∘ h.2⟩

theorem Frame.turning_ending : Frame.ending.Turning where
  aside m n h := ⟨by rw [h.same], by rw [h.same]; exact id⟩
  write := .of_any fun _ _ _ => ⟨rfl, id⟩
  quit _ := ⟨rfl, id⟩
  exit _ := ⟨rfl, fun _ => rfl⟩
  course _ _ _ _ := ⟨rfl, id⟩

namespace Machine

theorem keeps_runPending : Run.Keeps Frame.ending runPending := Frame.turning_ending.runPending

theorem promptOnExit_of_turns {m k : Machine} (h : Relation.ReflTransGen TakesTurn m k) :
    k.debugger.promptOnExit = m.debugger.promptOnExit := by
  induction h with
  | refl => rfl
  | @tail b c _ hturn ih =>
    have hkept := (Frame.turning_ending.turn b).1
    rw [hturn.2] at hkept
    exact hkept.trans ih

def ended (m : Machine) : Machine :=
  { m with debugger := { m.debugger with finished := true }, programFinished := true }

end Machine

/-- The command is `END`. -/
def beginsEnd : List Token → Bool
  | .word w :: _ => upper w == "END".toList
  | _ => false

theorem Machine.run_endTokens {tokens : List Token} (h : beginsEnd tokens = true) {m : Machine}
    (hoff : m.debugger.promptOnExit = false) : (runTokens tokens).run m = (.ok (), m.ended) := by
  unfold beginsEnd at h
  split at h
  · next w rest =>
    have hroutine := Command.run_dispatch_word Debugger.hooks m w rest
    rw [eq_of_beq h] at hroutine
    have hend : (Call.onMachine Debugger.onExit).run ⟨m, ⟨.word w :: rest, 1⟩⟩ =
        (.ok (), ⟨m.ended, ⟨.word w :: rest, 1⟩⟩) := by
      simp [Call.onMachine, run_onExit hoff, ended]
    exact Command.run_withArguments (hroutine.trans hend)
  · cases h

/-- The command of the line is `END`. -/
def isEndLine (line : Text) : Bool :=
  match Token.parse line with
  | .ok tokens => beginsEnd tokens
  | .error _ => false

namespace Act

/-- It runs the command `END`. -/
def isEnd : Act → Bool
  | pending tokens => beginsEnd tokens
  | queued line => line.head? != some '/' && isEndLine line
  | fetch => false
  | stored line => isEndLine line

def isPending : Act → Bool
  | pending _ => true
  | _ => false

/-- `END` ends the program and writes to the log at most. -/
theorem run_end {act : Act} (hend : act.isEnd = true) {m : Machine}
    (hoff : m.debugger.promptOnExit = false) :
    ∃ console, act.execute.run m = (.ok (), Machine.ended { m with console }) := by
  have hline {line : Text} (h : isEndLine line = true) :
      ∃ console, (Machine.runLine line).run m = (.ok (), Machine.ended { m with console }) := by
    unfold isEndLine at h
    split at h
    · next tokens hparse =>
      obtain ⟨console, hrun⟩ := Machine.run_runLine hparse m
      exact ⟨console, hrun.trans (Machine.run_endTokens h hoff)⟩
    · cases h
  cases act with
  | pending tokens => exact ⟨m.console, Machine.run_endTokens hend hoff⟩
  | queued line =>
    simp only [isEnd, Bool.and_eq_true, bne_iff_ne, ne_eq] at hend
    have hplain : Machine.runQueued line = Machine.runLine line := by
      unfold Machine.runQueued
      split
      · simp at hend
      · rfl
    rw [execute, hplain]
    exact hline hend.2
  | fetch => cases hend
  | stored line => exact hline hend

end Act

def commands (l : List Moment) : List Act := (l.map Moment.act).filter (· ≠ .fetch)

namespace Machine

/-- There is a line to run in the queue or in the program. -/
def HasMore (m : Machine) : Prop :=
  m.queue ≠ [] ∨ m.running = true ∧ ∃ line, (nextProgramLine.run m).1 = .ok (some line)

theorem nextProgramLine_fst_congr {m n : Machine} (hmemory : n.memory = m.memory)
    (hnext : n.control.next = m.control.next) :
    (nextProgramLine.run n).1 = (nextProgramLine.run m).1 := by
  rw [run_nextProgramLine, run_nextProgramLine, hmemory, hnext]
  dsimp only
  split <;> rfl

theorem momentsAfter_of_finished {r : Except Fault Unit × Machine} (h : r.2.programFinished = true)
    (n : Nat) : momentsAfter n r = [] := by
  rcases r with ⟨r, m⟩
  have hdone : m.isDone = true := by simp [isDone, show m.programFinished = true from h]
  cases r with
  | error e => rfl
  | ok u => simp [momentsAfter, hdone, moments_of_done hdone]

theorem GoesOn.commands_iff {k : Machine} {l : List Moment} {r : Except Fault Unit × Machine}
    (h : GoesOn k l r) : (commands l = [] ↔ ¬k.HasMore) ∧ (commands l).length ≤ 1 := by
  cases h with
  | queued queue => simp [commands, HasMore, queue]
  | stopped queue running => simp [commands, HasMore, queue, running]
  | stored queue running found => simp [commands, HasMore, queue, running, found]
  | ended queue running found => simp [commands, HasMore, queue, running, found]
  | unread queue running fault => simp [commands, HasMore, queue, running, fault]

/-- Behind a pending `END` the rest of the turn is as it would be without it, and the last of the run. -/
theorem GoesOn.commands_behind_end {k : Machine} {later : List Moment}
    {r : Except Fault Unit × Machine} (h : GoesOn k.ended.cleared later r) (n : Nat) :
    (commands (later ++ momentsAfter n r) = [] ↔ ¬k.HasMore) ∧
      (commands (later ++ momentsAfter n r)).length ≤ 1 := by
  have hmore : k.ended.cleared.HasMore ↔ k.HasMore := by
    rw [HasMore, @nextProgramLine_fst_congr k k.ended.cleared rfl rfl]
    rfl
  rw [momentsAfter_of_finished ((Frame.turning_ending.goesOn h).2 rfl), List.append_nil, ← hmore]
  exact h.commands_iff

/-- A line with the command `END` is no pending command and the last of the run. -/
theorem GoesOn.commands_behind_endLine {k₁ k : Machine} {act : Act} {l later : List Moment}
    {r : Except Fault Unit × Machine} (h : GoesOn k₁ (l ++ ⟨k, act⟩ :: later) r)
    (hoff : k₁.debugger.promptOnExit = false) (hend : act.isEnd = true) (n : Nat) :
    act.isPending = false ∧ commands (later ++ momentsAfter n r) = [] := by
  have hcommand : act ≠ .fetch := by
    rintro rfl
    cases hend
  obtain ⟨rfl, hresult, hcase⟩ := h.command_last hcommand
  have hbehind : act.isPending = false ∧ k.debugger.promptOnExit = false := by
    rcases hcase with ⟨line, rest, -, heq⟩ | ⟨line, k', -, -, -, hfound, heq⟩
    · cases heq
      exact ⟨rfl, hoff⟩
    · cases heq
      have hkept := (Frame.turning_ending.aside.nextProgramLine k₁).1
      rw [hfound] at hkept
      exact ⟨rfl, hkept.trans hoff⟩
  obtain ⟨console, hended⟩ := Act.run_end hend hbehind.2
  rw [hresult, hended, momentsAfter_of_finished rfl]
  exact ⟨hbehind.1, rfl⟩

end Machine

/-- Without a prompt on exit, nothing is run behind `END` exactly if it is no pending command or there is
nothing left to run; otherwise one more command is run. -/
theorem commands_after_end_iff {n : Nat} {m k : Machine} {before after : List Moment} {act : Act}
    (hoff : m.debugger.promptOnExit = false)
    (hrun : m.moments n = before ++ ⟨k, act⟩ :: after) (hend : act.isEnd = true) :
    (commands after = [] ↔ ¬(act.isPending = true ∧ k.HasMore)) ∧ (commands after).length ≤ 1 := by
  obtain ⟨k₀, n', earlier, later, hreach, -, -, hmoments, rfl⟩ := Machine.exists_turn_of_moments hrun
  have hoff₀ : k₀.debugger.promptOnExit = false := (Machine.promptOnExit_of_turns hreach).trans hoff
  have hgoes := Recording.goes k₀
  rw [hmoments] at hgoes
  rcases hgoes.pending_or_behind with ⟨tokens, -, heq, hrest⟩ | ⟨k₁, l, hfirst, -, -, hrest⟩
  · cases heq
    rw [Machine.run_endTokens hend hoff₀] at hrest
    simpa [Act.isPending] using hrest.commands_behind_end n'
  · have hoff₁ : k₁.debugger.promptOnExit = false := by
      have hkept := (Machine.keeps_runPending k₀).1
      rw [hfirst] at hkept
      exact hkept.trans hoff₀
    obtain ⟨hline, hnone⟩ := hrest.commands_behind_endLine hoff₁ hend n'
    simp [hline, hnone]

/-- A program whose second line is `END`: nothing is run behind it. -/
theorem commands_after_endLine : ∃ before k after,
    (Machine.started ["A = 7".toList, "END".toList, "B = 1".toList]).debugger.promptOnExit = false ∧
      (Machine.started ["A = 7".toList, "END".toList, "B = 1".toList]).moments 3 =
        before ++ ⟨k, .stored "END".toList⟩ :: after ∧
      (Act.stored "END".toList).isEnd = true ∧ commands after = [] := by
  obtain ⟨before, k, after, hrun⟩ := exists_moment_of_mem
    (show Act.stored "END".toList ∈ ((Machine.started
      ["A = 7".toList, "END".toList, "B = 1".toList]).moments 3).map Moment.act by decide +kernel)
  have hend : (Act.stored "END".toList).isEnd = true := by decide +kernel
  exact ⟨before, k, after, rfl, hrun, hend,
    (commands_after_end_iff rfl hrun hend).1.mpr fun h => Bool.false_ne_true h.1⟩

/-- The command behind `THEN` is `END`, and one more line of the program is run. -/
theorem line_run_after_end :
    (Act.pending [.word "END".toList]).isEnd = true ∧
    ((Machine.started ["IF 1 = 1 THEN END".toList, "A = 7".toList, "B = 1".toList]).moments 3).map
        Moment.act =
      [.fetch, .stored "IF 1 = 1 THEN END".toList, .pending [.word "END".toList], .fetch,
        .stored "A = 7".toList] := by
  decide +kernel

end BasicMachine
