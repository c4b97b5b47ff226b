import BasicMachine.Proofs.Conditional
import BasicMachine.Proofs.Recording

/-! Conditionals behind `THEN` and `ELSE`. The command behind a condition waits for the next turn, and the
turn clears it away once it has run. A condition that is itself waited for leaves its own command in the
same place, so that command is cleared away before it runs. -/
namespace BasicMachine

namespace Condition

/-- The condition has a value, and it is true. -/
def isTrue (c : Condition) (m : Machine) : Bool :=
  match c.holds m with
  | .ok result => result
  | .error _ => false

theorem isTrue_congr {m n : Machine} (h : SameView m n) (c : Condition) : c.isTrue n = c.isTrue m := by
  simp only [isTrue, holds, h.toNumeric]

end Condition

/-- What stands before the inner condition of a line. -/
inductive Lead where
  | ifThen (c : Condition)
  | elseThen

namespace Lead

def tokens : Lead → List Token → List Token
  | ifThen c, rest => ifLine c [] rest
  | elseThen, rest => .word "ELSE".toList :: rest

/-- The command behind it is to be run. -/
def passes (m : Machine) : Lead → Bool
  | ifThen c => c.isTrue m
  | elseThen => !m.control.lastIf

theorem passes_console (lead : Lead) (m : Machine) (console : Console) :
    lead.passes { m with console } = lead.passes m := by
  cases lead with
  | ifThen c => exact @Condition.isTrue_congr m { m with console } ⟨rfl, rfl, rfl⟩ c
  | elseThen => rfl

/-- It leaves the command behind it to be run, or what is pending as it is. -/
theorem pending_tokens (lead : Lead) (rest : List Token) (m : Machine) :
    ((Machine.runTokens (lead.tokens rest)).run m).2.control.pending =
      if lead.passes m then some rest else m.control.pending := by
  cases lead with
  | ifThen c =>
    rw [tokens, m.run_ifLine_single c rest, passes, Condition.isTrue]
    cases c.holds m with
    | error e => rfl
    | ok result => rfl
  | elseThen =>
    have hroutine := Command.run_dispatch_word Debugger.hooks m "ELSE".toList rest
    obtain ⟨m', helse, hpending⟩ : ∃ m', Command.runElse.run ⟨m, ⟨.word "ELSE".toList :: rest, 1⟩⟩ =
        (.ok (), ⟨m', ⟨.word "ELSE".toList :: rest, 1⟩⟩) ∧
        m'.control.pending = if !m.control.lastIf then some rest else m.control.pending := by
      cases hlast : m.control.lastIf with
      | false =>
        refine ⟨{ m with control := { m.control with pending := some rest } }, ?_, rfl⟩
        simp [Command.runElse, Command.control, Command.deferRest, Command.changeControl,
          Call.onMachine, Machine.changeControl, Run.run_bind, hlast, Arguments.remaining, dropTo, bound]
      | true =>
        refine ⟨m, ?_, rfl⟩
        simp [Command.runElse, Command.control, Run.run_bind, hlast]
    rw [tokens, Machine.runTokens, Command.runTokens, Command.run_withArguments (hroutine.trans helse)]
    exact hpending

end Lead

/-- The times a command is run before the next line of the program is looked for. -/
def executions (x : List Token) (l : List Moment) : Nat := (beforeFetch l).count (.pending x)

/-- Before the next line is looked for, a line with two conditions runs the inner one and nothing else. -/
theorem beforeFetch_nested (lead : Lead) (c : Condition) (x : List Token) {n : Nat} {m k : Machine}
    {before after : List Moment} {line : Text}
    (hparse : Token.parse line = .ok (lead.tokens (ifLine c [] x)))
    (hrun : m.moments n = before ++ ⟨k, .stored line⟩ :: after) :
    beforeFetch after <+: if lead.passes k then [.pending (ifLine c [] x)] else [] := by
  obtain ⟨hpending, hqueue, hrunning, n', rfl⟩ := Machine.moments_after_stored hrun
  obtain ⟨console, hline⟩ := Machine.run_runLine hparse k
  have hcourse := Machine.keeps_runLine Frame.open_course line k
  have hwaits : ((Machine.runLine line).run k).2.control.pending =
      if lead.passes k then some (ifLine c [] x) else none := by
    rw [hline, lead.pending_tokens, lead.passes_console, hpending]
  rcases hresult : (Machine.runLine line).run k with ⟨r, m'⟩
  rw [hresult] at hcourse hwaits
  cases r with
  | error e => exact List.nil_prefix
  | ok u =>
    rw [Machine.momentsAfter]
    split
    · exact List.nil_prefix
    · have hwindow := Machine.beforeFetch_moments (hcourse.1.trans hqueue) (hcourse.2.trans hrunning) n'
      rw [hwaits] at hwindow
      cases hpasses : lead.passes k <;> simpa [hpasses] using hwindow

theorem ifLine_ne (c : Condition) (x : List Token) : ifLine c [] x ≠ x := by
  intro h
  have hlength := congrArg List.length h
  simp only [ifLine, List.length_cons, List.length_append] at hlength
  omega

/-- A line `IF c₁ THEN IF c THEN x`, or `ELSE IF c THEN x`, runs the inner condition at most before the next
line of the program is looked for. So the command `x` is run as often as the conditions ask exactly if
they do not ask for it. -/
theorem nested_executions_iff (lead : Lead) (c : Condition) (x : List Token) {n : Nat} {m k : Machine}
    {before after : List Moment} {line : Text}
    (hparse : Token.parse line = .ok (lead.tokens (ifLine c [] x)))
    (hrun : m.moments n = before ++ ⟨k, .stored line⟩ :: after) :
    (beforeFetch after <+: if lead.passes k then [.pending (ifLine c [] x)] else []) ∧
      (executions x after = (if lead.passes k && c.isTrue k then 1 else 0) ↔
        (lead.passes k && c.isTrue k) = false) := by
  have hwindow := beforeFetch_nested lead c x hparse hrun
  have hnone : executions x after = 0 := by
    have hcount := hwindow.sublist.count_le (.pending x)
    have hother :
        (if lead.passes k then [Act.pending (ifLine c [] x)] else []).count (.pending x) = 0 := by
      split <;> simp [ifLine_ne]
    exact Nat.le_zero.mp (hother ▸ hcount)
  refine ⟨hwindow, ?_⟩
  rw [hnone]
  cases lead.passes k && c.isTrue k <;> simp

/-- `IF 1 = 1 THEN IF 2 = 3 THEN A = 1`: the inner condition does not hold, and the command is not run. -/
theorem nested_executions_unmet : ∃ before k after,
    Token.parse "IF 1 = 1 THEN IF 2 = 3 THEN A = 1".toList =
        .ok ((Lead.ifThen ⟨.number 1, .equal, .number 1⟩).tokens
          (ifLine ⟨.number 2, .equal, .number 3⟩ [] setFirst)) ∧
      (Machine.started ["IF 1 = 1 THEN IF 2 = 3 THEN A = 1".toList, "B = 1".toList]).moments 2 =
        before ++ ⟨k, .stored "IF 1 = 1 THEN IF 2 = 3 THEN A = 1".toList⟩ :: after ∧
      executions setFirst after = 0 := by
  have hparse : Token.parse "IF 1 = 1 THEN IF 2 = 3 THEN A = 1".toList =
      .ok ((Lead.ifThen ⟨.number 1, .equal, .number 1⟩).tokens
        (ifLine ⟨.number 2, .equal, .number 3⟩ [] setFirst)) := by decide +kernel
  obtain ⟨before, k, after, hrun⟩ := exists_moment_of_mem
    (show Act.stored "IF 1 = 1 THEN IF 2 = 3 THEN A = 1".toList ∈ ((Machine.started
      ["IF 1 = 1 THEN IF 2 = 3 THEN A = 1".toList, "B = 1".toList]).moments 2).map Moment.act by
      decide +kernel)
  exact ⟨before, k, after, hparse, hrun, (nested_executions_iff _ _ setFirst hparse hrun).2.mpr rfl⟩

/-- `IF 1 = 1 THEN IF 2 = 2 THEN A = 1`: both conditions hold, and the next line is run without the
command. -/
theorem nested_command_lost :
    ((Machine.started ["IF 1 = 1 THEN IF 2 = 2 THEN A = 1".toList, "B = 1".toList]).moments 2).map
        Moment.act =
      [.fetch, .stored "IF 1 = 1 THEN IF 2 = 2 THEN A = 1".toList,
        .pending (ifLine ⟨.number 2, .equal, .number 2⟩ [] setFirst), .fetch,
        .stored "B = 1".toList] := by
  decide +kernel

end BasicMachine
