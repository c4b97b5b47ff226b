import BasicMachine.Proofs.ProgramEnd
import BasicMachine.Proofs.UnendedProgram

/-! The last line of a program. The end of a program is where no newline follows any more, and a line is
looked at before its newline is looked for. So a last line that has none is read and not run. The run of a
program without a newline behind its last line is compared with that of the same program with one: as long
as lines are found, both do the same, and where the first one comes to its last line it ends, while the
second one runs that line. -/
namespace BasicMachine

open Run (Alike Steady)
open Machine (GoesOn Goes)

/-- The tokens of the command that the act executes, if it executes one. -/
def Act.executed? (act : Act) : Option (List Token) :=
  act.tokens?.filter fun tokens => (Command.commandOf? tokens).isSome

def executed (l : List Moment) : List (List Token) := l.filterMap fun q => q.act.executed?

@[simp] theorem executed_nil : executed [] = [] := rfl

@[simp] theorem executed_append (l l' : List Moment) : executed (l ++ l') = executed l ++ executed l' :=
  List.filterMap_append

theorem executed_cons (q : Moment) (l : List Moment) :
    executed (q :: l) = q.act.executed?.toList ++ executed l := by
  rw [executed, List.filterMap_cons]
  cases q.act.executed? <;> rfl

@[simp] theorem executed_fetch (k : Machine) : executed [⟨k, .fetch⟩] = [] := rfl

namespace Machine

def completed (m : Machine) : Machine :=
  { m with memory := m.memory.set (programStart + m.programSize).toNat Memory.newline }

/-- The line that would come next with a newline behind the program, and does not come without it. -/
def unendedLine? (m : Machine) : Option Text :=
  match (nextProgramLine.run m).1, (nextProgramLine.run m.completed).1 with
  | .ok none, .ok (some line) => some line
  | _, _ => none

namespace GoesOn

variable {k : Machine} {l l' : List Moment} {r r' : Except Fault Unit × Machine}

theorem unique (h : GoesOn k l r) (h' : GoesOn k l' r') : l' = l ∧ r' = r := by
  cases h <;> cases h' <;> simp_all

end GoesOn

theorem Goes.unique {k : Machine} {l l' : List Moment} {r r' : Except Fault Unit × Machine}
    (h : Goes k l r) (h' : Goes k l' r') : l' = l ∧ r' = r := by
  cases h with
  | free pending rest =>
    cases h' with
    | free _ rest' => exact rest.unique rest'
    | failed pending' => simp [pending] at pending'
    | done pending' => simp [pending] at pending'
  | failed pending fault =>
    cases h' with
    | free pending' => simp [pending] at pending'
    | failed pending' fault' =>
      obtain rfl := Option.some.inj (pending.symm.trans pending')
      exact ⟨rfl, fault'.symm.trans fault⟩
    | done pending' run' =>
      obtain rfl := Option.some.inj (pending.symm.trans pending')
      simp [fault] at run'
  | done pending run rest =>
    cases h' with
    | free pending' => simp [pending] at pending'
    | failed pending' fault' =>
      obtain rfl := Option.some.inj (pending.symm.trans pending')
      simp [run] at fault'
    | done pending' run' rest' =>
      obtain rfl := Option.some.inj (pending.symm.trans pending')
      obtain rfl : _ = _ := (Prod.mk.inj (run.symm.trans run')).2
      obtain ⟨rfl, rfl⟩ := rest.unique rest'
      exact ⟨rfl, rfl⟩

theorem Goes.turn {k : Machine} {l : List Moment} {r : Except Fault Unit × Machine} (h : Goes k l r) :
    Recording.turn.moments k = l ∧ turn.run k = r := by
  have hturn := Recording.goes k
  exact h.unique hturn

/-- Tokens without a command do nothing or fail. -/
theorem run_commandless {tokens : List Token} (h : Command.commandOf? tokens = none) (m : Machine) :
    (runTokens tokens).run m = (.ok (), m) ∨ ∃ e, ((runTokens tokens).run m).1 = .error e := by
  cases tokens with
  | nil => exact .inl rfl
  | cons t ts =>
    have hfirst := Command.run_dispatch_cons Debugger.hooks m t ts
    cases t with
    | numericVar | stringVar => cases h
    | word w =>
      have hnone : Command.ofName? (upper w) = none := h
      have hfault : (Command.firstRoutine Debugger.hooks (.word w)).run ⟨m, ⟨.word w :: ts, 0⟩⟩ =
          (.error (.unknownCommand (upper w)), ⟨m, ⟨.word w :: ts, 1⟩⟩) := by
        simp only [Command.firstRoutine, Command.dispatch.execute, hnone]
        rfl
      refine .inr ⟨.unknownCommand (upper w), ?_⟩
      rw [runTokens, Command.runTokens, Command.run_withArguments (hfirst.trans hfault)]
    | comment | label => exact .inl (Command.run_withArguments hfirst)
    | _ =>
      refine .inr ⟨.noCommand, ?_⟩
      rw [runTokens, Command.runTokens, Command.run_withArguments (hfirst.trans rfl)]

theorem nextProgramLine_none {m : Machine} {e : Fault} (h : m.memory.nextLine m.control.next = .error e) :
    nextProgramLine.run m =
      (.ok none, { m with control := { m.control with counter := m.control.next } }) := by
  rw [run_nextProgramLine, Memory.readLine_eq, h]

theorem nextProgramLine_some {m : Machine} {line : Text} {a : Nat}
    (hread : m.memory.readLine m.control.next = .ok line)
    (hnext : m.memory.nextLine m.control.next = .ok a) :
    nextProgramLine.run m = (.ok (some line), { m with control := { m.control with
      counter := m.control.next, next := a } }) := by
  rw [run_nextProgramLine, hread, hnext]

theorem finished_of_end {m m' : Machine} (hoff : m.debugger.promptOnExit = false)
    (hend : nextProgramLine.run m = (.ok none, m')) :
    (Debugger.onExit.run { m' with running := false }).2.programFinished = true := by
  have hkept := (Frame.turning_ending.aside.nextProgramLine m).1
  rw [hend] at hkept
  have hoff' : ({ m' with running := false } : Machine).debugger.promptOnExit = false :=
    hkept.trans hoff
  rw [run_onExit hoff']

theorem run_runLine_unparsed {line : Text} {e : Fault} (hparse : Token.parse line = .error e) (m : Machine) :
    ((runLine line).run m).1 = .error e := by
  obtain ⟨c, hlog⟩ := run_report .debug "COMMAND".toList
    ("Running command: \"".toList ++ line ++ ['"']) m
  rw [runLine, Command.runLine, logCommand, debug, Run.run_bind_ok hlog, hparse]
  rfl

theorem momentsAfter_of_fault {r : Except Fault Unit × Machine} {e : Fault} (h : r.1 = .error e) (n : Nat) :
    momentsAfter n r = [] := by
  obtain ⟨r, m⟩ := r
  obtain rfl : r = .error e := h
  rfl

/-- A machine that comes to the end of its program executes nothing more. -/
theorem executed_at_end {m m' : Machine} (hpending : m.control.pending = none) (hqueue : m.queue = [])
    (hrunning : m.running = true) (hoff : m.debugger.promptOnExit = false)
    (hend : nextProgramLine.run m = (.ok none, m')) (n : Nat) : executed (m.moments n) = [] := by
  cases n with
  | zero => rfl
  | succ n =>
    obtain ⟨hmoments, hturn⟩ := (Goes.free hpending (.ended hqueue hrunning hend)).turn
    rw [moments_succ, hmoments, hturn, momentsAfter_of_finished (finished_of_end hoff hend)]
    split <;> rfl

end Machine

/-- The act looks for a line where the run ends for want of a newline, and the line has this command. -/
def Moment.LeavesOut (q : Moment) (tokens : List Token) : Prop :=
  q.act = .fetch ∧ ∃ line ∈ q.machine.unendedLine?, Token.parse line = .ok tokens ∧
    (Command.commandOf? tokens).isSome = true

/-- A run and the run that it is compared with: both execute the same and the first leaves no command out, or
it leaves just one out, and then the second executes that one too and maybe more. -/
inductive Compares (l l' : List Moment) : Prop
  | same (executed : executed l' = executed l) (none : ∀ q ∈ l, ∀ tokens, ¬q.LeavesOut tokens) :
    Compares l l'
  | more {q : Moment} {tokens : List Token} {later : List (List Token)} (mem : q ∈ l)
    (out : q.LeavesOut tokens) (only : ∀ q ∈ l, ∀ other, q.LeavesOut other → other = tokens)
    (executed : executed l' = executed l ++ tokens :: later) : Compares l l'

namespace Compares

theorem nil : Compares [] [] := .same rfl (by simp)

theorem append {l₁ l₁' l₂ l₂' : List Moment} (h : executed l₁' = executed l₁)
    (hnone : ∀ q ∈ l₁, ∀ tokens, ¬q.LeavesOut tokens) (hrest : Compares l₂ l₂') :
    Compares (l₁ ++ l₂) (l₁' ++ l₂') := by
  cases hrest with
  | same hexecuted hleft =>
    apply Compares.same
    · rw [executed_append, executed_append, h, hexecuted]
    · intro q hq
      rcases List.mem_append.mp hq with hq | hq
      · exact hnone q hq
      · exact hleft q hq
  | more hmem hout honly hexecuted =>
    apply Compares.more (List.mem_append_right _ hmem) hout
    · intro q hq other hother
      rcases List.mem_append.mp hq with hq | hq
      · exact absurd hother (hnone q hq other)
      · exact honly q hq other hother
    · rw [executed_append, executed_append, h, hexecuted, List.append_assoc]

/-- Both execute the same exactly if nothing is left out. -/
theorem executed_eq_iff {l l' : List Moment} (h : Compares l l') :
    executed l = executed l' ↔ ∀ q ∈ l, ∀ tokens, ¬q.LeavesOut tokens := by
  cases h with
  | same hexecuted hnone => exact iff_of_true hexecuted.symm hnone
  | more hmem hout _ hexecuted =>
    apply iff_of_false
    · rw [hexecuted]
      intro heq
      simpa using congrArg List.length heq
    · exact fun hnone => hnone _ hmem _ hout

end Compares

/-- What looking for the next line comes to: the same line on both sides, no line on the first side and a last
one on the second, or none. -/
inductive Fetches (p t : List UInt8) (k k' : Machine) : Prop
  | same {line : Text} {k₁ k₁' : Machine} (left : Machine.nextProgramLine.run k = (.ok (some line), k₁))
    (right : Machine.nextProgramLine.run k' = (.ok (some line), k₁'))
    (along : Alongside (Unended p t) k₁ k₁')
    (start : k.memory.searchStart k.control.next < 32768 + p.length) (found : k.unendedLine? = none) :
    Fetches p t k k'
  | last {line : Text} {k₁ k₁' : Machine} (left : Machine.nextProgramLine.run k = (.ok none, k₁))
    (right : Machine.nextProgramLine.run k' = (.ok (some line), k₁'))
    (after : k₁' = { k' with control := { k'.control with
      counter := k'.control.next, next := (32768 + (p ++ t).length + 1 : Nat) } })
    (found : k.unendedLine? = some line) : Fetches p t k k'
  | none {k₁ k₁' : Machine} (left : Machine.nextProgramLine.run k = (.ok none, k₁))
    (right : Machine.nextProgramLine.run k' = (.ok none, k₁')) (found : k.unendedLine? = none) :
    Fetches p t k k'

namespace Unended

variable {p t : List UInt8} {k k' : Machine} (h : Alongside (Unended p t) k k')
include h

/-- With a newline behind its program, the first machine finds what the second one finds. -/
theorem fst_completed :
    (Machine.nextProgramLine.run k.completed).1 = (Machine.nextProgramLine.run k').1 := by
  have htwins := h.core.memory
  have hload := Machine.loaded_of_ends htwins.left h.core.left
  have hcontrol : k'.control = k.control := h.core.control
  have hplace : (programStart + k.programSize).toNat = 32768 + (p ++ t).length := by
    rw [hload.size]
    unfold programStart
    omega
  have hsize : k'.memory.size = k.completed.memory.size := by
    rw [Machine.completed, Bank.size_set]
    exact htwins.sizes
  have hget : ∀ i < k.completed.memory.size, k'.memory.get i = k.completed.memory.get i := by
    intro i hi
    have hi' : i < 65536 := by
      rw [← hsize] at hi
      exact htwins.right.size ▸ hi
    rw [Machine.completed, Bank.get_set, hplace]
    split
    · next heq =>
      rw [heq]
      exact htwins.get_end
    · next hne => exact htwins.get_of_ne hi' hne
  have hread := Memory.readLine_congr (a := k.control.next) hsize fun i _ => hget i
  have hnext := Memory.nextLine_congr (a := k.control.next) hsize fun i _ => hget i
  obtain ⟨line, hline⟩ : ∃ line, k'.memory.readLine k.control.next = .ok line :=
    ⟨_, Memory.readLine_eq _ _⟩
  cases hfound : k'.memory.nextLine k.control.next with
  | error e =>
    rw [@Machine.nextProgramLine_none k.completed e (hnext.symm.trans hfound),
      @Machine.nextProgramLine_none k' e (hcontrol ▸ hfound)]
  | ok a =>
    rw [@Machine.nextProgramLine_some k.completed line a (hread.symm.trans hline)
        (hnext.symm.trans hfound),
      @Machine.nextProgramLine_some k' line a (hcontrol ▸ hline) (hcontrol ▸ hfound)]

theorem fetches (ht : Memory.newline ∉ t) : Fetches p t k k' := by
  have hcompleted := fst_completed h
  have hcontrol : k'.control = k.control := h.core.control
  obtain ⟨line, hline⟩ : ∃ line, k.memory.readLine k.control.next = .ok line :=
    ⟨_, Memory.readLine_eq _ _⟩
  obtain ⟨line', hline'⟩ : ∃ line, k'.memory.readLine k'.control.next = .ok line :=
    ⟨_, Memory.readLine_eq _ _⟩
  rcases h.core.memory.findsAt ht k.control.next with
    ⟨hleft, hright, hsame, hstart⟩ | ⟨hleft, hright⟩ | ⟨hleft, hright⟩
  · rename_i b
    have hfound := Machine.nextProgramLine_some hline hleft
    have hfound' := @Machine.nextProgramLine_some k' line b (hcontrol ▸ hsame.trans hline)
      (hcontrol ▸ hright)
    apply Fetches.same hfound hfound' _ hstart
    · rw [Machine.unendedLine?, hfound]
    · obtain ⟨core, printed, logged, hcore, rfl⟩ := h
      refine ⟨{ core with control := { core.control with counter := core.control.next, next := b } },
        printed, logged, ?_, rfl⟩
      exact { hcore with
        control := by
          rw [show core.control = k.control from hcontrol]
          rfl
        counter := hstart }
  · have hfound := Machine.nextProgramLine_none hleft
    have hlast := @Machine.nextProgramLine_some k' _ _ hline' (hcontrol ▸ hright)
    apply Fetches.last hfound hlast rfl
    rw [Machine.unendedLine?, hfound, hcompleted, hlast]
  · have hfound := Machine.nextProgramLine_none hleft
    have hnone := @Machine.nextProgramLine_none k' _ (hcontrol ▸ hright)
    apply Fetches.none hfound hnone
    rw [Machine.unendedLine?, hfound, hcompleted, hnone]

end Unended

/-- Between two acts: the machines have come the same way so far. Without complete lines, that is as far as
the first look for a line. -/
structure Twin (p t : List UInt8) (m n : Machine) : Prop where
  along : Alongside (Unended p t) m n
  noPrompt : m.debugger.promptOnExit = false
  empty : p = [] →
    m.control.pending = none ∧ m.queue = [] ∧ 32768 ≤ m.memory.searchStart m.control.next

/-- What a piece of a turn notes and comes to on both sides: it goes the same way, or the first side is at its
end and both runs are compared for good. -/
inductive Paired (p t : List UInt8) (l l' : List Moment) (r r' : Except Fault Unit × Machine) : Prop
  | step (executed : executed l' = executed l) (none : ∀ q ∈ l, ∀ tokens, ¬q.LeavesOut tokens)
    (result : r'.1 = r.1) (twin : Twin p t r.2 r'.2) : Paired p t l l' r r'
  | stop (finished : r.2.programFinished = true)
    (rest : ∀ n, Compares l (l' ++ Machine.momentsAfter n r')) : Paired p t l l' r r'

namespace Twin

variable {p t : List UInt8} {m n : Machine}

theorem isDone (h : Twin p t m n) : n.isDone = m.isDone := by
  obtain ⟨core, printed, logged, -, rfl⟩ := h.along
  rfl

theorem control (h : Twin p t m n) : n.control = m.control := h.along.core.control

theorem queue (h : Twin p t m n) : n.queue = m.queue := by
  obtain ⟨core, printed, logged, -, rfl⟩ := h.along
  rfl

theorem running (h : Twin p t m n) : n.running = m.running := by
  obtain ⟨core, printed, logged, -, rfl⟩ := h.along
  rfl

theorem cleared (h : Twin p t m n) : Twin p t m.cleared n.cleared where
  along := by
    obtain ⟨core, printed, logged, hcore, rfl⟩ := h.along
    refine ⟨{ core with control := { core.control with pending := none } }, printed, logged, ?_, rfl⟩
    exact { hcore with control := congrArg (fun c : Control => { c with pending := none }) hcore.control }
  noPrompt := h.noPrompt
  empty hnil := ⟨rfl, (h.empty hnil).2⟩

theorem isIdle (h : Twin p t m n) : n.isIdle = m.isIdle := by
  rw [Machine.isIdle, Machine.isIdle, h.queue, h.running, h.control]

theorem getLast?_of_busy (h : Twin p t m n) (hp : p = [] ∨ p.getLast? = some Memory.newline)
    (hbusy : m.control.pending ≠ none ∨ m.queue ≠ [] ∨
      m.memory.searchStart m.control.next < 32768 + p.length) :
    p.getLast? = some Memory.newline := by
  rcases hp with rfl | hlast
  · obtain ⟨hpending, hqueue, hnext⟩ := h.empty rfl
    rcases hbusy with hother | hother | hother
    · exact absurd hpending hother
    · exact absurd hqueue hother
    · exact absurd hother (Nat.not_lt.mpr hnext)
  · exact hlast

variable (ht : Memory.newline ∉ t) (hp : p.getLast? = some Memory.newline)
include ht hp

/-- Commands that do not touch the memory go the same way on both sides. -/
theorem execute (act : Act) (hact : act ≠ .fetch) (hblind : ∀ tokens ∈ act.tokens?, Blind tokens)
    (halong : Alongside (Unended p t) m n) (hoff : m.debugger.promptOnExit = false) :
    (act.execute.run n).1 = (act.execute.run m).1 ∧
      Twin p t (act.execute.run m).2 (act.execute.run n).2 := by
  have hneeds {tokens : List Token} (hblind : Blind tokens) := Unended.needs_of_blind ht hp hblind
  have hhooks := Unended.steady_hooks ht hp
  have hline {line : Text} (hblind : ∀ tokens ∈ (Token.parse line).toOption, Blind tokens) :
      Steady (Alongside (Unended p t)) (Machine.runLine line) :=
    Command.steady_runLine Unended.likeness hhooks fun tokens hparse =>
      hneeds (hblind tokens (toOption_eq_some_iff.mpr hparse))
  have hsteady : Steady (Alongside (Unended p t)) act.execute := by
    cases act with
    | pending tokens =>
      exact Command.steady_runTokens Unended.likeness hhooks (hneeds (hblind tokens rfl))
    | queued line =>
      change Steady (Alongside (Unended p t)) (Machine.runQueued line)
      unfold Machine.runQueued
      split
      · apply Alike.ite
        · exact Machine.steady_modify (fun _ => rfl) fun _ _ _ _ => ⟨_, _, rfl⟩
        apply Alike.ite _ _ (.pure _)
        exact Machine.steady_modify (fun _ => rfl) fun _ _ _ _ => ⟨_, _, rfl⟩
      · next hslash =>
        apply hline
        intro tokens htokens
        apply hblind
        rwa [Act.tokens?]
        exact fun request heq => hslash request heq
    | fetch => exact absurd rfl hact
    | stored line => exact hline hblind
  obtain ⟨hresult, hafter⟩ := hsteady m n halong
  have hkept := (Frame.turning_ending.execute act m).1
  refine ⟨hresult.symm, hafter, hkept.trans hoff, ?_⟩
  -- The last part of the invariant is about programs of one line, and in front of this line there is another.
  rintro rfl
  cases hp

end Twin

theorem not_leavesOut {q : Moment} (h : q.act ≠ .fetch) (tokens : List Token) : ¬q.LeavesOut tokens :=
  fun hout => h hout.1

theorem not_leavesOut_of_none {k : Machine} (h : k.unendedLine? = none) (tokens : List Token) :
    ¬Moment.LeavesOut ⟨k, .fetch⟩ tokens := by
  rintro ⟨-, line, hline, -⟩
  rw [h] at hline
  cases hline

/-- A line without a command, with the end of the program behind it, is the last thing that is run. -/
theorem executed_behind_commandless {m : Machine} {line : Text}
    (hnone : ∀ tokens, Token.parse line = .ok tokens → Command.commandOf? tokens = none)
    (hpending : m.control.pending = none) (hqueue : m.queue = []) (hrunning : m.running = true)
    (hoff : m.debugger.promptOnExit = false) {e : Fault}
    (hend : m.memory.nextLine m.control.next = .error e) (n : Nat) :
    executed (Machine.momentsAfter n ((Machine.runLine line).run m)) = [] := by
  cases hparse : Token.parse line with
  | error e => rw [Machine.momentsAfter_of_fault (Machine.run_runLine_unparsed hparse m), executed_nil]
  | ok tokens =>
    obtain ⟨console, hrun⟩ := Machine.run_runLine hparse m
    rw [hrun]
    rcases Machine.run_commandless (hnone tokens hparse) { m with console } with hok | ⟨e, hfault⟩
    · rw [hok, Machine.momentsAfter]
      split
      · rfl
      · exact @Machine.executed_at_end { m with console } _ hpending hqueue hrunning hoff
          (Machine.nextProgramLine_none hend) n
    · rw [Machine.momentsAfter_of_fault hfault, executed_nil]

/-- The second side runs the last line. If that has a command, it is one that the first side leaves out, and
otherwise the second side executes nothing more either. -/
theorem compares_last {p t : List UInt8} {k k' : Machine} {line : Text}
    (hends : Memory.Ends k'.memory 32768 (p ++ t ++ [Memory.newline]))
    (hpending : k'.control.pending = none) (hqueue : k'.queue = []) (hrunning : k'.running = true)
    (hoff : k'.debugger.promptOnExit = false)
    (hnext : k'.control.next = (32768 + (p ++ t).length + 1 : Nat))
    (hfound : k.unendedLine? = some line) (k₀ : Machine) (n : Nat) :
    Compares [⟨k, .fetch⟩] ([⟨k₀, .fetch⟩, ⟨k', .stored line⟩] ++
      Machine.momentsAfter n ((Machine.runLine line).run k')) := by
  have hend : k'.memory.nextLine k'.control.next = .error .noNewline := by
    rw [← List.append_nil (p ++ t ++ [Memory.newline])] at hends
    have hnone := hends.drop.nextLine_nil
    rw [List.length_append, List.length_singleton, ← Nat.add_assoc] at hnone
    rw [hnext, hnone]
  have hexecuted : executed ([⟨k₀, .fetch⟩, ⟨k', .stored line⟩] ++
      Machine.momentsAfter n ((Machine.runLine line).run k')) =
      (Act.stored line).executed?.toList ++
        executed (Machine.momentsAfter n ((Machine.runLine line).run k')) := by
    rw [List.cons_append, List.cons_append, executed_cons, executed_cons]
    rfl
  by_cases hcommand : ∃ tokens, Token.parse line = .ok tokens ∧ (Command.commandOf? tokens).isSome = true
  · -- The first side has left out this command and no other.
    obtain ⟨tokens, hparse, hsome⟩ := hcommand
    have hout : Moment.LeavesOut ⟨k, .fetch⟩ tokens := ⟨rfl, line, hfound, hparse, hsome⟩
    have hact : (Act.stored line).executed? = some tokens := by
      rw [Act.executed?, Act.tokens?, hparse]
      exact Option.filter_some.trans (if_pos hsome)
    rw [hact] at hexecuted
    apply Compares.more (List.mem_singleton.mpr rfl) hout _ hexecuted
    rintro q hq other ⟨-, line', hline', hother, -⟩
    obtain rfl := List.mem_singleton.mp hq
    obtain rfl : line = line' := Option.some.inj (hfound.symm.trans hline')
    exact (Except.ok.inj (hparse.symm.trans hother)).symm
  · have hnone : ∀ tokens, Token.parse line = .ok tokens → Command.commandOf? tokens = none := by
      intro tokens hparse
      by_contra hsome
      exact hcommand ⟨tokens, hparse, Option.isSome_iff_ne_none.mpr hsome⟩
    apply Compares.same
    · rw [hexecuted, executed_behind_commandless hnone hpending hqueue hrunning hoff hend,
        List.append_nil, executed_fetch, Act.executed?, Act.tokens?]
      cases hparse : Token.parse line with
      | error e => rfl
      | ok tokens => simp [Except.toOption, hnone tokens hparse]
    · rintro q hq tokens ⟨-, line', hline', hparse, hsome⟩
      obtain rfl := List.mem_singleton.mp hq
      obtain rfl : line = line' := Option.some.inj (hfound.symm.trans hline')
      exact hcommand ⟨tokens, hparse, hsome⟩

theorem Paired.cons {p t : List UInt8} {l l' : List Moment} {r r' : Except Fault Unit × Machine}
    (h : Paired p t l l' r r') {act : Act} (hact : act ≠ .fetch) (k k' : Machine) :
    Paired p t (⟨k, act⟩ :: l) (⟨k', act⟩ :: l') r r' := by
  have hexecuted : executed [⟨k', act⟩] = executed [⟨k, act⟩] := rfl
  have hnone : ∀ q ∈ [(⟨k, act⟩ : Moment)], ∀ tokens, ¬q.LeavesOut tokens := by
    intro q hq
    obtain rfl := List.mem_singleton.mp hq
    exact not_leavesOut hact
  cases h with
  | step executed none result twin =>
    apply Paired.step _ _ result twin
    · rw [executed_cons, executed_cons, executed]
    · exact List.forall_mem_cons.mpr ⟨hnone _ (List.mem_singleton.mpr rfl), none⟩
  | stop finished rest => exact .stop finished fun n => Compares.append hexecuted hnone (rest n)

section Pieces

variable {p t : List UInt8} {k k' : Machine} (ht : Memory.newline ∉ t)
  (hp : p = [] ∨ p.getLast? = some Memory.newline) (h : Twin p t k k')
include ht hp h

theorem Twin.goesOn_queued {line : Text} {rest : List Text} (queue : k.queue = line :: rest)
    (hblind : ∀ tokens ∈ (Act.queued line).tokens?, Blind tokens) :
    ∃ l' r', GoesOn k' l' r' ∧ Paired p t [⟨{ k with queue := rest }, .queued line⟩] l'
      ((Machine.runQueued line).run { k with queue := rest }) r' := by
  have hlast := h.getLast?_of_busy hp (.inr (.inl (by simp [queue])))
  have halong : Alongside (Unended p t) { k with queue := rest } { k' with queue := rest } := by
    obtain ⟨core, printed, logged, hcore, rfl⟩ := h.along
    exact ⟨core, printed, logged, hcore, rfl⟩
  have hexecute := Twin.execute ht hlast (.queued line) (by simp) hblind halong h.noPrompt
  refine ⟨_, _, .queued (h.queue.trans queue), .step ?_ ?_ hexecute.1 hexecute.2⟩
  · rfl
  · intro q hq
    obtain rfl := List.mem_singleton.mp hq
    exact not_leavesOut (by simp)

/-- A line that the first side finds is complete, and the second side finds it too. -/
theorem Twin.goesOn_stored {line : Text} {k₁ : Machine} (queue : k.queue = []) (running : k.running = true)
    (found : Machine.nextProgramLine.run k = (.ok (some line), k₁))
    (hblind : ∀ tokens ∈ (Act.stored line).tokens?, Blind tokens) :
    ∃ l' r', GoesOn k' l' r' ∧ Paired p t [⟨k, .fetch⟩, ⟨k₁, .stored line⟩] l'
      ((Machine.runLine line).run k₁) r' := by
  cases Unended.fetches h.along ht with
  | @same line' _ k₁' left right along start ended =>
    obtain ⟨heq, rfl⟩ := Prod.mk.inj (found.symm.trans left)
    obtain rfl : line = line' := Option.some.inj (Except.ok.inj heq)
    have hlast := h.getLast?_of_busy hp (.inr (.inr start))
    have hoff : k₁.debugger.promptOnExit = false := by
      have hkept := (Frame.turning_ending.aside.nextProgramLine k).1
      rw [found] at hkept
      exact hkept.trans h.noPrompt
    have hexecute := Twin.execute ht hlast (.stored line) (by simp) hblind along hoff
    refine ⟨_, _, .stored (h.queue.trans queue) (h.running.trans running) right,
      .step ?_ ?_ hexecute.1 hexecute.2⟩
    · rfl
    · intro q hq
      rcases List.mem_cons.mp hq with rfl | hq
      · exact not_leavesOut_of_none ended
      · obtain rfl := List.mem_singleton.mp hq
        exact not_leavesOut (by simp)
  | last left => simp [found] at left
  | none left => simp [found] at left

omit hp in
/-- Where the first side finds its end, the second side finds the last line or its end too. -/
theorem Twin.goesOn_ended {k₁ : Machine} (hpending : k.control.pending = none) (queue : k.queue = [])
    (running : k.running = true) (found : Machine.nextProgramLine.run k = (.ok none, k₁)) :
    ∃ l' r', GoesOn k' l' r' ∧ Paired p t [⟨k, .fetch⟩] l'
      (Debugger.onExit.run { k₁ with running := false }) r' := by
  have hfinished := Machine.finished_of_end h.noPrompt found
  have hoff : k'.debugger.promptOnExit = false := by
    obtain ⟨core, printed, logged, -, rfl⟩ := h.along
    exact h.noPrompt
  cases Unended.fetches h.along ht with
  | same left => simp [found] at left
  | last left right after unended =>
    refine ⟨_, _, .stored (h.queue.trans queue) (h.running.trans running) right, .stop hfinished ?_⟩
    intro n
    have hpending' : k'.control.pending = none := (congrArg Control.pending h.control).trans hpending
    subst after
    exact @compares_last p t k { k' with control := { k'.control with
      counter := k'.control.next, next := (32768 + (p ++ t).length + 1 : Nat) } } _
      h.along.core.memory.right hpending' (h.queue.trans queue) (h.running.trans running) hoff rfl unended k' n
  | none left right unended =>
    refine ⟨_, _, .ended (h.queue.trans queue) (h.running.trans running) right, .stop hfinished ?_⟩
    intro n
    rw [Machine.momentsAfter_of_finished (Machine.finished_of_end hoff right), List.append_nil]
    apply Compares.same
    · rfl
    · intro q hq
      obtain rfl := List.mem_singleton.mp hq
      exact not_leavesOut_of_none unended

theorem Twin.goesOn (hpending : k.control.pending = none) {l : List Moment}
    {r : Except Fault Unit × Machine} (hgoes : GoesOn k l r)
    (hblind : ∀ q ∈ l, ∀ tokens ∈ q.act.tokens?, Blind tokens) :
    ∃ l' r', GoesOn k' l' r' ∧ Paired p t l l' r r' := by
  cases hgoes with
  | @queued line rest queue => exact h.goesOn_queued ht hp queue (hblind _ (List.mem_singleton.mpr rfl))
  | stopped queue running =>
    exact ⟨_, _, .stopped (h.queue.trans queue) (h.running.trans running), .step rfl (by simp) rfl h⟩
  | @stored line k₁ queue running found =>
    exact h.goesOn_stored ht hp queue running found (hblind ⟨k₁, .stored line⟩ (by simp))
  | @ended k₁ queue running found => exact h.goesOn_ended ht hpending queue running found
  | unread queue running fault =>
    -- Looking for a line never fails, as a line is read from any address.
    cases Unended.fetches h.along ht with
    | same left => simp [fault] at left
    | last left => simp [fault] at left
    | none left => simp [fault] at left

end Pieces

/-- A turn on both sides. -/
theorem Twin.turn {p t : List UInt8} (ht : Memory.newline ∉ t)
    (hp : p = [] ∨ p.getLast? = some Memory.newline) {m n : Machine} (h : Twin p t m n)
    (hblind : ∀ q ∈ Recording.turn.moments m, ∀ tokens ∈ q.act.tokens?, Blind tokens) :
    Paired p t (Recording.turn.moments m) (Recording.turn.moments n) (Machine.turn.run m)
      (Machine.turn.run n) := by
  have hgoes := Recording.goes m
  generalize Recording.turn.moments m = l at hgoes hblind ⊢
  generalize Machine.turn.run m = r at hgoes ⊢
  have hlast {tokens : List Token} (hpending : m.control.pending = some tokens) :
      p.getLast? = some Memory.newline := h.getLast?_of_busy hp (.inl (by simp [hpending]))
  have pending' {waiting : Option (List Token)} (hpending : m.control.pending = waiting) :
      n.control.pending = waiting := (congrArg Control.pending h.control).trans hpending
  cases hgoes with
  | free pending rest =>
    obtain ⟨l', r', hgoes, hpaired⟩ := h.goesOn ht hp pending rest hblind
    obtain ⟨hmoments, hturn⟩ := (Goes.free (pending' pending) hgoes).turn
    rwa [hmoments, hturn]
  | @failed tokens k e pending fault =>
    have hexecute := Twin.execute ht (hlast pending) (.pending tokens) (by simp)
      (fun tokens => hblind _ (List.mem_singleton.mpr rfl) tokens) h.along h.noPrompt
    rcases hrun : (Machine.runTokens tokens).run n with ⟨r', k'⟩
    simp only [Act.execute, fault, hrun] at hexecute
    obtain ⟨rfl, htwin⟩ := hexecute
    obtain ⟨hmoments, hturn⟩ := (Goes.failed (pending' pending) hrun).turn
    rw [hmoments, hturn]
    have hpaired : Paired p t [] [] (.error e, k) (.error e, k') := .step rfl (by simp) rfl htwin
    exact hpaired.cons (by simp) m n
  | @done tokens k l r pending run rest =>
    rw [List.forall_mem_cons] at hblind
    have hexecute := Twin.execute ht (hlast pending) (.pending tokens) (by simp) hblind.1 h.along
      h.noPrompt
    rcases hrun : (Machine.runTokens tokens).run n with ⟨r', k'⟩
    simp only [Act.execute, run, hrun] at hexecute
    obtain ⟨rfl, htwin⟩ := hexecute
    obtain ⟨l', r', hgoes, hpaired⟩ := htwin.cleared.goesOn ht hp rfl rest hblind.2
    obtain ⟨hmoments, hturn⟩ := (Goes.done (pending' pending) hrun hgoes).turn
    rw [hmoments, hturn]
    exact hpaired.cons (by simp) m n

/-- Whole runs on both sides. -/
theorem Twin.compares {p t : List UInt8} (ht : Memory.newline ∉ t)
    (hp : p = [] ∨ p.getLast? = some Memory.newline) {m n : Machine} (h : Twin p t m n) {limit : Nat}
    (hblind : ∀ q ∈ m.moments limit, ∀ tokens ∈ q.act.tokens?, Blind tokens) :
    Compares (m.moments limit) (n.moments limit) := by
  induction limit generalizing m n with
  | zero => exact .nil
  | succ limit ih =>
    cases hdone : m.isDone with
    | true =>
      rw [Machine.moments_of_done hdone, Machine.moments_of_done (h.isDone.trans hdone)]
      exact .nil
    | false =>
      have hleft := m.moments_succ limit
      have hright := n.moments_succ limit
      rw [hdone, if_neg (by simp)] at hleft
      rw [h.isDone, hdone, if_neg (by simp)] at hright
      rw [hleft] at hblind ⊢
      rw [hright]
      cases h.turn ht hp fun q hq => hblind q (List.mem_append_left _ hq) with
      | stop finished rest =>
        rw [Machine.momentsAfter_of_finished finished, List.append_nil]
        exact rest limit
      | step executed none result twin =>
        apply Compares.append executed none
        have hlater := fun q hq => hblind q (List.mem_append_right _ hq)
        rcases hrun : Machine.turn.run m with ⟨r, m'⟩
        rcases hrun' : Machine.turn.run n with ⟨r', n'⟩
        rw [hrun, hrun'] at result twin
        rw [hrun] at hlater
        obtain rfl : r' = r := result
        cases r' with
        | error e => exact .nil
        | ok u =>
          simp only [Machine.momentsAfter, twin.isDone, twin.isIdle] at hlater ⊢
          split
          · exact .nil
          · next hgoing =>
            rw [if_neg hgoing] at hlater
            exact ih twin hlater

end BasicMachine
