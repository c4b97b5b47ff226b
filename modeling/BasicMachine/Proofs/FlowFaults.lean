import BasicMachine.Proofs.ArgumentReading
import BasicMachine.Proofs.CountedLoops
import BasicMachine.Proofs.Subroutines

/-! Commands for the flow of a program that fail. Most of them read all their arguments before they change
anything, so a fault leaves the flow and the memory as they were. `GOSUB` saves the return address before
it reads its target, and `NEXT` takes its loop on before it sets the variable. `NEXT` without a loop and
`RETURN` without a call change nothing themselves, but hand the machine over to the debugger. -/
namespace BasicMachine

open Run (Keeps)
open Machine (numericName)

/-- What the commands for the flow of a program change is the same, and so is the memory. -/
structure SameFlow (m n : Machine) : Prop where
  next : n.control.next = m.control.next
  gosubStack : n.control.gosubStack = m.control.gosubStack
  doStack : n.control.doStack = m.control.doStack
  loops : n.control.loops = m.control.loops
  memory : n.memory = m.memory

namespace SameFlow

variable {m n k : Machine}

theorem of_eq (hcontrol : n.control = m.control) (hmemory : n.memory = m.memory) : SameFlow m n := by
  constructor <;> simp [hcontrol, hmemory]

protected theorem refl (m : Machine) : SameFlow m m := of_eq rfl rfl

protected theorem trans (h : SameFlow m n) (h' : SameFlow n k) : SameFlow m k where
  next := h'.next.trans h.next
  gosubStack := h'.gosubStack.trans h.gosubStack
  doStack := h'.doStack.trans h.doStack
  loops := h'.loops.trans h.loops
  memory := h'.memory.trans h.memory

end SameFlow

/-- The flow stays as it is. -/
def Frame.flow : Frame Machine where
  allows := SameFlow
  refl := SameFlow.refl
  trans := SameFlow.trans

namespace Command

open Call

variable {α β : Type}

/-- If the step fails, the flow is as it was before it. -/
def FailsInPlace (x : Run Call α) : Prop :=
  ∀ c e c', 17664 ≤ c.machine.memory.size → x.run c = (.error e, c') → SameFlow c.machine c'.machine

namespace FailsInPlace

theorem of_ok {x : Run Call α} (h : ∀ c, ∃ a c', x.run c = (.ok a, c')) : FailsInPlace x := by
  intro c e c' _ hrun
  obtain ⟨a, d, hok⟩ := h c
  rw [hok] at hrun
  cases hrun

theorem throw (e : Fault) : FailsInPlace (throw e : Run Call α) := by
  intro c e' c' _ hrun
  cases hrun
  exact .refl c.machine

theorem ite {x y : Run Call α} (p : Prop) [Decidable p] (hx : FailsInPlace x) (hy : FailsInPlace y) :
    FailsInPlace (if p then x else y) := by
  split
  · exact hx
  · exact hy

theorem after {x : Run Call α} {f : α → Run Call β} (hx : Keeps Frame.flow.call x)
    (hf : ∀ a, FailsInPlace (f a)) : FailsInPlace (x >>= f) := by
  intro c e c' hsize hrun
  have hkept := hx c
  rcases hfirst : x.run c with ⟨r, d⟩
  rw [hfirst] at hkept
  cases r with
  | error e' =>
    rw [Run.run_bind_error hfirst] at hrun
    cases hrun
    exact hkept
  | ok a =>
    rw [Run.run_bind_ok hfirst] at hrun
    have hmemory : d.machine.memory = c.machine.memory := hkept.memory
    exact hkept.trans (hf a d e c' (by rw [hmemory]; exact hsize) hrun)

theorem before {x : Run Call α} {f : α → Run Call β} (hx : FailsInPlace x)
    (hf : ∀ a c, ∃ b c', (f a).run c = (.ok b, c')) : FailsInPlace (x >>= f) := by
  intro c e c' hsize hrun
  rcases hfirst : x.run c with ⟨r, d⟩
  cases r with
  | error e' =>
    rw [Run.run_bind_error hfirst] at hrun
    cases hrun
    exact hx c _ _ hsize hfirst
  | ok a =>
    obtain ⟨b, d', hok⟩ := hf a d
    rw [Run.run_bind_ok hfirst, hok] at hrun
    cases hrun

end FailsInPlace

theorem failsInPlace_setNumeric (name : Text) (v : Int) :
    FailsInPlace (liftM (Machine.setNumeric name v) : Routine) := by
  intro c e c' hsize hrun
  cases hname : numericAddress name with
  | error e' =>
    obtain ⟨console, hset⟩ := Machine.run_setNumeric_unnamed hname v c.machine
    rw [Call.run_liftM, hset] at hrun
    cases hrun
    exact .of_eq rfl rfl
  | ok a =>
    obtain ⟨i, rfl⟩ := exists_wordStart hname
    obtain ⟨console, hset⟩ := Machine.run_setNumeric hsize hname v
    rw [Call.run_liftM, hset] at hrun
    cases hrun

theorem failsInPlace_runGoto : FailsInPlace runGoto :=
  .after (keeps_nextAs _) fun _ => .of_ok fun _ => ⟨(), _, rfl⟩

theorem failsInPlace_runFor : FailsInPlace runFor := by
  rw [runFor_eq]
  exact .after keeps_forRange fun r => (failsInPlace_setNumeric _ _).before fun _ _ => ⟨(), _, rfl⟩

theorem failsInPlace_runDo : FailsInPlace runDo := .of_ok fun _ => ⟨(), _, rfl⟩

theorem failsInPlace_runLoop : FailsInPlace runLoop := by
  refine .after (keeps_nextWordOf _) fun kind => .ite _ (.after keeps_condition fun again => ?_)
    (.ite _ (.after (.map _ keeps_condition) fun again => ?_) (.after (.pure true) fun again => ?_))
  all_goals
    refine .after keeps_control fun d => ?_
    cases d.doStack with
    | nil => exact .throw _
    | cons start rest => exact .of_ok fun c => by cases again <;> exact ⟨(), _, rfl⟩

variable {c c' : Call} {e : Fault}

/-- A call that fails has saved its return address, unless there is no line to come back to. -/
theorem sameFlow_runGosub_iff (h : runGosub.run c = (.error e, c')) :
    SameFlow c.machine c'.machine ↔
      ¬∃ a, c.machine.memory.nextLine c.machine.control.counter = .ok a := by
  cases hline : c.machine.memory.nextLine c.machine.control.counter with
  | error e' =>
    have hrun : runGosub.run c = (.error e', c) := by simp [runGosub, Run.run_bind, hline]
    rw [hrun] at h
    cases h
    exact iff_of_true (.refl _) (by simp)
  | ok a =>
    have hstack := gosubStack_runGosub c
    rw [h, hline] at hstack
    refine iff_of_false (fun hsame => ?_) (by simp)
    exact List.cons_ne_self _ _ (hstack.symm.trans hsame.gosubStack)

/-- `NEXT` takes on the loop of a name that is no variable before it fails. -/
theorem loops_runNext_unnamed (h : Hooks) {name : Text} {l : ForLoop}
    (hname : c.args.numericVar? = some name) (hunnamed : ∀ i, name ≠ numericName i)
    (hloop : c.machine.control.loops.lookup name = some l) :
    ((runNext h).run c).2.machine.control.loops =
      setNamed name l.increment c.machine.control.loops := by
  cases haddress : numericAddress name with
  | ok a =>
    obtain ⟨i, hi⟩ := Machine.exists_numericName haddress
    exact absurd hi (hunnamed i)
  | error e =>
    let args : Arguments := { c.args with index := c.args.index + 1 }
    let counted : Machine := { c.machine with control := { c.machine.control with
      loops := setNamed name l.increment c.machine.control.loops } }
    obtain ⟨console, hset⟩ := Machine.run_setNumeric_unnamed haddress l.increment.state counted
    have hlook : control.run ⟨c.machine, args⟩ = (.ok c.machine.control, ⟨c.machine, args⟩) := rfl
    have hcount : (changeControl fun d => { d with loops := setNamed name l.increment d.loops }).run
        ⟨c.machine, args⟩ = (.ok (), ⟨counted, args⟩) := rfl
    have hassign : (liftM (Machine.setNumeric name l.increment.state) : Routine).run ⟨counted, args⟩ =
        (.error e, ⟨{ counted with console }, args⟩) := by
      rw [Call.run_liftM, hset]
    rw [runNext, Run.run_bind_ok (run_nextNumericVar hname), Run.run_bind_ok hlook, hloop]
    dsimp only
    rw [Run.run_bind_ok hcount, Run.run_bind_error hassign]

theorem setNamed_increment_ne {name : Text} {l : ForLoop} {loops : List (Text × ForLoop)}
    (h : loops.lookup name = some l) : setNamed name l.increment loops ≠ loops := by
  intro heq
  have hlookup := lookup_setNamed name l.increment loops name
  rw [heq, h, if_pos rfl, Option.some.injEq] at hlookup
  have hstate := congrArg ForLoop.state hlookup
  simp [ForLoop.increment] at hstate

/-- A `NEXT` that fails by itself has changed the flow only if its loop is that of no variable. -/
theorem sameFlow_runNext_iff (hsize : 17664 ≤ c.machine.memory.size)
    (hloops : ∀ name, c.args.numericVar? = some name → (c.machine.control.loops.lookup name).isSome)
    (h : (runNext Debugger.hooks).run c = (.error e, c')) :
    SameFlow c.machine c'.machine ↔
      ¬∃ name, c.args.numericVar? = some name ∧ ∀ i, name ≠ numericName i := by
  cases hname : c.args.numericVar? with
  | none =>
    have hread : SameFlow c.machine ((runNext Debugger.hooks).run c).2.machine :=
      allows_nextNumericVar_bind (F := Frame.flow) fun name hsome => by simp [hname] at hsome
    rw [h] at hread
    exact iff_of_true hread (by simp)
  | some name =>
    obtain ⟨l, hloop⟩ := Option.isSome_iff_exists.mp (hloops name hname)
    by_cases hnamed : ∃ i, name = numericName i
    · obtain ⟨i, rfl⟩ := hnamed
      obtain ⟨d, hok, -⟩ := run_runNext_open Debugger.hooks hsize hname hloop
      rw [hok] at h
      cases h
    · have hunnamed := not_exists.mp hnamed
      have hchanged := loops_runNext_unnamed Debugger.hooks hname hunnamed hloop
      rw [h] at hchanged
      refine iff_of_false (fun hsame => ?_) (not_not.mpr ⟨name, rfl, hunnamed⟩)
      exact setNamed_increment_ne hloop (hchanged.symm.trans hsame.loops)

end Command

namespace Frame

/-- As long as nothing that is typed at the prompt runs a command, the course of the program and the memory
stay as they are. -/
def idle : Frame Machine := observing (Machine.Types fun _ => False) fun m => (m.control, m.memory)

theorem still_idle : idle.Still := by
  intro m n hbeside hcontrol hinput hm
  have hmemory : n.memory = m.memory := by rw [hbeside.same]
  exact ⟨hm.of_input hinput, Prod.ext hcontrol hmemory⟩

theorem leaves_idle : idle.Leaves := ⟨still_idle, fun _ h => ⟨h, rfl⟩, fun _ h => ⟨h, rfl⟩⟩

end Frame

namespace Debugger

theorem keeps_prompt_idle (n : Nat) : Keeps Frame.idle (prompt n) := by
  refine keeps_prompt_observing (fun _ _ => rfl) Frame.leaves_idle (fun h _ line hrefused => ?_) n
  refine (Machine.keeps_report Frame.still_idle _ _ _).bind fun _ => ?_
  cases hparse : Token.parse line with
  | ok tokens => exact (hrefused tokens (by rw [hparse]; rfl)).elim
  | error e => exact .throw e

theorem sameFlow_complain {m : Machine} (h : m.Types fun _ => False) (kind t : Text) :
    SameFlow m ((hooks.complain kind t).run m).2 := by
  have hhooks := keep_hooks_of_prompt Frame.leaves_idle keeps_prompt_idle
  have hkept := ((Machine.keeps_reportError Frame.still_idle kind t).bind fun _ => hhooks.onBreak) m h
  exact .of_eq (congrArg Prod.fst hkept.2) (congrArg Prod.snd hkept.2)

end Debugger

namespace Command

def flowCommands : List Command := [.goto, .gosub, .forLoop, .next, .doLoop, .loop, .returnSub]

/-- What the command complains about when there is no loop to go on with or no call to return from. -/
def complaint? (call : Call) : Command → Option Text
  | .next => do
    let name ← call.args.numericVar?
    match call.machine.control.loops.lookup name with
    | some _ => none
    | none => some ("NEXT without FOR: ".toList ++ name)
  | .returnSub => if call.machine.control.gosubStack = [] then some "RETURN without GOSUB.".toList else none
  | _ => none

/-- The command changes the flow before it can fail. -/
def ChangesFirst (call : Call) : Command → Prop
  | .gosub => ∃ a, call.machine.memory.nextLine call.machine.control.counter = .ok a
  | .next => ∃ name, call.args.numericVar? = some name ∧ ∀ i, name ≠ numericName i
  | _ => False

/-- What has become of the flow when a command has failed. If it has complained, it is what the debugger
has made of it. Else it is the same, unless the command changes it first. -/
structure FlowAfterFault (c : Command) (call call' : Call) : Prop where
  silent : c.complaint? call = none → (SameFlow call.machine call'.machine ↔ ¬c.ChangesFirst call)
  complained : ∀ t ∈ c.complaint? call,
    call'.machine = ((Debugger.hooks.complain "COMMAND".toList t).run call.machine).2
  idle : c.complaint? call ≠ none → call.machine.Types (fun _ => False) →
    SameFlow call.machine call'.machine

theorem FlowAfterFault.of_silent {c : Command} {call call' : Call} (hsilent : c.complaint? call = none)
    (h : SameFlow call.machine call'.machine ↔ ¬c.ChangesFirst call) : FlowAfterFault c call call' :=
  ⟨fun _ => h, by simp [hsilent], fun hsome => absurd hsilent hsome⟩

theorem FlowAfterFault.of_complaint {c : Command} {call call' : Call} {t : Text}
    (hsome : c.complaint? call = some t)
    (h : call'.machine = ((Debugger.hooks.complain "COMMAND".toList t).run call.machine).2) :
    FlowAfterFault c call call' where
  silent := by simp [hsome]
  complained := by
    rintro t' ht
    rw [hsome] at ht
    cases ht
    exact h
  idle _ htypes := by
    rw [h]
    exact Debugger.sameFlow_complain htypes _ t

theorem FailsInPlace.flowAfterFault {c : Command} (hc : FailsInPlace (c.routine Debugger.hooks))
    {call call' : Call} {e : Fault} (hsize : 17664 ≤ call.machine.memory.size)
    (h : (c.routine Debugger.hooks).run call = (.error e, call')) (hsilent : c.complaint? call = none)
    (hlast : ¬c.ChangesFirst call) : FlowAfterFault c call call' :=
  .of_silent hsilent (iff_of_true (hc call e call' hsize h) hlast)

theorem flowAfterFault_next {call call' : Call} {e : Fault} (hsize : 17664 ≤ call.machine.memory.size)
    (h : (runNext Debugger.hooks).run call = (.error e, call')) : FlowAfterFault .next call call' := by
  cases hcomplaint : complaint? call .next with
  | none =>
    refine .of_silent hcomplaint (sameFlow_runNext_iff hsize (fun name hname => ?_) h)
    cases hloop : call.machine.control.loops.lookup name with
    | some l => rfl
    | none => simp [complaint?, hname, hloop] at hcomplaint
  | some t =>
    obtain ⟨name, hname, hloop, rfl⟩ : ∃ name, call.args.numericVar? = some name ∧
        call.machine.control.loops.lookup name = none ∧ t = "NEXT without FOR: ".toList ++ name := by
      obtain ⟨name, hname, hfound⟩ := Option.bind_eq_some_iff.mp hcomplaint
      cases hloop : call.machine.control.loops.lookup name with
      | some l => simp [hloop] at hfound
      | none => exact ⟨name, hname, hloop, by simpa [hloop] using hfound.symm⟩
    rw [run_runNext_closed Debugger.hooks hname hloop] at h
    exact .of_complaint hcomplaint (congrArg (fun r => r.2.machine) h).symm

theorem flowAfterFault_returnSub {call call' : Call} {e : Fault}
    (h : (runReturn Debugger.hooks).run call = (.error e, call')) :
    FlowAfterFault .returnSub call call' := by
  cases hstack : call.machine.control.gosubStack with
  | nil =>
    rw [run_runReturn_nil Debugger.hooks hstack] at h
    exact .of_complaint (by simp [complaint?, hstack]) (congrArg (fun r => r.2.machine) h).symm
  | cons a rest =>
    rw [run_runReturn_cons Debugger.hooks hstack] at h
    cases h

/-- A command for the flow that fails leaves the flow and the memory as they were, except for the address
that `GOSUB` has saved, the loop of no variable that `NEXT` has taken on, and what is run at the prompt
after a complaint. -/
theorem failing_command_flow (c : Command) (hc : c ∈ flowCommands) (call call' : Call) (e : Fault)
    (hsize : 17664 ≤ call.machine.memory.size)
    (h : (c.routine Debugger.hooks).run call = (.error e, call')) : FlowAfterFault c call call' := by
  simp only [flowCommands, List.mem_cons, List.not_mem_nil, or_false] at hc
  rcases hc with rfl | rfl | rfl | rfl | rfl | rfl | rfl
  · exact FailsInPlace.flowAfterFault (c := .goto) failsInPlace_runGoto hsize h rfl id
  · exact .of_silent rfl (sameFlow_runGosub_iff h)
  · exact FailsInPlace.flowAfterFault (c := .forLoop) failsInPlace_runFor hsize h rfl id
  · exact flowAfterFault_next hsize h
  · exact FailsInPlace.flowAfterFault (c := .doLoop) failsInPlace_runDo hsize h rfl id
  · exact FailsInPlace.flowAfterFault (c := .loop) failsInPlace_runLoop hsize h rfl id
  · exact flowAfterFault_returnSub h

/-- A machine in the first line of a program, with loops but without a call. -/
def inLoops : Machine :=
  { Machine.withProgram {} (CodePage.encode "A = 1\n".toList) with
    control := { counter := 32768, next := 32774, doStack := [40000], loops := [(['A'], ⟨1, 3, 32768⟩)] }
    console := { input := ["p".toList] } }

/-- `RETURN` fails at the prompt, which has no more to read. -/
theorem return_fails_in_place :
    returnSub ∈ flowCommands ∧ 17664 ≤ inLoops.memory.size ∧
      ((returnSub.routine Debugger.hooks).run ⟨inLoops, ⟨[], 0⟩⟩).1 = .error .endOfInput ∧
      returnSub.complaint? ⟨inLoops, ⟨[], 0⟩⟩ = some "RETURN without GOSUB.".toList ∧
      SameFlow inLoops ((returnSub.routine Debugger.hooks).run ⟨inLoops, ⟨[], 0⟩⟩).2.machine := by
  have hsize : 17664 ≤ inLoops.memory.size := by decide +kernel
  have hfails : ((returnSub.routine Debugger.hooks).run ⟨inLoops, ⟨[], 0⟩⟩).1 =
      .error .endOfInput := by decide +kernel
  have hflow := failing_command_flow .returnSub (by decide) ⟨inLoops, ⟨[], 0⟩⟩ _ .endOfInput hsize
    (Prod.ext hfails rfl)
  refine ⟨by decide, hsize, hfails, rfl, hflow.idle (by simp [complaint?, inLoops]) ?_⟩
  simp [Machine.Types, inLoops, Debugger.typedTokens]

/-- `GOSUB` to a label that does not exist leaves a return address behind. -/
theorem gosub_fails_after_saving :
    ((gosub.routine Debugger.hooks).run ⟨inLoops, ⟨[.word "NOWHERE".toList], 0⟩⟩).1 =
        .error (.undefinedLabel "NOWHERE".toList) ∧
      ¬SameFlow inLoops
        ((gosub.routine Debugger.hooks).run ⟨inLoops, ⟨[.word "NOWHERE".toList], 0⟩⟩).2.machine := by
  have hfails : (runGosub.run ⟨inLoops, ⟨[.word "NOWHERE".toList], 0⟩⟩).1 =
      .error (.undefinedLabel "NOWHERE".toList) := by decide +kernel
  have hline : inLoops.memory.nextLine inLoops.control.counter = .ok 32774 := by decide +kernel
  refine ⟨hfails, fun hsame => ?_⟩
  exact (sameFlow_runGosub_iff (Prod.ext hfails rfl)).mp hsame ⟨32774, hline⟩

end Command
end BasicMachine
