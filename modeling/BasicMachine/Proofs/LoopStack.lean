import BasicMachine.Program
import BasicMachine.Proofs.Argument

/-! Executions of `DO` and `LOOP`. A `DO` puts the address behind it on a stack, and every `LOOP` takes an
address off it, whether or not it goes back there. So the stack serves a loop that is passed once, and no
other: the execution of a loop goes as its conditions ask exactly if no `LOOP` in it asks to repeat. -/
namespace BasicMachine

def Comparison.symbol : Comparison → Text
  | equal => ['=']
  | greater => ['>']
  | less => ['<']
  | unequal => ['!']

/-- A comparison of two numbers, as it stands on a line. -/
structure Condition where
  left : Token
  comparison : Comparison
  right : Token

namespace Condition

def tokens (c : Condition) : List Token := [c.left, .symbol c.comparison.symbol, c.right]

def holds (c : Condition) (m : Machine) : Except Fault Bool := do
  let a ← c.left.toNumeric m
  let b ← c.right.toNumeric m
  return c.comparison.holds a b

/-- Wherever a condition stands on a line, reading it gives its value and changes nothing. If there is a
value, all of the condition is read. -/
theorem run_condition (c : Condition) (m : Machine) {ts : List Token} {k : Int}
    (hleft : Arguments.Has ts k c.left)
    (hsymbol : Arguments.Has ts (k + 1) (.symbol c.comparison.symbol))
    (hright : Arguments.Has ts (k + 1 + 1) c.right) :
    ∃ args, Call.condition.run ⟨m, ⟨ts, k⟩⟩ = (c.holds m, ⟨m, args⟩) ∧
      ∀ b, c.holds m = .ok b → args = ⟨ts, k + 1 + 1 + 1⟩ := by
  have hknown : c.comparison.symbol ∈ Comparison.symbols := by
    cases c.comparison <;> decide
  have hback : Comparison.ofSymbol c.comparison.symbol = c.comparison := by
    cases c.comparison <;> rfl
  simp only [Call.condition, Call.nextNumeric, Call.nextSymbolOf, Call.nextSymbol, Call.isOneOf,
    Run.run_bind, Call.run_nextAs _ hleft]
  cases hl : c.left.toNumeric m with
  | error e =>
    have hvalue : c.holds m = .error e := by simp [holds, hl, bind, Except.bind]
    rw [hvalue]
    exact ⟨⟨ts, k + 1⟩, rfl, by simp⟩
  | ok a =>
    simp only [Call.run_nextAs _ hsymbol, Token.toSymbol, List.contains_iff_mem, hknown, if_true,
      Run.run_pure, Call.run_nextAs _ hright]
    cases hr : c.right.toNumeric m with
    | error e =>
      have hvalue : c.holds m = .error e := by simp [holds, hl, hr, bind, Except.bind]
      rw [hvalue]
      exact ⟨⟨ts, k + 1 + 1 + 1⟩, rfl, by simp⟩
    | ok b =>
      have hvalue : c.holds m = .ok (c.comparison.holds a b) := by
        simp [holds, hl, hr, bind, Except.bind, pure, Except.pure]
      rw [hvalue, hback]
      exact ⟨⟨ts, k + 1 + 1 + 1⟩, rfl, by simp⟩

end Condition

def doLine : List Token := [.word "DO".toList]

/-- The kinds of `LOOP`. -/
inductive LoopLine where
  | whileTrue (c : Condition)
  | untilTrue (c : Condition)
  | endless

namespace LoopLine

def tokens : LoopLine → List Token
  | whileTrue c => .word "LOOP".toList :: .word "WHILE".toList :: c.tokens
  | untilTrue c => .word "LOOP".toList :: .word "UNTIL".toList :: c.tokens
  | endless => [.word "LOOP".toList, .word "ENDLESS".toList]

/-- Whether the line asks for another pass. -/
def asks (m : Machine) : LoopLine → Except Fault Bool
  | whileTrue c => c.holds m
  | untilTrue c => (! ·) <$> c.holds m
  | endless => .ok true

/-- The word that tells the kind. -/
def kind : LoopLine → Text
  | whileTrue _ => "WHILE".toList
  | untilTrue _ => "UNTIL".toList
  | endless => "ENDLESS".toList

private theorem ite_bind_ite {α β σ : Type} (p q : Prop) [Decidable p] [Decidable q]
    (x y z : Run σ α) (f : α → Run σ β) :
    (if p then x >>= f else if q then y >>= f else z >>= f) =
      (if p then x else if q then y else z) >>= f := by
  split
  · rfl
  · split <;> rfl

/-- How `LOOP` finds out whether to go on. -/
theorem run_asks (l : LoopLine) (m : Machine) :
    ∃ args, (if l.kind = "WHILE".toList then Call.condition
      else if l.kind = "UNTIL".toList then (! ·) <$> Call.condition
      else pure true : Run Call Bool).run ⟨m, ⟨l.tokens, 2⟩⟩ = (l.asks m, ⟨m, args⟩) := by
  cases l with
  | whileTrue c =>
    have hcondition := @Condition.run_condition c m (whileTrue c).tokens 2
      ⟨by decide, by decide, rfl⟩ ⟨by decide, by decide, rfl⟩ ⟨by decide, by decide, rfl⟩
    obtain ⟨args, hrun, -⟩ := hcondition
    exact ⟨args, hrun⟩
  | untilTrue c =>
    have hcondition := @Condition.run_condition c m (untilTrue c).tokens 2
      ⟨by decide, by decide, rfl⟩ ⟨by decide, by decide, rfl⟩ ⟨by decide, by decide, rfl⟩
    obtain ⟨args, hrun, -⟩ := hcondition
    have hkind : (untilTrue c).kind = "UNTIL".toList := rfl
    refine ⟨args, ?_⟩
    rw [hkind, if_neg (by decide), if_pos rfl, Run.run_map, hrun, asks]
    cases c.holds m <;> rfl
  | endless => exact ⟨⟨endless.tokens, 2⟩, rfl⟩

/-- What `LOOP` does once its condition is read. -/
def popped (again : Bool) (m : Machine) : Except Fault Unit × Machine :=
  match m.control.doStack with
  | [] => (.error .emptyStack, m)
  | start :: rest => (.ok (), { m with control := { m.control with
      doStack := rest, next := if again then start else m.control.next } })

/-- A `LOOP` whose condition can be read goes on by its answer, and changes nothing if it cannot. -/
theorem run_loopLine (l : LoopLine) (m : Machine) :
    (Machine.runTokens l.tokens).run m =
      match l.asks m with
      | .ok again => popped again m
      | .error e => (.error e, m) := by
  obtain ⟨ts, hline⟩ : ∃ ts, l.tokens = .word "LOOP".toList :: ts := by cases l <;> exact ⟨_, rfl⟩
  have hkind : Arguments.Has l.tokens 1 (.word l.kind) := by
    cases l <;> exact ⟨by decide, by decide, rfl⟩
  have hupper : upper l.kind = l.kind := by
    cases l <;> rfl
  have hknown : ["WHILE".toList, "UNTIL".toList, "ENDLESS".toList].contains l.kind = true := by
    cases l <;> rfl
  have hword : (Call.nextWordOf ["WHILE".toList, "UNTIL".toList, "ENDLESS".toList]).run
      ⟨m, ⟨l.tokens, 1⟩⟩ = (.ok l.kind, ⟨m, ⟨l.tokens, 2⟩⟩) := by
    rw [Call.nextWordOf, Run.run_bind, Call.nextWord, Call.run_nextAs _ hkind, Token.toWord, hupper]
    dsimp only
    rw [Call.isOneOf, if_pos hknown]
    rfl
  obtain ⟨args, hasks⟩ := l.run_asks m
  have hloop : Command.runLoop.run ⟨m, ⟨l.tokens, 1⟩⟩ = match l.asks m with
      | .ok again => ((popped again m).1, ⟨(popped again m).2, args⟩)
      | .error e => (.error e, ⟨m, args⟩) := by
    rw [Command.runLoop, Run.run_bind_ok hword, ite_bind_ite, Run.run_bind, hasks]
    cases l.asks m with
    | error e => rfl
    | ok again =>
      simp only [Command.control, popped, Run.run_bind, Run.run_get, Run.run_pure]
      cases hstack : m.control.doStack with
      | nil => rfl
      | cons start rest => cases again <;> rfl
  have hrun : (Command.dispatch Debugger.hooks).run ⟨m, ⟨l.tokens, 0⟩⟩ =
      Command.runLoop.run ⟨m, ⟨l.tokens, 1⟩⟩ := by
    rw [hline, Command.run_dispatch_word]
    rfl
  rw [hloop] at hrun
  rw [Machine.runTokens, Command.runTokens, Command.run_withArguments hrun]
  cases l.asks m <;> rfl

end LoopLine

theorem run_doLine (m : Machine) :
    (Machine.runTokens doLine).run m = (.ok (), { m with control := { m.control with
      doStack := m.control.next :: m.control.doStack } }) := rfl

/-- What a body does between its loops: anything that leaves the stack alone. -/
structure Work where
  apply : Machine → Machine
  keeps : ∀ m, (apply m).control.doStack = m.control.doStack

/-- A step of an execution. A `LOOP` comes with the answer of its condition. -/
inductive LoopStep where
  | work (w : Work)
  | enter
  | leave (l : LoopLine) (again : Bool)

namespace LoopStep

def action : LoopStep → Action Unit
  | work w => modify w.apply
  | enter => Machine.runTokens doLine
  | leave l _ => Machine.runTokens l.tokens

def isRepeat : LoopStep → Bool
  | leave _ again => again
  | _ => false

/-- The condition gives the answer of the step. -/
def Answers (m : Machine) : LoopStep → Prop
  | leave l again => l.asks m = .ok again
  | _ => True

instance (m : Machine) : (s : LoopStep) → Decidable (s.Answers m)
  | work _ => isTrue trivial
  | enter => isTrue trivial
  | leave l again => inferInstanceAs (Decidable (l.asks m = .ok again))

end LoopStep

open LoopStep

/-- As long as the steps can be run, the conditions give the answers of the steps. -/
def AnswersAlong : List LoopStep → Machine → Prop
  | [], _ => True
  | s :: rest, m => s.Answers m ∧
      match s.action.run m with
      | (.ok _, m') => AnswersAlong rest m'
      | (.error _, _) => True

namespace AnswersAlong

instance decidable : (steps : List LoopStep) → (m : Machine) → Decidable (AnswersAlong steps m)
  | [], _ => isTrue trivial
  | s :: rest, m =>
    have : Decidable (match s.action.run m with
        | (.ok _, m') => AnswersAlong rest m'
        | (.error _, _) => True) :=
      match s.action.run m with
      | (.ok _, m') => decidable rest m'
      | (.error _, _) => isTrue trivial
    inferInstanceAs (Decidable (_ ∧ _))

theorem tail {s : LoopStep} {rest : List LoopStep} {m m' : Machine}
    (h : AnswersAlong (s :: rest) m) (hrun : s.action.run m = (.ok (), m')) :
    AnswersAlong rest m' := by
  have hrest := h.2
  rwa [hrun] at hrest

end AnswersAlong

/-- The loops that are open after the steps, if `d` are open before them. A `LOOP` that repeats leaves its
loop open. -/
def depthAfter : Nat → List LoopStep → Option Nat
  | d, [] => some d
  | d, .work _ :: rest => depthAfter d rest
  | d, .enter :: rest => depthAfter (d + 1) rest
  | 0, .leave _ _ :: _ => none
  | d + 1, .leave _ true :: rest => depthAfter (d + 1) rest
  | d + 1, .leave _ false :: rest => depthAfter d rest

/-- One pass through a body, in which every loop that is begun comes to its end. -/
structure Body where
  steps : List LoopStep
  nested : depthAfter 0 steps = some 0

/-- A loop in which `LOOP` asks to repeat after each of the `earlier` passes and answers `again` after the
last one. -/
def doLoop (l : LoopLine) (earlier : List Body) (last : Body) (again : Bool) : List LoopStep :=
  .enter :: (earlier.flatMap fun b => b.steps ++ [.leave l true]) ++ last.steps ++ [.leave l again]

/-- Every step runs, a `LOOP` that asks to repeat goes to the line after its `DO`, another leaves the next
line alone, and at the end the stack holds the loops that are still open and what was `below` them.
`opened` are the lines after the `DO`s of the open loops, the innermost first. -/
def GoesAsAsked (below : List Int) : List Int → List LoopStep → Machine → Prop
  | opened, [], m => m.control.doStack = opened ++ below
  | opened, .work w :: rest, m => GoesAsAsked below opened rest (w.apply m)
  | opened, .enter :: rest, m => ∃ m', enter.action.run m = (.ok (), m') ∧
      GoesAsAsked below (m.control.next :: opened) rest m'
  | start :: opened, .leave l true :: rest, m => ∃ m',
      (leave l true).action.run m = (.ok (), m') ∧ m'.control.next = start ∧
        GoesAsAsked below (start :: opened) rest m'
  | _ :: opened, .leave l false :: rest, m => ∃ m',
      (leave l false).action.run m = (.ok (), m') ∧ m'.control.next = m.control.next ∧
        GoesAsAsked below opened rest m'
  | [], .leave _ _ :: _, _ => False

/-- A `LOOP` that runs takes one address off the stack, whatever it asks. -/
theorem length_doStack_leave {l : LoopLine} {again : Bool} {m m' : Machine}
    (h : (leave l again).action.run m = (.ok (), m')) :
    m.control.doStack.length = m'.control.doStack.length + 1 := by
  rw [action, LoopLine.run_loopLine] at h
  cases hasks : l.asks m with
  | error e => simp [hasks] at h
  | ok answer =>
    rw [hasks] at h
    cases hstack : m.control.doStack with
    | nil => simp [LoopLine.popped, hstack] at h
    | cons start rest =>
      simp only [LoopLine.popped, hstack, Prod.mk.injEq, true_and] at h
      simp [← h]

/-- Every repetition takes an address that its loop still needs: what goes as asked needs an address for
each open loop, and one more for each repetition to come. -/
theorem GoesAsAsked.length_doStack {below opened : List Int} {steps : List LoopStep} {m : Machine}
    (h : GoesAsAsked below opened steps m) :
    m.control.doStack.length = opened.length + below.length + steps.countP isRepeat := by
  fun_induction GoesAsAsked below opened steps m with
  | case1 opened m => simp [h]
  | case2 opened w rest m ih =>
    have hlength := ih h
    rw [w.keeps] at hlength
    simpa [List.countP_cons, isRepeat] using hlength
  | case3 opened rest m ih =>
    obtain ⟨m', hrun, hrest⟩ := h
    have hlength := ih m' hrest
    rw [action, run_doLine, Prod.mk.injEq] at hrun
    rw [← hrun.2] at hlength
    simp only [List.length_cons, List.countP_cons, isRepeat, Bool.false_eq_true, if_false] at hlength ⊢
    omega
  | case4 start opened l rest m ih =>
    obtain ⟨m', hrun, -, hrest⟩ := h
    have hlength := ih m' hrest
    have hpop := length_doStack_leave hrun
    simp only [List.length_cons, List.countP_cons, isRepeat, if_true] at hlength ⊢
    omega
  | case5 start opened l rest m ih =>
    obtain ⟨m', hrun, -, hrest⟩ := h
    have hlength := ih m' hrest
    have hpop := length_doStack_leave hrun
    simp only [List.length_cons, List.countP_cons, isRepeat, Bool.false_eq_true, if_false] at hlength ⊢
    omega
  | case6 => exact h.elim

/-- Without repetitions the stack always holds the open loops and what was below them. -/
theorem goesAsAsked_of_once {below opened : List Int} {steps : List LoopStep} {m : Machine} {d : Nat}
    (hdepth : depthAfter opened.length steps = some d) (honce : ∀ s ∈ steps, s.isRepeat = false)
    (hanswers : AnswersAlong steps m) (hstack : m.control.doStack = opened ++ below) :
    GoesAsAsked below opened steps m := by
  fun_induction GoesAsAsked below opened steps m with
  | case1 opened m => exact hstack
  | case2 opened w rest m ih =>
    have honce' := List.forall_mem_cons.mp honce
    exact ih hdepth honce'.2 (hanswers.tail rfl) (by rw [w.keeps, hstack])
  | case3 opened rest m ih =>
    have honce' := List.forall_mem_cons.mp honce
    refine ⟨_, run_doLine m, ih _ hdepth honce'.2 (hanswers.tail (run_doLine m)) ?_⟩
    simp [hstack]
  | case4 start opened l rest m ih => simp [isRepeat] at honce
  | case5 start opened l rest m ih =>
    have honce' := List.forall_mem_cons.mp honce
    have hrun : (leave l false).action.run m = (.ok (), { m with control := { m.control with
        doStack := opened ++ below } }) := by
      have hasks : l.asks m = .ok false := hanswers.1
      rw [action, LoopLine.run_loopLine, hasks]
      simp [LoopLine.popped, hstack]
    exact ⟨_, hrun, rfl, ih _ hdepth honce'.2 (hanswers.tail hrun) rfl⟩
  | case6 l again rest m => simp [depthAfter] at hdepth

theorem depthAfter_append {d e k : Nat} {steps : List LoopStep} (h : depthAfter d steps = some e)
    (rest : List LoopStep) : depthAfter (d + k) (steps ++ rest) = depthAfter (e + k) rest := by
  fun_induction depthAfter d steps with
  | case1 d =>
    obtain rfl := Option.some.inj h
    rfl
  | case2 d w steps ih => exact ih h
  | case3 d steps ih =>
    have hrest := ih h
    rw [Nat.add_right_comm] at hrest
    exact hrest
  | case4 => simp at h
  | case5 d l steps ih =>
    have hrest := ih h
    rw [Nat.succ_add] at hrest ⊢
    exact hrest
  | case6 d l steps ih =>
    rw [Nat.succ_add]
    exact ih h

/-- The execution of a loop goes as its conditions ask exactly if the loop and the loops in its body are
passed once each. -/
theorem goesAsAsked_iff_once (m : Machine) (l : LoopLine) (earlier : List Body) (last : Body)
    (again : Bool) (h : AnswersAlong (doLoop l earlier last again) m) :
    GoesAsAsked m.control.doStack [] (doLoop l earlier last again) m ↔
      earlier = [] ∧ again = false ∧ ∀ s ∈ last.steps, s.isRepeat = false := by
  constructor
  · intro hgoes
    have hlength := hgoes.length_doStack
    have hzero : (doLoop l earlier last again).countP isRepeat = 0 := by
      simp only [List.length_nil] at hlength
      omega
    have honce : ∀ s ∈ doLoop l earlier last again, s.isRepeat = false := by
      simpa using hzero
    refine ⟨?_, ?_, ?_⟩
    · cases earlier with
      | nil => rfl
      | cons b bs => simpa [isRepeat] using honce (.leave l true) (by simp [doLoop])
    · exact honce (.leave l again) (by simp [doLoop])
    · exact fun s hs => honce s (by simp [doLoop, hs])
  · rintro ⟨rfl, rfl, hlast⟩
    have hdepth : depthAfter 0 (doLoop l [] last false) = some 0 :=
      @depthAfter_append 0 0 1 _ last.nested [.leave l false]
    refine goesAsAsked_of_once hdepth ?_ h rfl
    intro s hs
    simp only [doLoop, List.flatMap_nil, List.cons_append, List.nil_append, List.mem_cons,
      List.mem_append, List.not_mem_nil, or_false] at hs
    rcases hs with rfl | hs | rfl
    · rfl
    · exact hlast s hs
    · rfl

/-- `A = 1`. -/
def Work.setFirst : Work where
  apply m := { m with memory := m.memory.write 16384 [1, 0] }
  keeps _ := rfl

def LoopLine.whileUnset : LoopLine := .whileTrue ⟨.numericVar ['A'], .equal, .number 0⟩

/-- A loop with one in its body: `DO`, `DO`, `LOOP UNTIL A = 0`, `A = 1` and `LOOP WHILE A = 0`. -/
def nestedOnce : List LoopStep :=
  doLoop .whileUnset [] ⟨[.enter, .leave (.untilTrue ⟨.numericVar ['A'], .equal, .number 0⟩) false,
    .work .setFirst], rfl⟩ false

theorem goesAsAsked_nestedOnce :
    AnswersAlong nestedOnce {} ∧ GoesAsAsked [] [] nestedOnce {} := by
  have hanswers : AnswersAlong nestedOnce {} := by decide +kernel
  exact ⟨hanswers, (goesAsAsked_iff_once {} _ [] _ false hanswers).mpr ⟨rfl, rfl, by decide⟩⟩

/-- `DO`, `LOOP WHILE A = 0`, `A = 1` and `LOOP WHILE A = 0`: the second pass finds the stack empty. -/
def twoPasses : List LoopStep := doLoop .whileUnset [⟨[], rfl⟩] ⟨[.work .setFirst], rfl⟩ false

theorem not_goesAsAsked_twoPasses :
    AnswersAlong twoPasses {} ∧ ¬GoesAsAsked [] [] twoPasses {} ∧
      ((twoPasses.forM LoopStep.action).run {}).1 = .error .emptyStack := by
  refine ⟨by decide +kernel, fun hgoes => ?_, by decide +kernel⟩
  exact absurd hgoes.length_doStack (by decide)

end BasicMachine
