import BasicMachine.Proofs.OutsideVariables
import BasicMachine.Proofs.Tracking
import BasicMachine.Proofs.VariableStore

/-! Counted loops. The count of a `FOR` loop is kept beside the memory, in an entry of its own that only `FOR`
and `NEXT` of the same variable touch. So the variable may be set at will, wrap around or start below zero,
and other loops may be run in between: the `k`-th `NEXT` still finds the count `k - 1` steps behind the start,
and the entry is gone after as many of them as the range has numbers, or after one if it has none. -/
namespace BasicMachine

open Run (Keeps Simulates)

namespace Command

open Call

/-- The variable and the first and the last count that the arguments of `FOR` give. -/
def forRange : Run Call (Text × Int × Int) := do
  let name ← nextNumericVar
  nextSymbolIs ['=']
  let first ← sum
  nextWordIs "TO".toList
  let last ← sum
  return (name, first, last)

/-- Sets the variable of a loop to its first count and notes where the body starts. -/
def openLoop (name : Text) (first last : Int) : Routine := do
  Machine.setNumeric name first
  changeControl fun c =>
    { c with loops := setNamed name { state := first, last := last, start := c.next } c.loops }

theorem runFor_eq : runFor = forRange >>= fun r => openLoop r.1 r.2.1 r.2.2 := by
  simp only [forRange, bind_assoc, pure_bind]
  rfl

theorem keeps_forRange {F : Frame Machine} : Keeps F.call forRange :=
  (keeps_nextAs _).bind fun _ => (keeps_nextSymbolIs _).bind fun _ => keeps_sum.bind fun _ =>
    (keeps_nextWordIs _).bind fun _ => keeps_sum.bind fun _ => .pure _

theorem simulates_forRange : Simulates (SameCall SameView) forRange forRange := by
  have hsum : Simulates (SameCall SameView) sum sum := simulates_sum fun _ _ h => h
  have hword (wanted : Text) :
      Simulates (SameCall SameView) (nextWordIs wanted) (nextWordIs wanted) :=
    (simulates_nextAs fun _ _ _ _ => rfl).bind fun _ => .ite _ (.pure _) (.throw _)
  exact (simulates_nextAs fun _ _ _ _ => rfl).bind fun _ => (simulates_nextSymbolIs _).bind fun _ =>
    hsum.bind fun _ => (hword _).bind fun _ => hsum.bind fun _ => .pure _

theorem run_forRange {m : Machine} {a : Arguments} {r : Text × Int × Int}
    (h : (forRange.run ⟨m, a⟩).1 = .ok r) (console : Console) :
    ∃ a', forRange.run ⟨{ m with console }, a⟩ = (.ok r, ⟨{ m with console }, a'⟩) := by
  have hview : SameView m { m with console } := ⟨rfl, rfl, rfl⟩
  obtain ⟨⟨n, a'⟩, hrun, -⟩ := simulates_forRange ⟨m, a⟩ ⟨{ m with console }, a⟩ ⟨rfl, hview⟩ r _
    (Prod.ext h rfl)
  have hsame : n = { m with console } := by
    have hkeeps := (@keeps_forRange ⟨fun k k' => k' = k, fun _ => rfl, fun h h' => h'.trans h⟩)
      ⟨{ m with console }, a⟩
    rw [hrun] at hkeeps
    exact hkeeps
  exact ⟨a', by rw [hrun, hsame]⟩

theorem run_nextNumericVar {c : Call} {name : Text} (h : c.args.numericVar? = some name) :
    nextNumericVar.run c =
      (.ok name, { c with args := { c.args with index := c.args.index + 1 } }) := by
  have hcurrent : c.args.current = .ok (some (.numericVar name)) := by
    unfold Arguments.numericVar? at h
    split at h
    · next hcurrent => rw [hcurrent, Option.some.inj h]
    · cases h
  simp [nextNumericVar, nextAs, nextToken, current, skip, changeIndex, Run.run_bind, hcurrent,
    Token.toNumericVar]

end Command

/-- The loop of the variable has gone on to a count: the variable holds it, and if it is past the last count
the loop is closed, else its body starts again. -/
structure LoopAdvances (name : Text) (count last start : Int) (m n : Machine) : Prop where
  value : n.numeric name = .ok (count % 65536).toNat
  next : n.control.next = if count ≤ last then start else m.control.next
  loop : n.control.loops.lookup name = if count ≤ last then some ⟨count, last, start⟩ else none
  others : ∀ other, other ≠ name → n.control.loops.lookup other = m.control.loops.lookup other

open Machine (numericName)

theorem Machine.run_setNumeric_numericName {m : Machine} (hsize : 17664 ≤ m.memory.size) (i : Fin 26)
    (v : Int) : ∃ n, (setNumeric (numericName i) v).run m = (.ok (), n) ∧
      n.numeric (numericName i) = .ok (v % 65536).toNat ∧ n.control = m.control := by
  obtain ⟨console, hset⟩ := run_setNumeric hsize (numericAddress_numericName i) v
  have hvalue := @numeric_of_bytes m hsize i (v % 65536) console
  rw [Int.emod_emod_of_dvd _ (Int.dvd_refl 65536)] at hvalue
  exact ⟨_, hset, hvalue, rfl⟩

namespace Command

variable {i : Fin 26}

/-- `NEXT` takes an open loop on by one. -/
theorem run_runNext_open (h : Hooks) {c : Call} {l : ForLoop} (hsize : 17664 ≤ c.machine.memory.size)
    (hname : c.args.numericVar? = some (numericName i))
    (hloop : c.machine.control.loops.lookup (numericName i) = some l) :
    ∃ c', (runNext h).run c = (.ok (), c') ∧
      LoopAdvances (numericName i) (l.state + 1) l.last l.start c.machine c'.machine := by
  -- The count is kept before the variable is set, and only then is the end of the loop looked for.
  let counted : Machine := { c.machine with control := { c.machine.control with
    loops := setNamed (numericName i) l.increment c.machine.control.loops } }
  obtain ⟨n, hset, hvalue, hcontrol⟩ :=
    @Machine.run_setNumeric_numericName counted hsize i (l.state + 1)
  have hlookup (other : Text) : n.control.loops.lookup other =
      if other = numericName i then some l.increment else c.machine.control.loops.lookup other := by
    rw [hcontrol]
    exact lookup_setNamed ..
  have hnext : n.control.next = c.machine.control.next := by rw [hcontrol]
  let args : Arguments := { c.args with index := c.args.index + 1 }
  have hrun : (runNext h).run c =
      (if l.increment.isFinished then
        changeControl fun c => { c with loops := eraseNamed (numericName i) c.loops }
      else jump l.start).run ⟨n, args⟩ := by
    have hassign : (liftM (Machine.setNumeric (numericName i) l.increment.state) : Routine).run
        ⟨counted, args⟩ = (.ok (), ⟨n, args⟩) := by
      rw [Call.run_liftM, show l.increment.state = l.state + 1 from rfl, hset]
    have hcount : (changeControl fun d =>
        { d with loops := setNamed (numericName i) l.increment d.loops }).run ⟨c.machine, args⟩ =
        (.ok (), ⟨counted, args⟩) := rfl
    have hlook : control.run ⟨c.machine, args⟩ = (.ok c.machine.control, ⟨c.machine, args⟩) := rfl
    rw [runNext, Run.run_bind_ok (run_nextNumericVar hname), Run.run_bind_ok hlook, hloop]
    dsimp only
    rw [Run.run_bind_ok hcount, Run.run_bind_ok hassign]
    rfl
  by_cases hlast : l.state + 1 ≤ l.last
  · have hopen : l.increment.isFinished = false := by
      simpa [ForLoop.isFinished, ForLoop.increment] using hlast
    refine ⟨_, hrun.trans (by rw [hopen]; rfl), ?_⟩
    exact {
      value := hvalue
      next := (if_pos hlast).symm
      loop := by rw [if_pos hlast]; exact (hlookup _).trans (if_pos rfl)
      others := fun other hother => (hlookup other).trans (if_neg hother) }
  · have hclosed : l.increment.isFinished = true := by
      simpa [ForLoop.isFinished, ForLoop.increment] using hlast
    refine ⟨_, hrun.trans (by rw [hclosed]; rfl), ?_⟩
    exact {
      value := hvalue
      next := by rw [if_neg hlast]; exact hnext
      loop := by rw [if_neg hlast]; exact (lookup_eraseNamed ..).trans (if_pos rfl)
      others := fun other hother =>
        ((lookup_eraseNamed ..).trans (if_neg hother)).trans ((hlookup other).trans (if_neg hother)) }

theorem run_runNext_closed (h : Hooks) {c : Call} {name : Text} (hname : c.args.numericVar? = some name)
    (hloop : c.machine.control.loops.lookup name = none) :
    (runNext h).run c =
      (Call.onMachine (h.complain "COMMAND".toList ("NEXT without FOR: ".toList ++ name))).run
        ⟨c.machine, { c.args with index := c.args.index + 1 }⟩ := by
  have hlook : control.run ⟨c.machine, { c.args with index := c.args.index + 1 }⟩ =
      (.ok c.machine.control, ⟨c.machine, { c.args with index := c.args.index + 1 }⟩) := rfl
  rw [runNext, Run.run_bind_ok (run_nextNumericVar hname), Run.run_bind_ok hlook, hloop]
  rfl

/-- `FOR` opens a loop at its first count. -/
theorem run_openLoop {c : Call} (hsize : 17664 ≤ c.machine.memory.size) (first last : Int) :
    ∃ c', (openLoop (numericName i) first last).run c = (.ok (), c') ∧
      c'.machine.control.loops.lookup (numericName i) =
        some ⟨first, last, c.machine.control.next⟩ := by
  obtain ⟨n, hset, -, hcontrol⟩ := Machine.run_setNumeric_numericName hsize i first
  have hassign : (liftM (Machine.setNumeric (numericName i) first) : Routine).run c =
      (.ok (), ⟨n, c.args⟩) := by
    rw [Call.run_liftM, hset]
  refine ⟨_, (Run.run_bind_ok hassign).trans rfl, ?_⟩
  exact (lookup_setNamed ..).trans (by rw [if_pos rfl, hcontrol])

end Command

namespace Moment

/-- The variable that the command of that moment goes on with. -/
def numericVar? (p : Moment) : Option Text :=
  p.act.tokens?.bind fun tokens => (Command.argumentsOf tokens).numericVar?

def Runs (c : Command) (name : Text) (p : Moment) : Prop :=
  p.command? = some c ∧ p.numericVar? = some name

instance (c : Command) (name : Text) : DecidablePred (Runs c name) :=
  fun _ => inferInstanceAs (Decidable (_ ∧ _))

/-- `FOR` is run with that variable and that first and last count. -/
def OpensLoop (p : Moment) (name : Text) (first last : Int) : Prop :=
  p.command? = some .forLoop ∧ ∃ tokens ∈ p.act.tokens?,
    (Command.forRange.run ⟨p.machine, Command.argumentsOf tokens⟩).1 = .ok (name, first, last)

variable {p : Moment} {i : Fin 26}

theorem OpensLoop.exists_outcome {first last : Int} (h : p.OpensLoop (numericName i) first last)
    (hsize : 17664 ≤ p.machine.memory.size) :
    ∃ k, p.outcome = (.ok (), k) ∧
      k.control.loops.lookup (numericName i) = some ⟨first, last, p.machine.control.next⟩ := by
  obtain ⟨hcommand, tokens, htokens, hrange⟩ := h
  obtain ⟨tokens', console, htokens', -, -, hrun⟩ := p.exists_call hcommand (by decide)
  obtain rfl : tokens = tokens' := Option.some.inj (htokens.symm.trans htokens')
  obtain ⟨args, hvalues⟩ := Command.run_forRange hrange console
  obtain ⟨c, hopen, hloop⟩ := @Command.run_openLoop i ⟨{ p.machine with console }, args⟩ hsize first last
  have hroutine : Command.runFor.run ⟨{ p.machine with console }, Command.argumentsOf tokens⟩ =
      (.ok (), c) := by
    rw [Command.runFor_eq, Run.run_bind_ok hvalues]
    exact hopen
  exact ⟨c.machine, hrun _ _ hroutine, hloop⟩

theorem Runs.exists_advance {l : ForLoop} (h : p.Runs .next (numericName i))
    (hsize : 17664 ≤ p.machine.memory.size)
    (hloop : p.machine.control.loops.lookup (numericName i) = some l) :
    ∃ k, p.outcome = (.ok (), k) ∧
      LoopAdvances (numericName i) (l.state + 1) l.last l.start p.machine k := by
  obtain ⟨tokens, console, htokens, -, -, hrun⟩ := p.exists_call h.1 (by decide)
  have hname : (Command.argumentsOf tokens).numericVar? = some (numericName i) := by
    simpa [numericVar?, htokens] using h.2
  obtain ⟨c, hnext, hadvance⟩ := @Command.run_runNext_open i Debugger.hooks
    ⟨{ p.machine with console }, Command.argumentsOf tokens⟩ l hsize hname hloop
  exact ⟨c.machine, hrun _ _ hnext, hadvance.value, hadvance.next, hadvance.loop, hadvance.others⟩

end Moment

/-- The tokens neither open nor take on the loop of the variable. -/
def LeavesLoop (name : Text) (tokens : List Token) : Prop :=
  ∀ c ∈ Command.commandOf? tokens, c = .forLoop ∨ c = .next →
    (Command.argumentsOf tokens).numericVar? ≠ some name

theorem LeavesLoop.spares {name : Text} {tokens : List Token} (h : LeavesLoop name tokens) :
    Command.Spares (fun c => c.loops.lookup name) tokens := by
  intro c hc d e hsteer
  have hleaves := h c hc
  cases c with
  | forLoop => exact hsteer.1 name (hleaves (.inl rfl))
  | next => exact hsteer.1 name (hleaves (.inr rfl))
  | _ => rw [show e = _ from hsteer]

/-- What a note makes of the loop of a variable. -/
def loopAfter (name : Text) (l : Option ForLoop) (p : Moment) : Option ForLoop :=
  if p.Runs .next name then l.bind fun l => if l.state + 1 ≤ l.last then some l.increment else none
  else if p.Runs .forLoop name then p.outcome.2.control.loops.lookup name
  else l

/-- The memory is as long as it was at the start, and nothing is typed at the prompt that touches the loop. -/
def Machine.GuardsLoop (name : Text) (m : Machine) : Prop :=
  65536 ≤ m.memory.size ∧ m.Types (LeavesLoop name)

theorem Machine.GuardsLoop.outcome {name : Text} {p : Moment} (h : p.machine.GuardsLoop name) :
    p.outcome.2.GuardsLoop name :=
  ⟨h.1.trans (Frame.turning_growing.execute p.act p.machine), h.2.outcome⟩

/-- `NEXT` takes the loop on by one, `FOR` opens it anew, and nothing else touches it. -/
theorem tracks_loop (i : Fin 26) :
    Tracks (Machine.GuardsLoop (numericName i)) (fun m => m.control.loops.lookup (numericName i))
      (loopAfter (numericName i)) where
  act p hp := by
    have hhooks := Debugger.keep_hooks_holding fun tokens => @LeavesLoop.spares (numericName i) tokens
    refine ⟨hp.outcome, ?_⟩
    unfold loopAfter
    by_cases hnext : p.Runs .next (numericName i)
    · rw [if_pos hnext]
      cases hloop : p.machine.control.loops.lookup (numericName i) with
      | some l =>
        have hsize := hp.1
        obtain ⟨k, hrun, hadvance⟩ := hnext.exists_advance (by omega) hloop
        rw [hrun]
        exact hadvance.loop
      | none =>
        -- The complaint ends at the prompt, where nothing is typed that touches the loop.
        obtain ⟨tokens, console, htokens, -, hinput, hrun⟩ := p.exists_call hnext.1 (by decide)
        have hname : (Command.argumentsOf tokens).numericVar? = some (numericName i) := by
          simpa [Moment.numericVar?, htokens] using hnext.2
        have htyped : Machine.Types (LeavesLoop (numericName i)) { p.machine with console } :=
          hp.2.of_input hinput
        rw [hrun _ _ (Command.run_runNext_closed _ hname hloop)]
        exact (Command.keeps_complain Frame.calm_holding hhooks _ _ _ htyped).2.trans hloop
    rw [if_neg hnext]
    by_cases hfor : p.Runs .forLoop (numericName i)
    · rw [if_pos hfor]
    rw [if_neg hfor]
    refine (Act.keeps_execute (fun _ => LeavesLoop.spares) (fun tokens htokens => ?_) (fun _ _ _ _ => rfl)
      p.machine hp.2).2
    refine LeavesLoop.spares fun c hc hloop hname => ?_
    have hcommand : p.command? = some c := Option.bind_eq_some_iff.mpr ⟨tokens, htokens, hc⟩
    have hvariable : p.numericVar? = some (numericName i) :=
      Option.bind_eq_some_iff.mpr ⟨tokens, htokens, hname⟩
    rcases hloop with rfl | rfl
    · exact hfor ⟨hcommand, hvariable⟩
    · exact hnext ⟨hcommand, hvariable⟩
  exit m hm := by
    have hexit := (Debugger.keep_hooks_holding (fun _ => LeavesLoop.spares)).onExit m hm.2
    have hgrown := (Debugger.keep_hooks Frame.turning_growing.toOpen).onExit m
    exact ⟨⟨hm.1.trans hgrown, hexit.1⟩, hexit.2⟩
  aside _ _ _ _ _ h := ⟨h, rfl⟩

def loopAt (first last start : Int) (k : Nat) : Option ForLoop :=
  if (k : Int) < max 1 (last - first + 1) then some ⟨first + k, last, start⟩ else none

def nextCount (name : Text) (l : List Moment) : Nat := l.countP fun p => decide (p.Runs .next name)

section LoopAt

variable {first last start : Int} {k : Nat}

theorem loopAt_succ :
    ((loopAt first last start k).bind fun l => if l.state + 1 ≤ l.last then some l.increment else none) =
      loopAt first last start (k + 1) := by
  unfold loopAt
  by_cases hopen : (k : Int) < max 1 (last - first + 1)
  · rw [if_pos hopen, Option.bind_some]
    by_cases hlast : first + k + 1 ≤ last
    · rw [if_pos hlast, if_pos (by push_cast; omega)]
      simp [ForLoop.increment, Int.add_assoc]
    · rw [if_neg hlast, if_neg (by push_cast; omega)]
  · rw [if_neg hopen, if_neg (by push_cast; omega), Option.bind_none]

theorem foldl_loopAfter {name : Text} {l : List Moment} (h : ∀ p ∈ l, ¬p.Runs .forLoop name) (k : Nat) :
    l.foldl (loopAfter name) (loopAt first last start k) =
      loopAt first last start (k + nextCount name l) := by
  induction l generalizing k with
  | nil => rfl
  | cons p l ih =>
    have hrest := fun q hq => h q (List.mem_cons_of_mem p hq)
    rw [List.foldl_cons, loopAfter, nextCount, List.countP_cons]
    by_cases hnext : p.Runs .next name
    · rw [if_pos hnext, loopAt_succ, ih hrest, if_pos (by simpa using hnext)]
      congr 1
      unfold nextCount
      omega
    · rw [if_neg hnext, if_neg (h p (by simp)), ih hrest, if_neg (by simpa using hnext), nextCount,
        Nat.add_zero]

end LoopAt

/-- Along the notes every `NEXT` of the variable takes its loop on by one, until the range is used up: the
`k`-th one comes to the count `first + k`. Behind so many of them the loop is closed, and stays so. -/
structure GoesThrough (name : Text) (first last start : Int) (l : List Moment) (final : Machine) :
    Prop where
  found : ∀ mid q rest, l = mid ++ q :: rest →
    q.machine.control.loops.lookup name = loopAt first last start (nextCount name mid)
  advances : ∀ mid q rest, l = mid ++ q :: rest → q.Runs .next name →
    (nextCount name mid : Int) < max 1 (last - first + 1) →
    ∃ k, q.outcome = (.ok (), k) ∧
      LoopAdvances name (first + (nextCount name mid + 1)) last start q.machine k
  left : final.control.loops.lookup name = loopAt first last start (nextCount name l)

namespace Machine

/-- A loop goes through its range, whatever else is run in between. -/
theorem loop_goesThrough (m : Machine) (n : Nat) (i : Fin 26) {first last : Int}
    {before after : List Moment} {p : Moment} (hsize : 65536 ≤ m.memory.size)
    (htyped : m.Types (LeavesLoop (numericName i))) (hrun : m.moments n = before ++ p :: after)
    (hfor : p.OpensLoop (numericName i) first last)
    (honly : ∀ q ∈ after, ¬q.Runs .forLoop (numericName i)) :
    GoesThrough (numericName i) first last p.machine.control.next after (m.runTurns n).2 := by
  have htrack := (tracks_loop i).runTurns n ⟨hsize, htyped⟩
  rw [hrun] at htrack
  have hguard := htrack.at_note.1
  obtain ⟨opened, hopens, hloop⟩ := hfor.exists_outcome (Nat.le_trans (by decide) hguard.1)
  have hstart : loopAfter (numericName i)
      (before.foldl (loopAfter (numericName i)) (m.control.loops.lookup (numericName i))) p =
      loopAt first last p.machine.control.next 0 := by
    rw [← htrack.at_note.2, ← ((tracks_loop i).act p hguard).2, hopens, hloop]
    simp [loopAt]
  have hnote {mid rest : List Moment} {q : Moment} (hafter : after = mid ++ q :: rest) :
      q.machine.GuardsLoop (numericName i) ∧ q.machine.control.loops.lookup (numericName i) =
        loopAt first last p.machine.control.next (nextCount (numericName i) mid) := by
    subst hafter
    have hsplit : before ++ p :: (mid ++ q :: rest) = before ++ p :: mid ++ q :: rest := by simp
    have hmid : ∀ r ∈ mid, ¬r.Runs .forLoop (numericName i) := fun r hr => honly r (by simp [hr])
    rw [hsplit] at htrack
    refine ⟨htrack.at_note.1, ?_⟩
    rw [htrack.at_note.2, List.foldl_append, List.foldl_cons, hstart, foldl_loopAfter hmid,
      Nat.zero_add]
  refine ⟨fun mid q rest hafter => (hnote hafter).2, fun mid q rest hafter hnext hopen => ?_, ?_⟩
  · obtain ⟨hguards, hfound⟩ := hnote hafter
    rw [loopAt, if_pos hopen] at hfound
    rw [← Int.add_assoc]
    exact hnext.exists_advance (Nat.le_trans (by decide) hguards.1) hfound
  · rw [htrack.final.2, List.foldl_append, List.foldl_cons, hstart, foldl_loopAfter honly, Nat.zero_add]

/-- A loop that wraps its variable around, sets it in its body and holds an empty loop. -/
def withLoops : Machine :=
  started ["FOR I = 65535 TO 65536".toList, "FOR J = 5 TO 1".toList, "NEXT J".toList, "I = 7".toList,
    "NEXT I".toList]

theorem loop_goesThrough_withLoops :
    ∃ before p after, withLoops.moments 9 = before ++ p :: after ∧
      p.OpensLoop (numericName 8) 65535 65536 ∧ nextCount (numericName 8) after = 2 ∧
      GoesThrough (numericName 8) 65535 65536 p.machine.control.next after
        (withLoops.runTurns 9).2 := by
  have hact : (withLoops.moments 9)[1]?.map Moment.act =
      some (.stored "FOR I = 65535 TO 65536".toList) := by decide +kernel
  have hafter : nextCount (numericName 8) ((withLoops.moments 9).drop 2) = 2 ∧
      ∀ q ∈ (withLoops.moments 9).drop 2, ¬q.Runs .forLoop (numericName 8) := by
    decide +kernel
  obtain ⟨⟨k, act⟩, hget, rfl⟩ := Option.map_eq_some_iff.mp hact
  obtain ⟨hlt, hk⟩ := List.getElem?_eq_some_iff.mp hget
  have hrun : withLoops.moments 9 = (withLoops.moments 9).take 1 ++
      ⟨k, .stored "FOR I = 65535 TO 65536".toList⟩ :: (withLoops.moments 9).drop 2 := by
    rw [← hk, List.getElem_cons_drop, List.take_append_drop]
  have hparse : Token.parse "FOR I = 65535 TO 65536".toList = .ok [.word "FOR".toList, .numericVar ['I'],
      .symbol ['='], .number 65535, .word "TO".toList, .number 65536] := by decide +kernel
  have hfor : Moment.OpensLoop ⟨k, .stored "FOR I = 65535 TO 65536".toList⟩ (numericName 8) 65535
      65536 := by
    refine ⟨?_, _, toOption_eq_some_iff.mpr hparse, rfl⟩
    rw [Moment.command?, Act.tokens?, hparse]
    decide +kernel
  have htyped : withLoops.Types (LeavesLoop (numericName 8)) := fun _ hline =>
    absurd hline List.not_mem_nil
  exact ⟨_, _, _, hrun, hfor, hafter.1,
    loop_goesThrough withLoops 9 8 (by decide) htyped hrun hfor hafter.2⟩

end Machine
end BasicMachine
