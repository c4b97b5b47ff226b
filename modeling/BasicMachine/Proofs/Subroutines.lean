import BasicMachine.Proofs.Tracking

/-! Subroutines. Only `GOSUB` and `RETURN` touch the return addresses, and the address of the line that runs
changes only when the next line is looked for. So it still names the line of an `IF` when the command behind
its `THEN` runs one turn later. If the calls and returns of a run are well nested, each `RETURN` therefore goes
on behind the line that holds its `GOSUB`, and at the end the return addresses are what they were at the
start. -/
namespace BasicMachine

open Run (Keeps)

namespace Memory

/-- Where a search from an address on starts. A negative address counts from the end. -/
def searchStart (m : Memory) (a : Int) : Nat := if a < 0 then bound m.size a else a.toNat

/-- The first newline at or behind the address `a` stands at `i`. -/
structure FirstNewline (m : Memory) (a : Int) (i : Nat) : Prop where
  from_start : m.searchStart a ≤ i
  inside : i < m.size
  isNewline : m.get i = newline
  first : ∀ j, m.searchStart a ≤ j → j < i → m.get j ≠ newline

theorem search_eq_some_spec {p : Nat → Bool} {i n k : Nat} (h : search p i n = some k) :
    i ≤ k ∧ k < i + n ∧ p k = true ∧ ∀ j, i ≤ j → j < k → p j = false := by
  induction n generalizing i with
  | zero => cases h
  | succ n ih =>
    rw [search] at h
    split at h
    · next hp =>
      cases h
      exact ⟨Nat.le_refl _, by omega, hp, fun j _ _ => by omega⟩
    · next hp =>
      obtain ⟨hle, hlt, hk, hfirst⟩ := ih h
      refine ⟨by omega, by omega, hk, fun j hij hjk => ?_⟩
      by_cases hj : j = i
      · rw [hj]
        simpa using hp
      · exact hfirst j (by omega) hjk

theorem firstNewline_of_nextLine {m : Memory} {a : Int} {b : Nat} (h : m.nextLine a = .ok b) :
    ∃ i, m.FirstNewline a i ∧ b = i + 1 := by
  simp only [nextLine] at h
  split at h
  · next i hsearch =>
    obtain ⟨hle, hlt, hi, hfirst⟩ := search_eq_some_spec hsearch
    have hstart : m.searchStart a = if a < 0 then bound m.size a else a.toNat := rfl
    refine ⟨i, ⟨by omega, by omega, by simpa using hi, fun j hj hji => ?_⟩, (Except.ok.inj h).symm⟩
    simpa using hfirst j hj hji
  · cases h

end Memory

namespace Moment

def Calls (p : Moment) : Prop := p.command? = some .gosub

def Returns (p : Moment) : Prop := p.command? = some .returnSub

instance : DecidablePred Calls := fun p => inferInstanceAs (Decidable (p.command? = _))

instance : DecidablePred Returns := fun p => inferInstanceAs (Decidable (p.command? = _))

theorem Returns.not_calls {p : Moment} (h : p.Returns) : ¬p.Calls := by
  intro hcalls
  cases h.symm.trans hcalls

end Moment

/-- How many calls are open behind the notes if `d` are open in front of them. There is no such number if a
`RETURN` finds no open call. -/
def openCalls : Nat → List Moment → Option Nat
  | d, [] => some d
  | d, p :: l =>
    if p.Calls then openCalls (d + 1) l
    else if p.Returns then
      match d with
      | 0 => none
      | d + 1 => openCalls d l
    else openCalls d l

/-- Every `RETURN` closes a call, and no call stays open. -/
def WellNested (l : List Moment) : Prop := openCalls 0 l = some 0

instance (l : List Moment) : Decidable (WellNested l) := inferInstanceAs (Decidable (_ = _))

section OpenCalls

variable {d e : Nat} {p : Moment} {l l' : List Moment}

theorem openCalls_call (h : p.Calls) : openCalls d (p :: l) = openCalls (d + 1) l := if_pos h

theorem openCalls_return (h : p.Returns) : openCalls (d + 1) (p :: l) = openCalls d l := by
  simp [openCalls, h.not_calls, h]

theorem openCalls_zero_return (h : p.Returns) : openCalls 0 (p :: l) = none := by
  simp [openCalls, h.not_calls, h]

theorem openCalls_other (h : ¬p.Calls) (h' : ¬p.Returns) : openCalls d (p :: l) = openCalls d l := by
  simp [openCalls, h, h']

theorem openCalls_append : openCalls d (l ++ l') = (openCalls d l).bind (openCalls · l') := by
  induction l generalizing d with
  | nil => rfl
  | cons p l ih =>
    rw [List.cons_append]
    by_cases hcalls : p.Calls
    · rw [openCalls_call hcalls, openCalls_call hcalls, ih]
    by_cases hreturns : p.Returns
    · cases d with
      | zero => rw [openCalls_zero_return hreturns, openCalls_zero_return hreturns, Option.bind_none]
      | succ d => rw [openCalls_return hreturns, openCalls_return hreturns, ih]
    · rw [openCalls_other hcalls hreturns, openCalls_other hcalls hreturns, ih]

/-- Of the calls that are open at the end, the last one is among the notes, with well nested notes behind it,
or it was open before them. -/
theorem exists_open_call (h : openCalls d l = some (e + 1)) :
    (∃ earlier g inner, l = earlier ++ g :: inner ∧ g.Calls ∧ WellNested inner) ∨
      e + 1 ≤ d ∧ openCalls (d - (e + 1)) l = some 0 := by
  induction l generalizing d with
  | nil =>
    cases h
    exact .inr ⟨Nat.le_refl _, by simp [openCalls]⟩
  | cons p l ih =>
    -- A call that is found further behind is found here too.
    have hbehind : (∃ earlier g inner, l = earlier ++ g :: inner ∧ g.Calls ∧ WellNested inner) →
        ∃ earlier g inner, p :: l = earlier ++ g :: inner ∧ g.Calls ∧ WellNested inner := by
      rintro ⟨earlier, g, inner, rfl, hg⟩
      exact ⟨p :: earlier, g, inner, rfl, hg⟩
    by_cases hcalls : p.Calls
    · rw [openCalls_call hcalls] at h ⊢
      rcases ih h with hfound | ⟨hle, hopen⟩
      · exact .inl (hbehind hfound)
      by_cases heq : e = d
      · -- This is the call: behind it, all that was opened is closed again.
        subst heq
        rw [Nat.sub_self] at hopen
        exact .inl ⟨[], p, l, rfl, hcalls, hopen⟩
      · rw [show d + 1 - (e + 1) = d - (e + 1) + 1 by omega] at hopen
        exact .inr ⟨by omega, hopen⟩
    by_cases hreturns : p.Returns
    · cases d with
      | zero => rw [openCalls_zero_return hreturns] at h; cases h
      | succ d =>
        rw [openCalls_return hreturns] at h
        rcases ih h with hfound | ⟨hle, hopen⟩
        · exact .inl (hbehind hfound)
        · rw [show d + 1 - (e + 1) = d - (e + 1) + 1 by omega, openCalls_return hreturns]
          exact .inr ⟨by omega, hopen⟩
    · rw [openCalls_other hcalls hreturns] at h ⊢
      exact (ih h).imp hbehind id

/-- The call that a `RETURN` closes. -/
theorem WellNested.exists_call {before after : List Moment} {r : Moment}
    (h : WellNested (before ++ r :: after)) (hr : r.Returns) :
    ∃ earlier g inner, before = earlier ++ g :: inner ∧ g.Calls ∧ WellNested inner := by
  rw [WellNested, openCalls_append] at h
  obtain ⟨d, hbefore, hrest⟩ := Option.bind_eq_some_iff.mp h
  cases d with
  | zero => rw [openCalls_zero_return hr] at hrest; cases hrest
  | succ d =>
    rcases exists_open_call hbefore with hfound | ⟨hle, -⟩
    · exact hfound
    · omega

theorem WellNested.behind_call {before after : List Moment} {g : Moment}
    (h : WellNested (before ++ g :: after)) (hg : g.Calls) : after ≠ [] := by
  rintro rfl
  rw [WellNested, openCalls_append] at h
  obtain ⟨d, -, hrest⟩ := Option.bind_eq_some_iff.mp h
  rw [openCalls_call hg] at hrest
  cases hrest

end OpenCalls

/-- What a note makes of the return addresses. -/
def returnAddresses (stack : List Int) (p : Moment) : List Int :=
  if p.Calls then
    match p.machine.memory.nextLine p.machine.control.counter with
    | .ok a => (a : Int) :: stack
    | .error _ => stack
  else if p.Returns then stack.tail
  else stack

/-- The line that runs has an end. -/
def Moment.LineEnds (p : Moment) : Prop :=
  ∃ a, p.machine.memory.nextLine p.machine.control.counter = .ok a

section ReturnAddresses

variable {p : Moment} {l : List Moment}

theorem returnAddresses_call {a : Nat} (h : p.Calls)
    (ha : p.machine.memory.nextLine p.machine.control.counter = .ok a) (stack : List Int) :
    returnAddresses stack p = (a : Int) :: stack := by
  rw [returnAddresses, if_pos h, ha]

theorem returnAddresses_return (h : p.Returns) (stack : List Int) :
    returnAddresses stack p = stack.tail := by
  rw [returnAddresses, if_neg h.not_calls, if_pos h]

theorem returnAddresses_other (h : ¬p.Calls) (h' : ¬p.Returns) (stack : List Int) :
    returnAddresses stack p = stack := by
  rw [returnAddresses, if_neg h, if_neg h']

/-- The notes touch as many addresses as there are open calls, and none below. -/
theorem foldl_returnAddresses {d e : Nat} (h : openCalls d l = some e)
    (hends : ∀ p ∈ l, p.Calls → p.LineEnds) {top : List Int} (htop : top.length = d) (stack : List Int) :
    ∃ top', top'.length = e ∧ l.foldl returnAddresses (top ++ stack) = top' ++ stack := by
  induction l generalizing d top with
  | nil =>
    cases h
    exact ⟨top, htop, rfl⟩
  | cons p l ih =>
    have hrest := fun q hq => hends q (List.mem_cons_of_mem p hq)
    rw [List.foldl_cons]
    by_cases hcalls : p.Calls
    · obtain ⟨a, ha⟩ := hends p (by simp) hcalls
      rw [openCalls_call hcalls] at h
      rw [returnAddresses_call hcalls ha]
      exact @ih _ h hrest ((a : Int) :: top) (by simp [htop])
    by_cases hreturns : p.Returns
    · rw [returnAddresses_return hreturns]
      cases d with
      | zero => rw [openCalls_zero_return hreturns] at h; cases h
      | succ d =>
        rw [openCalls_return hreturns] at h
        obtain ⟨b, top, rfl⟩ := List.exists_cons_of_length_eq_add_one htop
        exact ih h hrest (by simpa using htop)
    · rw [openCalls_other hcalls hreturns] at h
      rw [returnAddresses_other hcalls hreturns]
      exact ih h hrest htop

theorem WellNested.foldl_returnAddresses (h : WellNested l) (hends : ∀ p ∈ l, p.Calls → p.LineEnds)
    (stack : List Int) : l.foldl returnAddresses stack = stack := by
  obtain ⟨top, htop, hfold⟩ := @BasicMachine.foldl_returnAddresses l 0 0 h hends [] rfl stack
  rw [List.length_eq_zero_iff.mp htop] at hfold
  exact hfold

end ReturnAddresses

/-- The tokens neither call a subroutine nor return from one. -/
def CallFree (tokens : List Token) : Prop :=
  ∀ c ∈ Command.commandOf? tokens, c ≠ .gosub ∧ c ≠ .returnSub

theorem CallFree.spares {tokens : List Token} (h : CallFree tokens) :
    Command.Spares Control.gosubStack tokens := by
  intro c hc d e hsteer
  have hfree := h c hc
  cases c with
  | gosub => exact absurd rfl hfree.1
  | returnSub => exact absurd rfl hfree.2
  | forLoop => rw [hsteer.2]
  | next => rw [hsteer.2]
  | _ => rw [show e = _ from hsteer]

theorem spares_counter (tokens : List Token) : Command.Spares Control.counter tokens := by
  intro c _ d e hsteer
  cases c with
  | forLoop => rw [hsteer.2]
  | next => rw [hsteer.2]
  | _ => rw [show e = _ from hsteer]

def lineAddress (a : Int) (p : Moment) : Int := if p.act = .fetch then p.machine.control.next else a

/-- The line that runs is the one that was looked for last. -/
theorem tracks_counter {P : List Token → Prop} :
    Tracks (Machine.Types P) (fun m => m.control.counter) lineAddress where
  act p hp := by
    refine ⟨hp.outcome, ?_⟩
    unfold lineAddress
    by_cases hfetch : p.act = .fetch
    · rw [if_pos hfetch, Moment.outcome, hfetch, Act.execute, Run.run_bind]
      have hcounter : (Machine.nextProgramLine.run p.machine).2.control.counter =
          p.machine.control.next := by
        rw [Machine.run_nextProgramLine]
        dsimp only
        split <;> rfl
      rcases hfound : Machine.nextProgramLine.run p.machine with ⟨r, k⟩
      rw [hfound] at hcounter
      cases r <;> exact hcounter
    · rw [if_neg hfetch]
      exact (Act.keeps_execute (fun tokens _ => spares_counter tokens)
        (fun tokens _ => spares_counter tokens) (fun h => absurd h hfetch) p.machine hp).2
  exit := (Debugger.keep_hooks_holding fun tokens _ => spares_counter tokens).onExit
  aside _ _ _ _ _ h := ⟨h, rfl⟩

namespace Command

theorem gosubStack_runGosub (c : Call) :
    (runGosub.run c).2.machine.control.gosubStack =
      match c.machine.memory.nextLine c.machine.control.counter with
      | .ok a => (a : Int) :: c.machine.control.gosubStack
      | .error _ => c.machine.control.gosubStack := by
  have hsteer : (Frame.observing (fun _ => True) fun m => m.control.gosubStack).Steered
      fun c d => d.gosubStack = c.gosubStack := fun _ _ hstack h => ⟨h, hstack⟩
  have hjump : Keeps (Frame.observing (fun _ => True) fun m => m.control.gosubStack).call
      (Call.nextAddress >>= jump) :=
    (Call.keeps_nextAs _).bind fun a => keeps_jump hsteer (fun _ _ => rfl) a
  cases hline : c.machine.memory.nextLine c.machine.control.counter with
  | error e => simp [runGosub, Run.run_bind, hline]
  | ok a =>
    have hpush := (hjump ⟨{ c.machine with control := { c.machine.control with
      gosubStack := (a : Int) :: c.machine.control.gosubStack } }, c.args⟩ trivial).2
    simpa [runGosub, Run.run_bind, hline, changeControl, Machine.changeControl, Call.onMachine]
      using hpush

theorem run_runReturn_cons (h : Hooks) {c : Call} {a : Int} {rest : List Int}
    (hstack : c.machine.control.gosubStack = a :: rest) :
    (runReturn h).run c = (.ok (), { c with machine := { c.machine with control :=
      { c.machine.control with gosubStack := rest, next := a } } }) := by
  simp [runReturn, control, jump, changeControl, Machine.changeControl, Call.onMachine, Run.run_bind,
    hstack]

theorem run_runReturn_nil (h : Hooks) {c : Call} (hstack : c.machine.control.gosubStack = []) :
    (runReturn h).run c =
      (Call.onMachine (h.complain "COMMAND".toList "RETURN without GOSUB.".toList)).run c := by
  simp only [runReturn, control, Run.run_bind, Run.run_get, Run.run_pure, hstack]
  rfl

end Command

/-- Every call puts the address behind its line on the return addresses, every return takes one away, and
nothing else touches them. -/
theorem tracks_gosubStack :
    Tracks (Machine.Types CallFree) (fun m => m.control.gosubStack) returnAddresses where
  act p hp := by
    have hhooks := Debugger.keep_hooks_holding @CallFree.spares
    refine ⟨hp.outcome, ?_⟩
    by_cases hcalls : p.Calls
    · obtain ⟨tokens, console, -, -, -, hrun⟩ := p.exists_call hcalls (by decide)
      rw [returnAddresses, if_pos hcalls, hrun _ _ rfl]
      exact Command.gosubStack_runGosub _
    by_cases hreturns : p.Returns
    · obtain ⟨tokens, console, -, -, hinput, hrun⟩ := p.exists_call hreturns (by decide)
      rw [returnAddresses_return hreturns]
      cases hstack : p.machine.control.gosubStack with
      | nil =>
        -- The complaint ends at the prompt, where no call or return can be typed.
        have htyped : Machine.Types CallFree { p.machine with console } := hp.of_input hinput
        have hkeeps := Command.keeps_complain Frame.calm_holding hhooks "COMMAND".toList
          "RETURN without GOSUB.".toList ⟨{ p.machine with console }, Command.argumentsOf tokens⟩ htyped
        rw [hrun _ _ (Command.run_runReturn_nil _ hstack)]
        exact hkeeps.2.trans hstack
      | cons a rest => rw [hrun _ _ (Command.run_runReturn_cons _ hstack), List.tail_cons]
    · rw [returnAddresses_other hcalls hreturns]
      refine (Act.keeps_execute @CallFree.spares (fun tokens htokens => ?_) (fun _ _ _ _ => rfl)
        p.machine hp).2
      refine CallFree.spares fun c hc => ?_
      have hcommand : p.command? = some c := Option.bind_eq_some_iff.mpr ⟨tokens, htokens, hc⟩
      exact ⟨by rintro rfl; exact hcalls hcommand, by rintro rfl; exact hreturns hcommand⟩
  exit := (Debugger.keep_hooks_holding @CallFree.spares).onExit
  aside _ _ _ _ _ h := ⟨h, rfl⟩

theorem Moment.Calls.lineEnds {p : Moment} (h : p.Calls) {k : Machine} (hok : p.outcome = (.ok (), k)) :
    p.LineEnds := by
  obtain ⟨tokens, console, -, -, -, hrun⟩ := p.exists_call h (by decide)
  rcases hgosub : Command.runGosub.run
    ⟨{ p.machine with console }, Command.argumentsOf tokens⟩ with ⟨r, c⟩
  cases hline : p.machine.memory.nextLine p.machine.control.counter with
  | ok a => exact ⟨a, hline⟩
  | error e =>
    have hfault : r = .error e := by
      simpa [Command.runGosub, Run.run_bind, hline] using (congrArg Prod.fst hgosub).symm
    rw [hrun r c hgosub, hfault] at hok
    cases hok

/-- The act is a line of the program, or the command that the line of the program before it left pending. -/
def Act.inProgram : Option Act → Act → Bool
  | _, stored _ => true
  | some (stored _), pending _ => true
  | _, _ => false

/-- Every call among the notes behind the given act stands in a line of the program. -/
def CallsInProgram : Option Act → List Moment → Prop
  | _, [] => True
  | last, p :: l => (p.Calls → p.act.inProgram last = true) ∧ CallsInProgram (some p.act) l

instance decidableCallsInProgram : ∀ last l, Decidable (CallsInProgram last l)
  | _, [] => .isTrue trivial
  | _, p :: l =>
    have := decidableCallsInProgram (some p.act) l
    inferInstanceAs (Decidable (_ ∧ _))

theorem CallsInProgram.at_note {last : Option Act} {before after : List Moment} {p : Moment}
    (h : CallsInProgram last (before ++ p :: after)) (hp : p.Calls) :
    p.act.inProgram ((before.getLast?.map Moment.act).or last) = true := by
  induction before generalizing last with
  | nil => exact h.1 hp
  | cons q before ih =>
    have hbehind := ih h.2
    rw [List.getLast?_cons]
    cases hlast : before.getLast? <;> simpa [hlast] using hbehind

/-- The command that is noted behind the others stands in the line of the program that starts at the address.
It is that line, or the command that the line left pending. -/
inductive StandsAt : List Moment → Moment → Int → Prop
  | line {front : List Moment} {f k : Machine} {line : Text}
    (found : Machine.nextProgramLine.run f = (.ok (some line), k)) :
    StandsAt (front ++ [⟨f, .fetch⟩]) ⟨k, .stored line⟩ f.control.next
  | parked {front : List Moment} {f k g : Machine} {line : Text} {tokens : List Token}
    (found : Machine.nextProgramLine.run f = (.ok (some line), k)) :
    StandsAt (front ++ [⟨f, .fetch⟩, ⟨k, .stored line⟩]) ⟨g, .pending tokens⟩ f.control.next

theorem StandsAt.foldl_lineAddress {before : List Moment} {g : Moment} {a : Int}
    (h : StandsAt before g a) (b : Int) : before.foldl lineAddress b = a := by
  cases h <;> simp [lineAddress]

theorem Machine.exists_standsAt {m : Machine} {n : Nat} {before after : List Moment} {g : Moment}
    (h : m.moments n = before ++ g :: after)
    (hg : g.act.inProgram (before.getLast?.map Moment.act) = true) : ∃ a, StandsAt before g a := by
  obtain ⟨k, act⟩ := g
  cases act with
  | stored line =>
    obtain ⟨front, f, rfl, hfound⟩ := exists_fetch_of_stored h
    exact ⟨_, .line hfound⟩
  | pending tokens =>
    cases hlast : before.getLast? with
    | none => simp [hlast, Act.inProgram] at hg
    | some p =>
      obtain ⟨k', act⟩ := p
      obtain ⟨front, rfl⟩ := List.getLast?_eq_some_iff.mp hlast
      cases act with
      | stored line =>
        obtain ⟨front, f, rfl, hfound⟩ := exists_fetch_of_stored (by simpa using h)
        exact ⟨f.control.next, by simpa using StandsAt.parked hfound⟩
      | _ => simp [Act.inProgram] at hg
  | _ => simp [Act.inProgram] at hg

/-- The `RETURN` behind the notes goes on behind the line of the `GOSUB` that it closes, that is, just behind
the first newline at or behind the start of that line. -/
def ReturnsBehindCall (before : List Moment) (r : Moment) : Prop :=
  ∃ earlier g inner a i k, before = earlier ++ g :: inner ∧ g.Calls ∧ WellNested inner ∧
    StandsAt earlier g a ∧ g.machine.memory.FirstNewline a i ∧
    r.outcome = (.ok (), k) ∧ k.control.next = i + 1

namespace Machine

/-- Well nested calls return behind their lines, and leave no return address behind. -/
theorem calls_return (m : Machine) (n : Nat) (htyped : m.Types CallFree)
    (hnested : WellNested (m.moments n)) (hlines : CallsInProgram none (m.moments n)) :
    (m.runTurns n).2.control.gosubStack = m.control.gosubStack ∧
      ∀ before r after, m.moments n = before ++ r :: after → r.Returns → ReturnsBehindCall before r := by
  have hstack := tracks_gosubStack.runTurns n htyped
  have hcounter := tracks_counter.runTurns n htyped
  have hends : ∀ p ∈ m.moments n, p.Calls → p.LineEnds := by
    intro p hp hcalls
    obtain ⟨before, after, hsplit⟩ := List.append_of_mem hp
    have hcommand : p.act ≠ .fetch := by
      intro hfetch
      simp [Moment.Calls, Moment.command?, hfetch, Act.tokens?] at hcalls
    rw [hsplit] at hnested
    obtain ⟨k, hok⟩ := outcome_of_later hsplit (hnested.behind_call hcalls) hcommand
    exact hcalls.lineEnds hok
  refine ⟨hstack.final.2.trans (hnested.foldl_returnAddresses hends _), ?_⟩
  intro before r after hsplit hr
  rw [hsplit] at hnested hlines hstack hcounter hends
  obtain ⟨earlier, g, inner, rfl, hg, hinner⟩ := hnested.exists_call hr
  have hsplit' : earlier ++ g :: inner ++ r :: after = earlier ++ g :: (inner ++ r :: after) := by simp
  obtain ⟨b, hb⟩ := hends g (by simp) hg
  -- The `RETURN` finds the address that its `GOSUB` put there.
  have hfound : r.machine.control.gosubStack =
      (b : Int) :: earlier.foldl returnAddresses m.control.gosubStack := by
    rw [hstack.at_note.2, List.foldl_append, List.foldl_cons, returnAddresses_call hg hb]
    exact hinner.foldl_returnAddresses (fun p hp => hends p (by simp [hp])) _
  obtain ⟨tokens, console, -, -, -, hrun⟩ := r.exists_call hr (by decide)
  have hreturn := hrun _ _ (Command.run_runReturn_cons _ hfound)
  -- The `GOSUB` took it from the line that was looked for last.
  rw [hsplit'] at hlines hcounter hsplit
  have hin := hlines.at_note hg
  rw [Option.or_none] at hin
  obtain ⟨a, ha⟩ := exists_standsAt hsplit hin
  rw [hcounter.at_note.2, ha.foldl_lineAddress] at hb
  obtain ⟨i, hi, rfl⟩ := Memory.firstNewline_of_nextLine hb
  exact ⟨earlier, g, inner, a, i, _, rfl, hg, hinner, ha, hi, hreturn, by simp⟩

/-- A program with a subroutine that calls another one behind a `THEN`. -/
def withSubroutines : Machine :=
  started ["GOSUB outer".toList, "END".toList, "outer:".toList, "IF A = 0 THEN GOSUB inner".toList,
    "RETURN".toList, "inner:".toList, "RETURN".toList]

theorem calls_return_withSubroutines :
    WellNested (withSubroutines.moments 7) ∧ CallsInProgram none (withSubroutines.moments 7) ∧
      (withSubroutines.moments 7).countP (fun p => decide p.Returns) = 2 ∧
      (withSubroutines.runTurns 7).2.control.gosubStack = [] ∧
      ∀ before r after, withSubroutines.moments 7 = before ++ r :: after → r.Returns →
        ReturnsBehindCall before r := by
  have hnested : WellNested (withSubroutines.moments 7) := by decide +kernel
  have hlines : CallsInProgram none (withSubroutines.moments 7) := by decide +kernel
  have htyped : withSubroutines.Types CallFree := fun _ hline => absurd hline List.not_mem_nil
  have hstart : withSubroutines.control.gosubStack = [] := rfl
  obtain ⟨hstack, hreturns⟩ := calls_return withSubroutines 7 htyped hnested hlines
  exact ⟨hnested, hlines, by decide +kernel, hstack.trans hstart, hreturns⟩

end Machine
end BasicMachine
