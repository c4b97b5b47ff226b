import BasicMachine.Proofs.LoopStack

/-! The command `IF`. It reads its conditions in a loop that goes on as long as the word `AND` comes
next. The word is looked at and never taken, so a line with a single condition is decided by it, while a
second one makes the command fail behind a true condition and go on for ever behind a false one. -/
namespace BasicMachine

namespace Run

variable {σ α β : Type}

/-- The executions of a loop that come to an end: while the test says so, the body is run on the value so
far. A fault of the test or of the body ends the loop. -/
inductive LoopEnds (test : Run σ Bool) (body : β → Run σ β) : β → σ → Except Fault β × σ → Prop
  | done {b : β} {s s' : σ} (stop : test.run s = (.ok false, s')) :
    LoopEnds test body b s (.ok b, s')
  | untested {b : β} {s s' : σ} {e : Fault} (fault : test.run s = (.error e, s')) :
    LoopEnds test body b s (.error e, s')
  | broken {b : β} {s s₁ s₂ : σ} {e : Fault} (go : test.run s = (.ok true, s₁))
    (fault : (body b).run s₁ = (.error e, s₂)) : LoopEnds test body b s (.error e, s₂)
  | again {b b' : β} {s s₁ s₂ : σ} {r : Except Fault β × σ} (go : test.run s = (.ok true, s₁))
    (pass : (body b).run s₁ = (.ok b', s₂)) (rest : LoopEnds test body b' s₂ r) :
    LoopEnds test body b s r

/-- The step comes to an end from every state. -/
def Halts (x : Run σ α) : Prop := ∀ s, (x.run s).1 ≠ .error .endless

namespace Halts

protected theorem pure (a : α) : Halts (pure a : Run σ α) := by
  intro s
  simp

protected theorem throw {e : Fault} (h : e ≠ .endless) : Halts (throw e : Run σ α) := by
  intro s
  simpa using h

protected theorem ofExcept {r : Except Fault α} (h : r ≠ .error .endless) :
    Halts (ofExcept r : Run σ α) := fun _ => h

protected theorem modify (f : σ → σ) : Halts (modify f : Run σ PUnit) := by
  intro s
  simp

protected theorem bind {x : Run σ α} {f : α → Run σ β} (hx : Halts x) (hf : ∀ a, Halts (f a)) :
    Halts (x >>= f) := by
  intro s
  have hfirst := hx s
  rcases hrun : x.run s with ⟨r, s'⟩
  rw [hrun] at hfirst
  cases r with
  | error e =>
    rw [run_bind_error hrun]
    simpa using hfirst
  | ok a =>
    rw [run_bind_ok hrun]
    exact hf a s'

theorem get_bind {f : σ → Run σ α} (h : ∀ s, Halts (f s)) : Halts (get >>= f) :=
  fun s => h s s

end Halts
end Run

open Run (Halts LoopEnds)

theorem place_ne_endless {outside : Fault} (h : outside ≠ .endless) (size : Nat) (k : Int) :
    place outside size k ≠ .error .endless := by
  unfold place
  grind

theorem bind_ne_error {ε α β : Type} {x : Except ε α} {f : α → Except ε β} {e : ε}
    (hx : x ≠ .error e) (hf : ∀ a, f a ≠ .error e) : x >>= f ≠ .error e := by
  rw [Ne, bind_eq_error_iff]
  rintro (hfirst | ⟨a, -, hsecond⟩)
  · exact hx hfirst
  · exact hf a hsecond

theorem Memory.readWord_ne_endless (m : Memory) (a : Int) : m.readWord a ≠ .error .endless := by
  have hbyte (a : Int) : m.readByte a ≠ .error .endless :=
    bind_ne_error (place_ne_endless (by decide) _ _) (by simp [pure, Except.pure])
  exact bind_ne_error (hbyte a) fun _ =>
    bind_ne_error (hbyte (a + 1)) (by simp [pure, Except.pure])

theorem numericAddress_ne_endless (name : Text) : numericAddress name ≠ .error .endless := by
  unfold numericAddress
  split
  · dsimp only
    split <;> simp
  · simp

theorem stringAddress_ne_endless (name : Text) : stringAddress name ≠ .error .endless := by
  unfold stringAddress
  grind

theorem Token.toNumeric_ne_endless (m : Machine) (t : Token) :
    t.toNumeric m ≠ .error .endless := by
  cases t with
  | numericVar name =>
    exact bind_ne_error (bind_ne_error (numericAddress_ne_endless name) fun a =>
      m.memory.readWord_ne_endless a) (by simp [pure, Except.pure])
  | stringRef name => exact stringAddress_ne_endless _
  | char t =>
    simp only [toNumeric, charCode]
    grind
  | word t =>
    simp only [toNumeric]
    split <;> simp
  | _ => simp [toNumeric]

theorem Arguments.current_ne_endless (a : Arguments) : a.current ≠ .error .endless := by
  unfold Arguments.current
  split
  · exact bind_ne_error (place_ne_endless (by decide) _ _) (by simp [pure, Except.pure])
  · simp

namespace Call

theorem halts_nextAs {α : Type} {read : Machine → Token → Except Fault α}
    (h : ∀ m t, read m t ≠ .error .endless) : Halts (nextAs read) := by
  have hcurrent : Halts current := .get_bind fun s =>
    (Halts.ofExcept s.args.current_ne_endless).bind fun t => by
      cases t with
      | none => exact .throw (by decide)
      | some t => exact .pure t
  have hnext : Halts nextToken :=
    hcurrent.bind fun t => (Halts.modify _).bind fun _ => .pure t
  exact hnext.bind fun t => .get_bind fun s => .ofExcept (h s.machine t)

theorem halts_condition : Halts condition := by
  refine (halts_nextAs Token.toNumeric_ne_endless).bind fun a => ?_
  refine Halts.bind ?_ fun c => (halts_nextAs Token.toNumeric_ne_endless).bind fun b => .pure _
  refine (halts_nextAs fun _ t => ?_).bind fun c => ?_
  · cases t <;> simp [Token.toSymbol]
  · unfold isOneOf
    split
    · exact .pure _
    · exact .throw (by simp)

/-- Looking for a word finds it exactly if it comes next, and changes nothing. -/
theorem run_hasWordIs (wanted : Text) (s : Call) :
    ∃ r, (hasWordIs wanted).run s = (r, s) ∧ r ≠ .error .endless ∧
      (r = .ok true ↔ ∃ w, s.args.current = .ok (some (.word w)) ∧ upper w = wanted) := by
  have hrun : (hasWordIs wanted).run s = (match s.args.current with
      | .error e => .error e
      | .ok none => .ok false
      | .ok (some t) => (· == wanted) <$> t.toWord, s) := by
    simp only [hasWordIs, look, Run.run_bind, Run.run_get, Run.run_ofExcept]
    cases s.args.current with
    | error e => rfl
    | ok t =>
      cases t with
      | none => rfl
      | some t => cases t <;> rfl
  refine ⟨_, hrun, ?_⟩
  have hcurrent := s.args.current_ne_endless
  cases hc : s.args.current with
  | error e =>
    rw [hc] at hcurrent
    simpa using hcurrent
  | ok t =>
    cases t with
    | none => simp
    | some t => cases t <;> simp [Token.toWord, Functor.map, Except.map]

end Call

namespace Command

open Call

def asksAnd : Run Call Bool := hasWordIs "AND".toList

/-- The next condition is read only if the ones before it hold. -/
def conjoin (result : Bool) : Run Call Bool := if result then condition else pure false

theorem ofName?_of_and {w : Text} (h : upper w = "AND".toList) : Keyword.ofName? w = none := by
  rw [Keyword.ofName?, List.find?_eq_none]
  intro k _ hk
  have hw : k.name = w := by simpa using hk
  rw [← hw] at h
  cases k <;> exact absurd h (by decide)

/-- The word `AND` is no number, so no condition begins with it. -/
theorem run_condition_of_and {s : Call} {w : Text}
    (hnext : s.args.current = .ok (some (.word w))) (hw : upper w = "AND".toList) :
    ∃ s', condition.run s = (.error .unknownNumericKeyword, s') := by
  simp [condition, nextNumeric, nextAs, nextToken, current, Run.run_bind, hnext, skip, changeIndex,
    Token.toNumeric, ofName?_of_and hw]

def AndFollows (s : Call) : Prop :=
  ∃ w, s.args.current = .ok (some (.word w)) ∧ upper w = "AND".toList

/-- What looking for more conditions finds and does: a fault, no `AND`, or an `AND` that makes it fail
behind a true condition and go on for ever behind a false one. -/
theorem run_andAlso (s : Call) :
    (∃ e, asksAnd.run s = (.error e, s) ∧ e ≠ .endless ∧ ¬AndFollows s ∧
      ∀ result, (andAlso result).run s = (.error e, s)) ∨
    (asksAnd.run s = (.ok false, s) ∧ ¬AndFollows s ∧
      ∀ result, (andAlso result).run s = (.ok result, s)) ∨
    (asksAnd.run s = (.ok true, s) ∧ AndFollows s ∧
      (∃ s', condition.run s = (.error .unknownNumericKeyword, s') ∧
        (andAlso true).run s = (.error .unknownNumericKeyword, s')) ∧
      (andAlso false).run s = (.error .endless, s)) := by
  obtain ⟨t, htest, hne, htrue⟩ := run_hasWordIs "AND".toList s
  cases t with
  | error e =>
    refine .inl ⟨e, htest, by simpa using hne, fun hand => ?_, fun result => Run.run_bind_error htest⟩
    cases htrue.mpr hand
  | ok found =>
    cases found with
    | false =>
      refine .inr (.inl ⟨htest, fun hand => ?_, fun result => Run.run_bind_ok htest⟩)
      cases htrue.mpr hand
    | true =>
      obtain ⟨w, hnext, hw⟩ := htrue.mp rfl
      obtain ⟨s', hfault⟩ := run_condition_of_and hnext hw
      exact .inr (.inr ⟨htest, ⟨w, hnext, hw⟩, ⟨s', hfault, (Run.run_bind_ok htest).trans hfault⟩,
        Run.run_bind_ok htest⟩)

/-- The loop over the conditions comes to an end exactly where looking for more of them does, and then
in the same way. -/
theorem loopEnds_iff (result : Bool) (s : Call) (r : Except Fault Bool × Call) :
    LoopEnds asksAnd conjoin result s r ↔ (andAlso result).run s = r ∧ r.1 ≠ .error .endless := by
  constructor
  · intro h
    induction h with
    | @done result s s' stop =>
      rcases run_andAlso s with ⟨e, htest, -⟩ | ⟨htest, -, hrun⟩ | ⟨htest, -⟩ <;>
        rw [htest] at stop <;> cases stop
      exact ⟨hrun result, by simp⟩
    | @untested result s s' e fault =>
      rcases run_andAlso s with ⟨e, htest, hne, -, hrun⟩ | ⟨htest, -⟩ | ⟨htest, -⟩ <;>
        rw [htest] at fault <;> cases fault
      exact ⟨hrun result, by simpa using hne⟩
    | @broken result s s₁ s₂ e go fault =>
      rcases run_andAlso s with ⟨e, htest, -⟩ | ⟨htest, -⟩ | ⟨htest, -, ⟨s', hfault, hrun⟩, -⟩ <;>
        rw [htest] at go <;> cases go
      cases result with
      | false => cases fault
      | true =>
        rw [conjoin, if_pos rfl, hfault] at fault
        cases fault
        exact ⟨hrun, by simp⟩
    | @again result result' s s₁ s₂ r go pass rest ih =>
      rcases run_andAlso s with
        ⟨e, htest, -⟩ | ⟨htest, -⟩ | ⟨htest, -, ⟨s', hfault, -⟩, hendless⟩ <;>
        rw [htest] at go <;> cases go
      cases result with
      | true =>
        rw [conjoin, if_pos rfl, hfault] at pass
        cases pass
      | false =>
        -- The pass changes neither the value nor the place, so the loop is where it was.
        cases pass
        obtain ⟨hrun, hne⟩ := ih
        rw [hendless] at hrun
        exact absurd (hrun ▸ rfl) hne
  · rintro ⟨rfl, hne⟩
    rcases run_andAlso s with
      ⟨e, htest, -, -, hrun⟩ | ⟨htest, -, hrun⟩ | ⟨htest, -, ⟨s', hfault, hrun⟩, hendless⟩
    · rw [hrun result]
      exact .untested htest
    · rw [hrun result]
      exact .done htest
    · cases result with
      | true =>
        rw [hrun]
        exact .broken htest hfault
      | false => exact absurd (by rw [hendless]) hne

/-- What follows the conditions of `IF`. -/
def conclude (result : Bool) : Routine := do
  changeControl fun c => { c with lastIf := result }
  nextWordIs "THEN".toList
  if result then deferRest

/-- The executions of `IF` that come to an end. -/
inductive IfEnds (s : Call) : Except Fault Unit × Call → Prop
  | unread {s' : Call} {e : Fault} (fault : condition.run s = (.error e, s')) :
    IfEnds s (.error e, s')
  | broken {s₁ s₂ : Call} {first : Bool} {e : Fault} (read : condition.run s = (.ok first, s₁))
    (loop : LoopEnds asksAnd conjoin first s₁ (.error e, s₂)) : IfEnds s (.error e, s₂)
  | concluded {s₁ s₂ : Call} {first result : Bool} (read : condition.run s = (.ok first, s₁))
    (loop : LoopEnds asksAnd conjoin first s₁ (.ok result, s₂)) : IfEnds s ((conclude result).run s₂)

theorem halts_conclude (result : Bool) : Halts (conclude result) := by
  have hchange (f : Control → Control) : Halts (changeControl f) := by
    intro s h
    cases h
  have hthen : Halts (nextWordIs "THEN".toList) := by
    refine (halts_nextAs fun _ t => ?_).bind fun found => ?_
    · cases t <;> simp [Token.toWord]
    · unfold isExpected
      split
      · exact .pure ()
      · exact .throw (by simp)
  refine (hchange _).bind fun _ => hthen.bind fun _ => ?_
  split
  · exact .get_bind fun s => hchange _
  · exact .pure ()

theorem ifEnds_iff (s : Call) (r : Except Fault Unit × Call) :
    IfEnds s r ↔ runIf.run s = r ∧ r.1 ≠ .error .endless := by
  have hdef : runIf = condition >>= fun first => andAlso first >>= conclude := rfl
  constructor
  · intro h
    cases h with
    | @unread s' e fault =>
      have hhalts := halts_condition s
      rw [fault] at hhalts
      exact ⟨Run.run_bind_error fault, by simpa using hhalts⟩
    | @broken s₁ s₂ first e read loop =>
      obtain ⟨hrun, hne⟩ := (loopEnds_iff ..).mp loop
      rw [hdef, Run.run_bind_ok read, Run.run_bind_error hrun]
      exact ⟨rfl, by simpa using hne⟩
    | @concluded s₁ s₂ first result read loop =>
      obtain ⟨hrun, -⟩ := (loopEnds_iff ..).mp loop
      rw [hdef, Run.run_bind_ok read, Run.run_bind_ok hrun]
      exact ⟨rfl, halts_conclude result s₂⟩
  · rintro ⟨rfl, hne⟩
    rcases hread : condition.run s with ⟨first, s₁⟩
    cases first with
    | error e =>
      rw [hdef, Run.run_bind_error hread]
      exact .unread hread
    | ok first =>
      rw [hdef, Run.run_bind_ok hread] at hne ⊢
      rcases hloop : (andAlso first).run s₁ with ⟨result, s₂⟩
      cases result with
      | error e =>
        rw [Run.run_bind_error hloop] at hne ⊢
        exact .broken hread ((loopEnds_iff ..).mpr ⟨hloop, by simpa using hne⟩)
      | ok result =>
        rw [Run.run_bind_ok hloop]
        exact .concluded hread ((loopEnds_iff ..).mpr ⟨hloop, by simp⟩)

/-- `IF` comes to an end exactly if its first condition is not a false one with the word `AND` behind it. -/
theorem exists_ifEnds_iff (s : Call) :
    (∃ r, IfEnds s r) ↔ ¬∃ s₁, condition.run s = (.ok false, s₁) ∧ AndFollows s₁ := by
  have hdef : runIf = condition >>= fun first => andAlso first >>= conclude := rfl
  constructor
  · rintro ⟨r, h⟩ ⟨s₁, hread, hand⟩
    obtain ⟨rfl, hne⟩ := (ifEnds_iff s r).mp h
    rcases run_andAlso s₁ with ⟨e, -, -, hno, -⟩ | ⟨-, hno, -⟩ | ⟨-, -, -, hendless⟩
    · exact hno hand
    · exact hno hand
    · rw [hdef, Run.run_bind_ok hread, Run.run_bind_error hendless] at hne
      exact hne rfl
  · intro hno
    refine ⟨runIf.run s, (ifEnds_iff s _).mpr ⟨rfl, ?_⟩⟩
    have hhalts := halts_condition s
    rcases hread : condition.run s with ⟨first, s₁⟩
    cases first with
    | error e =>
      rw [hread] at hhalts
      rw [hdef, Run.run_bind_error hread]
      simpa using hhalts
    | ok first =>
      rw [hdef, Run.run_bind_ok hread]
      rcases run_andAlso s₁ with
        ⟨e, -, hne, -, hrun⟩ | ⟨-, -, hrun⟩ | ⟨-, hand, ⟨s', -, hrun⟩, -⟩
      · rw [Run.run_bind_error (hrun first)]
        simpa using hne
      · rw [Run.run_bind_ok (hrun first)]
        exact halts_conclude first s₁
      · cases first with
        | true =>
          rw [Run.run_bind_error hrun]
          simp
        | false => exact absurd ⟨s₁, hread, hand⟩ hno

end Command

/-- A line with conditions that are joined by `AND`, and a command behind them. -/
def ifLine (c : Condition) (cs : List Condition) (x : List Token) : List Token :=
  .word "IF".toList :: (c.tokens ++ ((cs.flatMap fun d => .word "AND".toList :: d.tokens) ++
    .word "THEN".toList :: x))

namespace Machine

/-- The machine with the result of a condition and, if that is true, a command to run next. -/
def decided (m : Machine) (result : Bool) (x : List Token) : Machine :=
  { m with control := { m.control with
      lastIf := result, pending := if result then some x else m.control.pending } }

theorem run_ifTokens (m : Machine) (c : Condition) (rest : List Token) :
    (runTokens (.word "IF".toList :: (c.tokens ++ rest))).run m =
      match c.holds m with
      | .error e => (.error e, m)
      | .ok first =>
        let (r, s) := (Command.andAlso first >>= Command.conclude).run
          ⟨m, ⟨.word "IF".toList :: (c.tokens ++ rest), 4⟩⟩
        (r, s.machine) := by
  obtain ⟨args, hread, hargs⟩ := @Condition.run_condition c m
    (.word "IF".toList :: (c.tokens ++ rest)) 1 ⟨by decide, by decide, rfl⟩ ⟨by decide, by decide, rfl⟩
    ⟨by decide, by decide, rfl⟩
  have hroutine := Command.run_dispatch_word Debugger.hooks m "IF".toList (c.tokens ++ rest)
  rw [runTokens, Command.runTokens]
  cases hvalue : c.holds m with
  | error e =>
    rw [hvalue] at hread
    exact Command.run_withArguments (hroutine.trans (Run.run_bind_error hread))
  | ok first =>
    rw [hvalue, hargs first hvalue] at hread
    exact Command.run_withArguments (hroutine.trans (Run.run_bind_ok hread))

theorem run_conclude {m : Machine} {ts : List Token} {k : Int} {w : Text} (result : Bool)
    (h : Arguments.Has ts k (.word w)) (hw : upper w = "THEN".toList) :
    (Command.conclude result).run ⟨m, ⟨ts, k⟩⟩ =
      (.ok (), ⟨m.decided result (dropTo (k + 1) ts), ⟨ts, k + 1⟩⟩) := by
  have hword (n : Machine) : (Call.nextWordIs "THEN".toList).run ⟨n, ⟨ts, k⟩⟩ =
      (.ok (), ⟨n, ⟨ts, k + 1⟩⟩) := by
    rw [Call.nextWordIs, Run.run_bind, Call.nextWord, Call.run_nextAs _ h, Token.toWord, hw]
    rfl
  have hchange : (Command.changeControl fun c => { c with lastIf := result }).run ⟨m, ⟨ts, k⟩⟩ =
      (.ok (), ⟨{ m with control := { m.control with lastIf := result } }, ⟨ts, k⟩⟩) := rfl
  rw [Command.conclude, Run.run_bind_ok hchange, Run.run_bind_ok (hword _)]
  cases result <;> rfl

/-- A line with a single condition is decided by it. -/
theorem run_ifLine_single (m : Machine) (c : Condition) (x : List Token) :
    (runTokens (ifLine c [] x)).run m =
      match c.holds m with
      | .error e => (.error e, m)
      | .ok result => (.ok (), m.decided result x) := by
  have hthen : Arguments.Has (ifLine c [] x) 4 (.word "THEN".toList) :=
    ⟨by decide, by decide, rfl⟩
  have hrest : dropTo (4 + 1) (ifLine c [] x) = x := by
    simp [dropTo, bound, ifLine, Condition.tokens]
  rw [ifLine, run_ifTokens, ← ifLine]
  cases c.holds m with
  | error e => rfl
  | ok result =>
    have hnone : (Command.andAlso result).run ⟨m, ⟨ifLine c [] x, 4⟩⟩ =
        (.ok result, ⟨m, ⟨ifLine c [] x, 4⟩⟩) := by
      simp [Command.andAlso, Call.hasWordIs, Call.look, Run.run_bind, hthen.current, Token.toWord]
    have hend := (Run.run_bind_ok hnone).trans (run_conclude result hthen rfl)
    rw [hrest] at hend
    exact congrArg (fun r : Except Fault Unit × Call => (r.1, r.2.machine)) hend

/-- A second condition makes the line fail behind a true one and go on for ever behind a false one. -/
theorem run_ifLine_more (m : Machine) (c d : Condition) (cs : List Condition) (x : List Token)
    {first : Bool} (h : c.holds m = .ok first) :
    ((runTokens (ifLine c (d :: cs) x)).run m).1 =
      .error (if first then .unknownNumericKeyword else .endless) := by
  have hand : Arguments.Has (ifLine c (d :: cs) x) 4 (.word "AND".toList) :=
    ⟨by decide, by decide, rfl⟩
  rw [ifLine, run_ifTokens, ← ifLine, h]
  rcases Command.run_andAlso ⟨m, ⟨ifLine c (d :: cs) x, 4⟩⟩ with
    ⟨e, -, -, hno, -⟩ | ⟨-, hno, -⟩ | ⟨-, -, ⟨s', -, htrue⟩, hfalse⟩
  · exact absurd ⟨_, hand.current, rfl⟩ hno
  · exact absurd ⟨_, hand.current, rfl⟩ hno
  · cases first with
    | true => exact congrArg Prod.fst (Run.run_bind_error (f := Command.conclude) htrue)
    | false => exact congrArg Prod.fst (Run.run_bind_error (f := Command.conclude) hfalse)

end Machine

def allHold (m : Machine) (cs : List Condition) : Bool := cs.all fun c => c.holds m = .ok true

/-- The line runs, its result is that of all its conditions together, and the command behind them comes
next exactly if they all hold. -/
def DecidesTogether (m : Machine) (c : Condition) (cs : List Condition) (x : List Token) : Prop :=
  ∃ m', (Machine.runTokens (ifLine c cs x)).run m = (.ok (), m') ∧
    m'.control.lastIf = allHold m (c :: cs) ∧
    m'.control.pending = if allHold m (c :: cs) then some x else m.control.pending

/-- A line of conditions that all have a value decides by all of them together exactly if there is only
one. -/
theorem decidesTogether_iff {m : Machine} {c : Condition} {cs : List Condition} (x : List Token)
    (h : ∀ d ∈ c :: cs, ∃ b, d.holds m = .ok b) : DecidesTogether m c cs x ↔ cs = [] := by
  obtain ⟨first, hfirst⟩ := h c (by simp)
  constructor
  · rintro ⟨m', hrun, -⟩
    cases cs with
    | nil => rfl
    | cons d cs =>
      have hfault := m.run_ifLine_more c d cs x hfirst
      rw [hrun] at hfault
      cases hfault
  · rintro rfl
    have hall : allHold m [c] = first := by simp [allHold, hfirst]
    have hrun := m.run_ifLine_single c x
    rw [hfirst] at hrun
    rw [DecidesTogether, hall]
    exact ⟨m.decided first x, hrun, rfl, rfl⟩

/-- The executions of `IF` that come to an end are its runs without the fault of an endless loop. There
is one on every argument list but those with a false first condition and `AND` behind it, and the
command decides by the conjunction of its conditions exactly if there is a single one. -/
theorem conditional_ends_and_conjoins_iff (s : Call) (m : Machine) (c : Condition) (cs : List Condition)
    (x : List Token) :
    (∀ r, Command.IfEnds s r ↔ Command.runIf.run s = r ∧ r.1 ≠ .error .endless) ∧
    ((∃ r, Command.IfEnds s r) ↔
      ¬∃ s₁, Call.condition.run s = (.ok false, s₁) ∧ Command.AndFollows s₁) ∧
    ((∀ d ∈ c :: cs, ∃ b, d.holds m = .ok b) → (DecidesTogether m c cs x ↔ cs = [])) :=
  ⟨Command.ifEnds_iff s, Command.exists_ifEnds_iff s, decidesTogether_iff x⟩

/-- `A = 1`, the command of the lines below. -/
def setFirst : List Token := [.numericVar ['A'], .symbol ['='], .number 1]

/-- The line `IF A < 5 THEN A = 1`. -/
theorem decidesTogether_below_five :
    (∀ d ∈ [(⟨.numericVar ['A'], .less, .number 5⟩ : Condition)], ∃ b, d.holds {} = .ok b) ∧
      DecidesTogether {} ⟨.numericVar ['A'], .less, .number 5⟩ [] setFirst := by
  have hvalue : ∀ d ∈ [(⟨.numericVar ['A'], .less, .number 5⟩ : Condition)],
      ∃ b, d.holds {} = .ok b := by
    intro d hd
    rw [List.mem_singleton.mp hd]
    exact ⟨true, by decide +kernel⟩
  have hline := (conditional_ends_and_conjoins_iff ⟨{}, ⟨[], 0⟩⟩ {} _ [] setFirst).2.2 hvalue
  exact ⟨hvalue, hline.mpr rfl⟩

/-- The line `IF 1 = 1 AND 2 = 2 THEN A = 1` fails, and `IF 1 = 2 AND 2 = 2 THEN A = 1` never ends. -/
theorem conjunction_fails_or_never_ends :
    ((Machine.runTokens (ifLine ⟨.number 1, .equal, .number 1⟩ [⟨.number 2, .equal, .number 2⟩]
      setFirst)).run {}).1 = .error .unknownNumericKeyword ∧
    ¬∃ r, Command.IfEnds ⟨{}, ⟨ifLine ⟨.number 1, .equal, .number 2⟩ [⟨.number 2, .equal, .number 2⟩]
      setFirst, 1⟩⟩ r := by
  refine ⟨by decide +kernel, fun h => ?_⟩
  exact (Command.exists_ifEnds_iff _).mp h ⟨_, rfl, _, rfl, by decide⟩

end BasicMachine
