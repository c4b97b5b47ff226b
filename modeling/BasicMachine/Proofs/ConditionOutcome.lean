import BasicMachine.Proofs.Conditional
import BasicMachine.Proofs.MemoryBlock

/-! The outcome of a line that begins with `IF`, whatever stands in it. The three arguments of the comparison are
read first, and a fault in them leaves the machine as it is. What becomes of a result is up to the argument
behind: `THEN` keeps the rest of the line as the next command, `AND` never comes to a second comparison, and
anything else is a fault, behind which the result is remembered if there was a word or nothing at all. -/
namespace BasicMachine

namespace Call

variable {α β : Type}

/-- The step reads the arguments from one place to another, if it comes to a value, and leaves the machine as it
is. -/
def Reads (x : Run Call α) (m : Machine) (l : List Token) (k k' : Nat) (r : Except Fault α) : Prop :=
  ∃ args, x.run ⟨m, ⟨l, k⟩⟩ = (r, ⟨m, args⟩) ∧ ∀ a, r = .ok a → args = ⟨l, k'⟩

namespace Reads

variable {m : Machine} {l : List Token} {i j k : Nat}

protected theorem ofExcept (r : Except Fault α) : Reads (Run.ofExcept r) m l k k r := ⟨⟨l, k⟩, rfl, fun _ _ => rfl⟩

protected theorem bind {x : Run Call α} {f : α → Run Call β} {r : Except Fault α} {g : α → Except Fault β}
    (hx : Reads x m l i j r) (hf : ∀ a, Reads (f a) m l j k (g a)) : Reads (x >>= f) m l i k (r >>= g) := by
  obtain ⟨args, hrun, hargs⟩ := hx
  cases r with
  | error e => exact ⟨args, Run.run_bind_error hrun, by nofun⟩
  | ok a =>
    obtain rfl := hargs a rfl
    obtain ⟨args', hrun', hargs'⟩ := hf a
    exact ⟨args', (Run.run_bind_ok hrun).trans hrun', hargs'⟩

end Reads

/-- What is read in the argument at a place. -/
def readAt (read : Token → Except Fault α) (l : List Token) (k : Nat) : Except Fault α :=
  match l[k]? with
  | some t => read t
  | none => .error .notEnoughArguments

theorem reads_nextAs (read : Machine → Token → Except Fault α) (m : Machine) (l : List Token) {k : Nat}
    (hk : (k : Int) < indexLimit) : Reads (nextAs read) m l k (k + 1) (readAt (read m) l k) := by
  unfold readAt
  cases hitem : l[k]? with
  | some t =>
    have hnext : Arguments.Has l k t := ⟨by omega, hk, hitem⟩
    exact ⟨⟨l, k + 1⟩, run_nextAs read hnext, fun _ _ => rfl⟩
  | none =>
    refine ⟨⟨l, k⟩, ?_, by nofun⟩
    rw [run_nextAs_current, current_none hitem]

/-- The comparison that the three arguments from a place on make. -/
def compared (m : Machine) (l : List Token) (k : Nat) : Except Fault Bool := do
  let a ← readAt (Token.toNumeric m) l k
  let c ← readAt Token.toSymbol l (k + 1) >>= fun s =>
    if Comparison.symbols.contains s then .ok s else .error (.expectedOneOf Comparison.symbols s)
  let b ← readAt (Token.toNumeric m) l (k + 2)
  return (Comparison.ofSymbol c).holds a b

theorem reads_condition (m : Machine) (l : List Token) {k : Nat} (hk : (k + 2 : Int) < indexLimit) :
    Reads condition m l k (k + 3) (compared m l k) := by
  apply (reads_nextAs Token.toNumeric m l (by omega)).bind
  intro a
  apply Reads.bind (j := k + 2)
  · apply (reads_nextAs (fun _ => Token.toSymbol) m l (k := k + 1) (by omega)).bind
    intro s
    unfold isOneOf
    split
    · exact .ofExcept (.ok s)
    · exact .ofExcept (.error _)
  · intro c
    apply (reads_nextAs Token.toNumeric m l (k := k + 2) (by omega)).bind
    intro b
    exact .ofExcept (.ok _)

end Call

namespace Machine

def judged (m : Machine) (result : Bool) : Machine :=
  { m with control := { m.control with lastIf := result } }

/-- What becomes of a condition with the argument behind it and the rest of the line. -/
def concluded (m : Machine) (result : Bool) (rest : List Token) : Option Token → Except Fault Unit × Machine
  | none => (.error .notEnoughArguments, m.judged result)
  | some (.word w) =>
    if upper w = "AND".toList then (.error (if result then .unknownNumericKeyword else .endless), m)
    else if upper w = "THEN".toList then (.ok (), m.decided result rest)
    else (.error (.expected "THEN".toList (upper w)), m.judged result)
  | some _ => (.error (.unexpectedToken .word), m)

section Conclusion

variable (m : Machine) (result : Bool) {l : List Token}

theorem run_andAlso_other (h : l[4]? = none ∨ ∃ w, l[4]? = some (.word w) ∧ upper w ≠ "AND".toList) :
    (Command.andAlso result).run ⟨m, ⟨l, 4⟩⟩ = (.ok result, ⟨m, ⟨l, 4⟩⟩) := by
  have hlook : (Call.hasWordIs "AND".toList).run ⟨m, ⟨l, 4⟩⟩ = (.ok false, ⟨m, ⟨l, 4⟩⟩) := by
    rcases h with hnone | ⟨w, hw, hand⟩
    · have hcurrent : Arguments.current ⟨l, 4⟩ = .ok none := Call.current_none (k := 4) hnone
      simp only [Call.hasWordIs, Call.look, Run.run_bind, Run.run_get, Run.run_ofExcept, hcurrent, Run.run_pure]
    · have hhas : Arguments.Has l 4 (.word w) := ⟨by decide, by decide, hw⟩
      simp only [Call.hasWordIs, Call.look, Run.run_bind, Run.run_get, Run.run_ofExcept, hhas.current,
        Token.toWord, Run.run_pure, beq_false_of_ne hand]
  exact Run.run_bind_ok hlook

theorem run_conclude_of {e : Fault} {args : Arguments}
    (h : (Call.nextWordIs "THEN".toList).run ⟨m.judged result, ⟨l, 4⟩⟩ = (.error e, ⟨m.judged result, args⟩)) :
    (Command.conclude result).run ⟨m, ⟨l, 4⟩⟩ = (.error e, ⟨m.judged result, args⟩) := by
  have hchange : (Command.changeControl fun c => { c with lastIf := result }).run ⟨m, ⟨l, 4⟩⟩ =
      (.ok (), ⟨m.judged result, ⟨l, 4⟩⟩) := rfl
  rw [Command.conclude, Run.run_bind_ok hchange, Run.run_bind_error h]

/-- The argument behind the comparison says what becomes of its result. -/
theorem run_andAlso_conclude (l : List Token) :
    ∃ args, (Command.andAlso result >>= Command.conclude).run ⟨m, ⟨l, 4⟩⟩ =
      ((m.concluded result (l.drop 5) l[4]?).1, ⟨(m.concluded result (l.drop 5) l[4]?).2, args⟩) := by
  cases hitem : l[4]? with
  | none =>
    have hcurrent : Arguments.current ⟨l, 4⟩ = .ok none := Call.current_none (k := 4) hitem
    refine ⟨⟨l, 4⟩, ?_⟩
    rw [Run.run_bind_ok (run_andAlso_other m result (.inl hitem))]
    apply run_conclude_of
    simp only [Call.nextWordIs, Call.nextWord, Run.run_bind, Call.run_nextAs_current, hcurrent]
  | some t =>
    have hhas : Arguments.Has l 4 t := ⟨by decide, by decide, hitem⟩
    have hword (m : Machine) : (Call.nextAs fun _ => Token.toWord).run ⟨m, ⟨l, 4⟩⟩ =
        (t.toWord, ⟨m, ⟨l, 4 + 1⟩⟩) := Call.run_nextAs _ hhas
    cases t with
    | word w =>
      by_cases hand : upper w = "AND".toList
      · have hlook : (Call.hasWordIs "AND".toList).run ⟨m, ⟨l, 4⟩⟩ = (.ok true, ⟨m, ⟨l, 4⟩⟩) := by
          simp only [Call.hasWordIs, Call.look, Run.run_bind, Run.run_get, Run.run_ofExcept, hhas.current,
            Token.toWord, Run.run_pure, hand, beq_self_eq_true]
        simp only [concluded, if_pos hand]
        cases result with
        | false =>
          have hendless : (Command.andAlso false).run ⟨m, ⟨l, 4⟩⟩ = (.error .endless, ⟨m, ⟨l, 4⟩⟩) :=
            Run.run_bind_ok hlook
          exact ⟨⟨l, 4⟩, Run.run_bind_error hendless⟩
        | true =>
          obtain ⟨args, hread, -⟩ := Call.reads_condition m l (k := 4) (by decide)
          have hvalue : Call.compared m l 4 = .error .unknownNumericKeyword := by
            simp only [Call.compared, Call.readAt, hitem, Token.toNumeric, Command.ofName?_of_and hand]
            rfl
          rw [hvalue] at hread
          have hfails : (Command.andAlso true).run ⟨m, ⟨l, 4⟩⟩ = (.error .unknownNumericKeyword, ⟨m, args⟩) :=
            (Run.run_bind_ok hlook).trans hread
          exact ⟨args, Run.run_bind_error hfails⟩
      · rw [Run.run_bind_ok (run_andAlso_other m result (.inr ⟨w, hitem, hand⟩))]
        by_cases hthen : upper w = "THEN".toList
        · have hrest : dropTo (4 + 1) l = l.drop 5 := dropTo_natCast 5 l
          simp only [concluded, if_neg hand, if_pos hthen, ← hrest]
          exact ⟨⟨l, 4 + 1⟩, run_conclude result hhas hthen⟩
        · simp only [concluded, hand, hthen, if_false]
          refine ⟨⟨l, 5⟩, run_conclude_of m result ?_⟩
          rw [Call.nextWordIs, Call.nextWord, Run.run_bind, hword]
          simp only [Token.toWord, Call.isExpected, if_neg hthen]
          rfl
    | _ =>
      -- What is not a word is refused already where `AND` is looked for.
      have hlook : (Call.hasWordIs "AND".toList).run ⟨m, ⟨l, 4⟩⟩ =
          (.error (.unexpectedToken .word), ⟨m, ⟨l, 4⟩⟩) := by
        simp only [Call.hasWordIs, Call.look, Run.run_bind, Run.run_get, Run.run_ofExcept, hhas.current,
          Token.toWord]
      exact ⟨⟨l, 4⟩, Run.run_bind_error (Run.run_bind_error hlook)⟩

end Conclusion

/-- What a line does that begins with `IF`. -/
theorem run_ifTokens_outcome {w : Text} (hw : upper w = "IF".toList) (ts : List Token) (m : Machine) :
    (runTokens (.word w :: ts)).run m = match Call.compared m (.word w :: ts) 1 with
      | .error e => (.error e, m)
      | .ok result => m.concluded result (ts.drop 4) ts[3]? := by
  have hroutine := Command.run_dispatch_word Debugger.hooks m w ts
  rw [hw] at hroutine
  obtain ⟨args, hread, hargs⟩ := Call.reads_condition m (.word w :: ts) (k := 1) (by decide)
  rw [runTokens, Command.runTokens]
  cases hvalue : Call.compared m (.word w :: ts) 1 with
  | error e =>
    rw [hvalue] at hread
    exact Command.run_withArguments (hroutine.trans (Run.run_bind_error hread))
  | ok result =>
    rw [hvalue, hargs result hvalue] at hread
    obtain ⟨args', hend⟩ := run_andAlso_conclude m result (.word w :: ts)
    exact Command.run_withArguments (hroutine.trans ((Run.run_bind_ok hread).trans hend))

end Machine

end BasicMachine
