import BasicMachine.Interpreter

/-! What a command finds when it takes its arguments from a line, and which routine a line that begins
with a word runs. -/
namespace BasicMachine

/-- `t` is the argument at the index `k`. -/
structure Arguments.Has (ts : List Token) (k : Int) (t : Token) : Prop where
  nonneg : 0 ≤ k
  small : k < indexLimit
  item : ts[k.toNat]? = some t

namespace Arguments.Has

variable {ts : List Token} {k : Int} {t : Token}

theorem lt_length (h : Has ts k t) : k < ts.length := by
  have hlt : k.toNat < ts.length := (List.getElem?_eq_some_iff.mp h.item).1
  have h0 := h.nonneg
  omega

theorem current (h : Has ts k t) : Arguments.current ⟨ts, k⟩ = .ok (some t) := by
  simp only [Arguments.current, hasMore, h.lt_length, decide_true, if_true,
    place_inside h.nonneg h.lt_length h.small]
  exact congrArg Except.ok h.item

end Arguments.Has

namespace Call

variable {m : Machine} {ts : List Token} {k : Int} {t : Token}

@[simp] theorem run_liftM {α : Type} (x : Action α) (c : Call) :
    (liftM x : Run Call α).run c = ((x.run c.machine).1, { c with machine := (x.run c.machine).2 }) := rfl

theorem current_none {l : List Token} {k : Nat} (h : l[k]? = none) : Arguments.current ⟨l, k⟩ = .ok none := by
  have hlength : l.length ≤ k := List.getElem?_eq_none_iff.mp h
  rw [Arguments.current, if_neg (by simpa [Arguments.hasMore] using hlength)]

theorem run_hasAny (h : Arguments.Has ts k t) :
    hasAny.run ⟨m, ⟨ts, k⟩⟩ = (.ok true, ⟨m, ⟨ts, k⟩⟩) := by
  simp [hasAny, Arguments.hasMore, Run.run_map, h.lt_length]

theorem run_has (p : Token → Bool) (h : Arguments.Has ts k t) :
    (has p).run ⟨m, ⟨ts, k⟩⟩ = (.ok (p t), ⟨m, ⟨ts, k⟩⟩) := by
  simp [has, look, Run.run_bind, Run.run_map, h.current]

theorem run_nextAs_current {α : Type} (read : Machine → Token → Except Fault α) (c : Call) :
    (nextAs read).run c = match c.args.current with
      | .ok (some t) => (read c.machine t, ⟨c.machine, ⟨c.args.tokens, c.args.index + 1⟩⟩)
      | .ok none => (.error .notEnoughArguments, c)
      | .error e => (.error e, c) := by
  simp only [nextAs, nextToken, current, Run.run_bind, Run.run_get, Run.run_ofExcept]
  rcases c.args.current with e | (_ | t) <;> rfl

theorem run_nextAs {α : Type} (read : Machine → Token → Except Fault α) (h : Arguments.Has ts k t) :
    (nextAs read).run ⟨m, ⟨ts, k⟩⟩ = (read m t, ⟨m, ⟨ts, k + 1⟩⟩) := by
  simp [nextAs, nextToken, current, skip, changeIndex, Run.run_bind, h.current]

end Call

namespace Command

/-- The command that tokens begin with. -/
def commandOf? : List Token → Option Command
  | .numericVar _ :: _ => some assign
  | .stringVar _ :: _ => some buildString
  | .word w :: _ => ofName? (upper w)
  | _ => none

/-- What tokens run that begin with a given one. -/
def firstRoutine (h : Hooks) : Token → Routine
  | .comment _ | .label _ => pure ()
  | .numericVar _ => runAssign h
  | .stringVar _ => runBuildString h
  | .word w => do
    Call.skip
    dispatch.execute h (upper w)
  | _ => throw .noCommand

theorem run_dispatch_cons (h : Hooks) (m : Machine) (t : Token) (ts : List Token) :
    (dispatch h).run ⟨m, ⟨t :: ts, 0⟩⟩ = (firstRoutine h t).run ⟨m, ⟨t :: ts, 0⟩⟩ := by
  have hfirst : Arguments.Has (t :: ts) 0 t := ⟨by decide, by decide, rfl⟩
  cases t <;> simp [dispatch, firstRoutine, routine, Call.hasSilent, Call.hasNumericVar,
    Call.hasStringVar, Call.hasWord, Call.nextWord, Call.skip, Call.changeIndex, Run.run_bind,
    Call.run_hasAny hfirst, Call.run_has _ hfirst, Call.run_nextAs _ hfirst, Token.isSilent,
    Token.isNumericVar, Token.isStringVar, Token.isWord, Token.toWord]

/-- A line that begins with a word runs the command of that name. -/
theorem run_dispatch_word (h : Hooks) (m : Machine) (w : Text) (ts : List Token) :
    (dispatch h).run ⟨m, ⟨.word w :: ts, 0⟩⟩ =
      (dispatch.execute h (upper w)).run ⟨m, ⟨.word w :: ts, 1⟩⟩ :=
  run_dispatch_cons h m (.word w) ts

theorem run_dispatch_command (h : Hooks) (m : Machine) {w : Text} {c : Command}
    (hname : ofName? (upper w) = some c) (ts : List Token) :
    (dispatch h).run ⟨m, ⟨.word w :: ts, 0⟩⟩ = (c.routine h).run ⟨m, ⟨.word w :: ts, 1⟩⟩ := by
  rw [run_dispatch_word, dispatch.execute, hname]

theorem run_withArguments {tokens : List Token} {r : Routine} {m : Machine}
    {result : Except Fault Unit} {c : Call}
    (h : r.run ⟨m, ⟨tokens, 0⟩⟩ = (result, c)) :
    (withArguments tokens r).run m = (result, c.machine) := by
  simp [withArguments, h]

theorem run_attempt {α : Type} (x : Run Call α) (code : Fault → Option Int) (done : α → Routine)
    (c : Call) :
    (attempt x code done).run c = match x.run c with
      | (.ok a, c') => (done a).run c'
      | (.error e, c') => match code e with
        | some n => (setResult n).run c'
        | none => (.error e, c') := by
  unfold attempt
  rcases hx : x.run c with ⟨result, c'⟩
  cases result with
  | ok a => simp [Run.run_bind, Run.run_map, Run.run_tryCatch, hx]
  | error e =>
    cases hcode : code e with
    | none => simp [Run.run_bind, Run.run_map, Run.run_tryCatch, hx, hcode]
    | some n => simp [Run.run_bind, Run.run_map, Run.run_tryCatch, hx, hcode]

end Command
end BasicMachine
