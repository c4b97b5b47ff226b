import BasicMachine.Proofs.Alternatives
import BasicMachine.Proofs.AssignedValues
import BasicMachine.Proofs.ConditionOutcome
import BasicMachine.Proofs.LetterCase
import BasicMachine.Proofs.LineLayout
import BasicMachine.Proofs.PromptLikeness

/-! Words in capitals and in small letters. The names of commands and the words that a command looks for are
compared in capitals, but a keyword is looked up as it is written. So two lines that differ in the case of their
words do the same exactly as long as no keyword in their arguments is changed. A label is looked for as it is
written too, and is left as it is here. The two runs are related step by step; behind `IF` and `ELSE` the rest of
the line is kept for later, and there the lines are related again, as what they are: two ways to write a command.
-/
namespace BasicMachine

open Run (AlikeAt Alike Steady)

abbrev SameButOutput : Machine → Machine → Prop := Alongside Eq

namespace SameButOutput

theorem sameMemory : SameMemory Eq where
  memory := by rintro c _ rfl; rfl
  settings := by rintro c _ rfl; rfl
  write := by rintro c _ rfl memory; rfl
  set := by rintro c _ rfl settings; rfl
  keep := by rintro c _ rfl blocks; rfl

theorem likeness : Likeness Eq :=
  sameMemory.likeness (by rintro c _ rfl; exact ⟨_, _, rfl⟩) (by rintro c _ rfl s; rfl)

theorem needs (c : Command) : c.Needs Eq := by
  cases c with
  | gosub => rintro c _ rfl; rfl
  | ifThen | elseThen => exact ⟨by rintro c _ rfl; rfl, by rintro c _ rfl lastIf pending; rfl⟩
  | includeFile | load | save | peek | poke | peekInt | pokeInt | readData => exact sameMemory
  | _ => trivial

theorem sameInput : SameInput Eq fun _ => True where
  input := by rintro c _ rfl; rfl
  typed _ _ _ _ _ := trivial
  take := by rintro c _ rfl line rest hlines; rfl

theorem steady_hooks : Debugger.hooks.Steady SameButOutput :=
  Debugger.steady_hooks likeness sameInput fun _ _ c _ => needs c

end SameButOutput

/-- The texts differ at most in the case of their letters. -/
def SameLetters (v w : Text) : Prop := capital v = capital w

protected theorem SameLetters.symm {v w : Text} (h : SameLetters v w) : SameLetters w v := Eq.symm h

theorem SameLetters.upper_eq {v w : Text} (h : SameLetters v w) : upper v = upper w := by
  rw [← upper_capital v, ← upper_capital w, h]

/-- The tokens are the same, or words that differ in case and may be written for each other. -/
inductive Token.Recased (changed : Text → Text → Prop) : Token → Token → Prop
  | same (t : Token) : Recased changed t t
  | word {v w : Text} (letters : SameLetters v w) (allowed : changed v w) : Recased changed (.word v) (.word w)

/-- Two ways to write the tokens of a line. The name of a command is written in any case, also where it stands
in the rest of a line behind a condition. A label is written in the same way, and in the other arguments the
words are changed as far as it is allowed. -/
inductive Recased (changed : Text → Text → Prop) : List Token → List Token → Prop
  | other {ts us : List Token} (first : ∀ w, ts.head? ≠ some (.word w))
    (args : List.Forall₂ (Token.Recased changed) ts us) : Recased changed ts us
  | command {v w : Text} {ts us : List Token} (letters : SameLetters v w)
    (whole : ∀ c ∈ Command.ofName? (upper v), c.restAt? = none)
    (label : ∀ c ∈ Command.ofName? (upper v), c.takesLabel = true → us.head? = ts.head?)
    (args : List.Forall₂ (Token.Recased changed) ts us) : Recased changed (.word v :: ts) (.word w :: us)
  | rest {v w : Text} {ts us : List Token} {c : Command} {n : Nat} (letters : SameLetters v w)
    (name : Command.ofName? (upper v) = some c) (place : c.restAt? = some n)
    (args : List.Forall₂ (Token.Recased changed) (ts.take n) (us.take n))
    (command : Recased changed (ts.drop n) (us.drop n)) : Recased changed (.word v :: ts) (.word w :: us)

namespace Recased

variable {changed : Text → Text → Prop}

protected theorem refl (ts : List Token) : Recased changed ts ts := by
  have hsame (ts : List Token) : List.Forall₂ (Token.Recased changed) ts ts :=
    List.forall₂_same.mpr fun t _ => .same t
  induction hlength : ts.length using Nat.strong_induction_on generalizing ts with
  | h length ih =>
    by_cases hword : ∃ w, ts.head? = some (.word w)
    · obtain ⟨w, hw⟩ := hword
      obtain ⟨ts, rfl⟩ := List.head?_eq_some_iff.mp hw
      by_cases hrest : ∃ c n, Command.ofName? (upper w) = some c ∧ c.restAt? = some n
      · obtain ⟨c, n, hname, hplace⟩ := hrest
        -- Without the name of the command the rest is shorter than the line.
        refine .rest rfl hname hplace (hsame _) (ih _ ?_ _ rfl)
        simp only [List.length_cons, List.length_drop] at hlength ⊢
        omega
      · refine .command rfl (fun c hc => ?_) (fun _ _ _ => rfl) (hsame ts)
        rw [Option.eq_none_iff_forall_ne_some]
        exact fun n hn => hrest ⟨c, n, hc, hn⟩
    · exact .other (not_exists.mp hword) (hsame ts)

end Recased

/-- What is read in a word hangs on its letters and on the keyword that it is. -/
theorem readAlikeFrom_of_recased {changed : Text → Text → Prop}
    (hkeys : ∀ v w, SameLetters v w → changed v w → Keyword.ofName? v = Keyword.ofName? w) {ts us : List Token}
    (h : List.Forall₂ (Token.Recased changed) ts us) : ReadAlikeFrom 0 ts us where
  length := h.length_eq.symm
  tokens i _ t u ht hu := by
    induction h generalizing i with
    | nil => cases ht
    | cons hfirst _ ih =>
      cases i with
      | zero =>
        cases ht
        cases hu
        cases hfirst with
        | same => exact .same _
        | word letters allowed => exact .word letters.upper_eq (hkeys _ _ letters allowed)
      | succ i => exact ih i (Nat.zero_le i) ht hu

theorem ReadAlikeFrom.cons {k : Nat} {ts us : List Token} (h : ReadAlikeFrom k ts us) (t u : Token) :
    ReadAlikeFrom (k + 1) (t :: ts) (u :: us) where
  length := congrArg (· + 1) h.length
  tokens i hi t' u' ht hu := by
    cases i with
    | zero => omega
    | succ i => exact h.tokens i (by omega) t' u' ht hu

theorem ReadAlikeFrom.rel {ts us : List Token} (h : ReadAlikeFrom 0 ts us) (i : Nat) :
    Option.Rel Token.ReadAlike ts[i]? us[i]? := by
  by_cases hi : i < ts.length
  · have hi' : i < us.length := h.length ▸ hi
    rw [List.getElem?_eq_getElem hi, List.getElem?_eq_getElem hi']
    exact .some (h.tokens i (Nat.zero_le i) _ _ (List.getElem?_eq_getElem hi) (List.getElem?_eq_getElem hi'))
  · have hi' : us.length ≤ i := by have := h.length; omega
    rw [List.getElem?_eq_none (Nat.not_lt.mp hi), List.getElem?_eq_none hi']
    exact .none

theorem Call.readAt_alike {α : Type} {read read' : Token → Except Fault α} {l l' : List Token} {k : Nat}
    (h : Option.Rel Token.ReadAlike l[k]? l'[k]?) (hread : ∀ t u, Token.ReadAlike t u → read' u = read t) :
    readAt read' l' k = readAt read l k := by
  unfold readAt
  generalize l[k]? = o, l'[k]? = o' at h ⊢
  cases h with
  | none => rfl
  | some htu => exact hread _ _ htu

/-- The cores agree but for the pending command, which is written in two ways. -/
def RecasedCore (changed : Text → Text → Prop) (c d : Core) : Prop :=
  ∃ pending, Option.Rel (Recased changed) c.control.pending pending ∧
    d = { c with control := { c.control with pending } }

section Runs

variable {changed : Text → Text → Prop} {m n : Machine}

theorem recased_pending_same (pending : Option (List Token)) : Option.Rel (Recased changed) pending pending := by
  cases pending with
  | none => exact .none
  | some ts => exact .some (.refl ts)

theorem recased_of_same (h : SameButOutput m n) : Alongside (RecasedCore changed) m n := by
  obtain ⟨core, printed, logged, rfl, rfl⟩ := h
  exact ⟨m.core, printed, logged, ⟨_, recased_pending_same _, rfl⟩, rfl⟩

theorem recased_decided (h : SameButOutput m n) (result : Bool) {ts us : List Token} (hts : Recased changed ts us) :
    Alongside (RecasedCore changed) (m.decided result ts) (n.decided result us) := by
  obtain ⟨core, printed, logged, rfl, rfl⟩ := h
  cases result with
  | true => exact ⟨_, printed, logged, ⟨_, .some hts, rfl⟩, rfl⟩
  | false => exact ⟨_, printed, logged, ⟨_, recased_pending_same _, rfl⟩, rfl⟩

theorem recased_judged (h : SameButOutput m n) (result : Bool) :
    Alongside (RecasedCore changed) (m.judged result) (n.judged result) := by
  obtain ⟨core, printed, logged, rfl, rfl⟩ := h
  exact ⟨_, printed, logged, ⟨_, recased_pending_same _, rfl⟩, rfl⟩

/-- A condition comes to the same end on both sides. -/
theorem alike_concluded (h : SameButOutput m n) (result : Bool) {ts us : List Token}
    (hts : Recased changed ts us) {o o' : Option Token} (ho : Option.Rel Token.ReadAlike o o') :
    (m.concluded result ts o).1 = (n.concluded result us o').1 ∧
      Alongside (RecasedCore changed) (m.concluded result ts o).2 (n.concluded result us o').2 := by
  have hword {v w : Text} (letters : upper v = upper w) :
      (m.concluded result ts (some (.word v))).1 = (n.concluded result us (some (.word w))).1 ∧
        Alongside (RecasedCore changed) (m.concluded result ts (some (.word v))).2
          (n.concluded result us (some (.word w))).2 := by
    simp only [Machine.concluded, letters]
    split
    · exact ⟨rfl, recased_of_same h⟩
    split
    · exact ⟨rfl, recased_decided h result hts⟩
    · exact ⟨rfl, recased_judged h result⟩
  cases ho with
  | none => exact ⟨rfl, recased_judged h result⟩
  | @some t _ htu =>
    cases htu with
    | word letters => exact hword letters
    | same =>
      cases t with
      | word w => exact hword rfl
      | _ => exact ⟨rfl, recased_of_same h⟩

/-- Lines that begin with `IF` do the same on both sides. -/
theorem alike_if (h : SameButOutput m n) {v w : Text} (hv : upper v = "IF".toList) (hw : upper w = "IF".toList)
    {ts us : List Token} (hargs : ReadAlikeFrom 0 (ts.take 4) (us.take 4))
    (hrest : Recased changed (ts.drop 4) (us.drop 4)) :
    AlikeAt (Alongside (RecasedCore changed)) (Machine.runTokens (.word v :: ts))
      (Machine.runTokens (.word w :: us)) m n := by
  have hitem (i : Nat) (hi : i < 4) : Option.Rel Token.ReadAlike ts[i]? us[i]? := by
    have hrel := hargs.rel i
    rwa [List.getElem?_take_of_lt hi, List.getElem?_take_of_lt hi] at hrel
  have hnumeric (t u : Token) (htu : t.ReadAlike u) : u.toNumeric n = t.toNumeric m :=
    SameButOutput.likeness.toNumeric h htu
  have hsymbol (t u : Token) (htu : t.ReadAlike u) : u.toSymbol = t.toSymbol := by cases htu <;> rfl
  have hread {α : Type} {read read' : Token → Except Fault α}
      (h : ∀ t u, Token.ReadAlike t u → read' u = read t) (i : Nat) (hi : i < 4) :
      Call.readAt read' (.word w :: us) (1 + i) = Call.readAt read (.word v :: ts) (1 + i) := by
    rw [Nat.add_comm]
    exact Call.readAt_alike (hitem i hi) h
  have hcompared : Call.compared n (.word w :: us) 1 = Call.compared m (.word v :: ts) 1 := by
    unfold Call.compared
    rw [hread hnumeric 0 (by decide), hread hsymbol 1 (by decide), hread hnumeric 2 (by decide)]
  unfold AlikeAt
  rw [Machine.run_ifTokens_outcome hv, Machine.run_ifTokens_outcome hw, hcompared]
  cases Call.compared m (.word v :: ts) 1 with
  | error e => exact ⟨rfl, recased_of_same h⟩
  | ok result => exact alike_concluded h result hrest (hitem 3 (by decide))

theorem alike_else (h : SameButOutput m n) {v w : Text} (hv : upper v = "ELSE".toList)
    (hw : upper w = "ELSE".toList) {ts us : List Token} (hrest : Recased changed ts us) :
    AlikeAt (Alongside (RecasedCore changed)) (Machine.runTokens (.word v :: ts))
      (Machine.runTokens (.word w :: us)) m n := by
  unfold AlikeAt
  rw [Machine.run_elseTokens hv, Machine.run_elseTokens hw]
  obtain ⟨core, printed, logged, rfl, rfl⟩ := h
  refine ⟨rfl, ⟨_, printed, logged, ⟨_, ?_, rfl⟩, rfl⟩⟩
  change Option.Rel (Recased changed) (if m.control.lastIf then m.control.pending else some ts)
    (if m.control.lastIf then m.control.pending else some us)
  split
  · exact recased_pending_same _
  · exact .some hrest

theorem Arguments.current_second {t u : Token} {ts us : List Token} (hlength : ts.length = us.length)
    (hhead : us.head? = ts.head?) : Arguments.current ⟨u :: us, 1⟩ = Arguments.current ⟨t :: ts, 1⟩ := by
  cases ts with
  | nil =>
    obtain rfl : us = [] := List.length_eq_zero_iff.mp hlength.symm
    rfl
  | cons a ts =>
    obtain ⟨us, rfl⟩ := List.head?_eq_some_iff.mp hhead
    have hhas (t : Token) (ts : List Token) : Arguments.Has (t :: a :: ts) 1 a := ⟨by decide, by decide, rfl⟩
    exact (hhas u us).current.trans (hhas t ts).current.symm

theorem Command.restAt?_cases {t : Text} {c : Command} {k : Nat} (hname : Command.ofName? t = some c)
    (hplace : c.restAt? = some k) : t = "IF".toList ∧ k = 4 ∨ t = "ELSE".toList ∧ k = 0 := by
  have hfound : c.name = t := by simpa using List.find?_some hname
  cases c with
  | ifThen => exact .inl ⟨hfound.symm, (Option.some.inj hplace).symm⟩
  | elseThen => exact .inr ⟨hfound.symm, (Option.some.inj hplace).symm⟩
  | _ => cases hplace

variable (hkeys : ∀ v w, SameLetters v w → changed v w → Keyword.ofName? v = Keyword.ofName? w)
include hkeys

/-- Tokens that are written in two ways do the same. -/
theorem alike_runTokens (h : SameButOutput m n) {ts us : List Token} (hts : Recased changed ts us) :
    AlikeAt (Alongside (RecasedCore changed)) (Machine.runTokens ts) (Machine.runTokens us) m n := by
  have hread {ts us : List Token} (h : List.Forall₂ (Token.Recased changed) ts us) : ReadAlikeFrom 0 ts us :=
    readAlikeFrom_of_recased hkeys h
  cases hts with
  | other first args =>
    have hdispatch := Command.alikeAt_dispatch SameButOutput.likeness SameButOutput.steady_hooks h (hread args) first
    exact ⟨hdispatch.1, recased_of_same hdispatch.2.machine⟩
  | command letters whole label args =>
    have hdispatch := Command.alikeAt_dispatch_word SameButOutput.likeness SameButOutput.steady_hooks h
      letters.upper_eq ((hread args).cons _ _) (fun c _ => SameButOutput.needs c)
      (fun c hc htakes => Arguments.current_second args.length_eq (label c hc htakes))
      fun c hc hrest => absurd (whole c hc) hrest
    exact ⟨hdispatch.1, recased_of_same hdispatch.2.machine⟩
  | @rest v w ts us c k letters name place args command =>
    -- The rest is kept for later as it is written, so from here on the machines differ in it.
    rcases Command.restAt?_cases name place with ⟨hname, rfl⟩ | ⟨hname, rfl⟩
    · exact alike_if h hname (letters.upper_eq ▸ hname) (hread args) command
    · exact alike_else h hname (letters.upper_eq ▸ hname) command

end Runs

/-- Two ways to write a line: only the case of letters is changed, and, if the lines can be read, only in words that
may be changed. -/
structure RecasedLine (changed : Text → Text → Prop) (line line' : Text) : Prop where
  letters : SameLetters line line'
  tokens : ∀ ts us, Token.parse line = .ok ts → Token.parse line' = .ok us → Recased changed ts us

/-- The lines come to the same value, or to the same fault but for the case of the part of the line that it
names, and leave the machine in the same state but for the output and the way a pending command is written. -/
structure RunsAlike (changed : Text → Text → Prop) (m : Machine) (line line' : Text) : Prop where
  result : ((Machine.runLine line).run m).1.mapError Fault.inCapitals =
    ((Machine.runLine line').run m).1.mapError Fault.inCapitals
  machines : Alongside (RecasedCore changed) ((Machine.runLine line).run m).2 ((Machine.runLine line').run m).2

theorem Machine.run_runLine_output (line : Text) (m : Machine) :
    ∃ printed logged, (runLine line).run m =
      (Run.ofExcept (Token.parse line) >>= runTokens).run (m.withCore m.core printed logged) := by
  have hlog (t : Text) : ∃ printed logged,
      (logCommand t).run m = (.ok (), m.withCore m.core printed logged) := by
    simp only [logCommand, debug, report, record, typeLine, type, Run.run_bind, Run.run_get]
    split <;> split <;> exact ⟨_, _, rfl⟩
  obtain ⟨printed, logged, hrun⟩ := hlog ("Running command: \"".toList ++ line ++ ['"'])
  exact ⟨printed, logged, Run.run_bind_ok hrun⟩

/-- Both lines are read, or both are refused for the same reason. -/
theorem runsAlike_of_recasedLine {changed : Text → Text → Prop}
    (hkeys : ∀ v w, SameLetters v w → changed v w → Keyword.ofName? v = Keyword.ofName? w) {line line' : Text}
    (h : RecasedLine changed line line') (m : Machine) : RunsAlike changed m line line' := by
  obtain ⟨printed, logged, hrun⟩ := Machine.run_runLine_output line m
  obtain ⟨printed', logged', hrun'⟩ := Machine.run_runLine_output line' m
  have hsame : SameButOutput (m.withCore m.core printed logged) (m.withCore m.core printed' logged') :=
    ⟨m.core, printed', logged', rfl, rfl⟩
  rcases Token.parse_sameLetters h.letters with ⟨ts, us, hts, hus⟩ | ⟨e, e', he, he', hkind⟩
  · rw [hts] at hrun
    rw [hus] at hrun'
    have halike := alike_runTokens hkeys hsame (h.tokens ts us hts hus)
    refine ⟨?_, ?_⟩ <;> rw [hrun, hrun']
    · exact congrArg (Except.mapError Fault.inCapitals) halike.1
    · exact halike.2
  · rw [he] at hrun
    rw [he'] at hrun'
    refine ⟨?_, ?_⟩ <;> rw [hrun, hrun']
    · exact congrArg Except.error hkind
    · exact recased_of_same hsame

section Assigned

open Token (Canonical)

theorem SameLetters.canonical {v w : Text} (h : SameLetters v w) (hv : Canonical (.word v)) :
    Canonical (.word w) := by
  have halpha (t : Text) : (capital t).all Char.isAlpha = t.all Char.isAlpha := by
    simp only [capital, List.all_map]
    congr 1
    funext c
    exact toUpper_class (f := Char.isAlpha) (by decide) c
  cases hv with
  | word _ long letters =>
    refine .word w ?_ ?_
    · rwa [← length_capital w, ← h, length_capital]
    · rw [← List.all_eq_true, ← halpha w, ← h, halpha v, List.all_eq_true]
      exact letters

theorem Keyword.canonical_name (k : Keyword) : Canonical (.word k.name) := by
  refine .word k.name ?_ (List.all_eq_true.mp ?_) <;> cases k <;> decide

theorem Keyword.name_of_ofName? {t : Text} {k : Keyword} (h : Keyword.ofName? t = some k) : k.name = t := by
  simpa using List.find?_some h

def assignedWord (w : Text) : Text := "A = ".toList ++ w

def assignedTokens (w : Text) : List Token := [.numericVar ['A'], .symbol ['='], .word w]

theorem parse_assignedWord {w : Text} (hw : Canonical (.word w)) :
    Token.parse (assignedWord w) = .ok (assignedTokens w) := by
  have hc : ∀ t ∈ assignedTokens w, Canonical t := by
    simp only [assignedTokens, List.forall_mem_cons]
    exact ⟨.numericVar 'A' (by decide), .symbol '=' (by decide), hw, by simp⟩
  have hb : Token.Spaced ((assignedTokens w).map Token.spelling) (assignedWord w) :=
    .more _ 0 (.more _ 0 (.one _))
  have hr : ∀ t ∈ (assignedTokens w).head?, t.isRemark = false := by simp [assignedTokens, Token.isRemark]
  apply Token.parse_of_splitLine hc
  simpa using @Token.splitLine_spaced _ hc hr [] (assignedWord w) [] (by simp) (by simp) hb

theorem run_unassigned {w : Text} (hw : Keyword.ofName? w = none) (m : Machine) :
    (Machine.runTokens (assignedTokens w)).run m = (.error .unknownNumericKeyword, m) := by
  obtain ⟨hname, hequals, -⟩ := @Call.run_target m (assignedTokens w) [.word w] 0 0
    (show (3 : Int) ≤ indexLimit by decide) rfl
  have hhas : Arguments.Has (assignedTokens w) 2 (.word w) := ⟨by decide, by decide, rfl⟩
  have hread : Call.nextNumeric.run ⟨m, ⟨assignedTokens w, 2⟩⟩ =
      (.error .unknownNumericKeyword, ⟨m, ⟨assignedTokens w, 2 + 1⟩⟩) := by
    rw [Call.nextNumeric, Call.run_nextAs _ hhas, Token.toNumeric, hw]
  refine Command.run_withArguments (c := ⟨m, ⟨assignedTokens w, 2 + 1⟩⟩)
    ((Command.run_dispatch_cons Debugger.hooks m (.numericVar ['A']) _).trans ?_)
  exact (Run.run_bind_ok hname).trans ((Run.run_bind_ok hequals).trans
    (Run.run_bind_error (Run.run_bind_error hread)))

/-- A word can be assigned exactly if it is a keyword as it is written. -/
theorem isOk_assignedWord {w : Text} (hw : Canonical (.word w)) :
    ((Machine.runLine (assignedWord w)).run {}).1.isOk = (Keyword.ofName? w).isSome := by
  cases hk : Keyword.ofName? w with
  | some k =>
    obtain rfl := Keyword.name_of_ofName? hk
    cases k <;> decide +kernel
  | none =>
    obtain ⟨c, hrun⟩ := Machine.run_runLine (parse_assignedWord hw) {}
    rw [hrun, run_unassigned hk]
    rfl

theorem Keyword.eq_of_sameLetters {j k : Keyword} (h : SameLetters j.name k.name) : j = k := by
  revert h
  unfold SameLetters
  cases j <;> cases k <;> decide

/-- If the lines that assign two words do the same, the words are the same keyword or none. -/
theorem keyword_of_runsAlike {changed : Text → Text → Prop} {v w : Text} (h : SameLetters v w)
    (hruns : RunsAlike changed {} (assignedWord v) (assignedWord w)) : Keyword.ofName? v = Keyword.ofName? w := by
  have hsome (hv : Canonical (.word v)) : (Keyword.ofName? v).isSome = (Keyword.ofName? w).isSome := by
    rw [← isOk_assignedWord hv, ← isOk_assignedWord (h.canonical hv)]
    have hisOk (r : Except Fault Unit) : (r.mapError Fault.inCapitals).isOk = r.isOk := by cases r <;> rfl
    rw [← hisOk, hruns.result, hisOk]
  cases hv : Keyword.ofName? v with
  | none =>
    cases hw : Keyword.ofName? w with
    | none => rfl
    | some k =>
      obtain rfl := Keyword.name_of_ofName? hw
      have := hsome (h.symm.canonical k.canonical_name)
      simp [hv, hw] at this
  | some j =>
    obtain rfl := Keyword.name_of_ofName? hv
    have hfound := hsome j.canonical_name
    rw [hv, Option.isSome_some, eq_comm, Option.isSome_iff_exists] at hfound
    obtain ⟨k, hk⟩ := hfound
    obtain rfl := Keyword.name_of_ofName? hk
    rw [hk, Keyword.eq_of_sameLetters h]

theorem recasedLine_assignedWord {changed : Text → Text → Prop} {v w : Text} (h : SameLetters v w)
    (hallowed : changed v w) (hv : Canonical (.word v)) :
    RecasedLine changed (assignedWord v) (assignedWord w) where
  letters := by simp only [SameLetters, assignedWord, capital_append, show capital v = capital w from h]
  tokens ts us hts hus := by
    rw [parse_assignedWord hv] at hts
    rw [parse_assignedWord (h.canonical hv)] at hus
    obtain rfl := Except.ok.inj hts
    obtain rfl := Except.ok.inj hus
    exact .other (by simp [assignedTokens]) (.cons (.same _) (.cons (.same _) (.cons (.word h hallowed) .nil)))

end Assigned

/-- Lines that differ in the case of their words do the same on every machine exactly as long as no keyword in
their arguments is changed. -/
theorem runLine_sameLetters_iff (changed : Text → Text → Prop) :
    (∀ m line line', RecasedLine changed line line' → RunsAlike changed m line line') ↔
      ∀ v w, SameLetters v w → changed v w → Keyword.ofName? v = Keyword.ofName? w := by
  refine ⟨fun halike v w letters allowed => ?_, fun hkeys m line line' h => runsAlike_of_recasedLine hkeys h m⟩
  by_cases hv : Token.Canonical (.word v)
  · exact keyword_of_runsAlike letters (halike {} _ _ (recasedLine_assignedWord letters allowed hv))
  -- What is not a word is not a keyword either.
  · have hnone {t : Text} (ht : ¬Token.Canonical (.word t)) : Keyword.ofName? t = none := by
      rw [Option.eq_none_iff_forall_ne_some]
      rintro k hk
      exact ht (Keyword.name_of_ofName? hk ▸ k.canonical_name)
    rw [hnone hv, hnone (mt letters.symm.canonical hv)]

/-- The version of the system cannot be read in small letters. -/
theorem version_in_small_letters :
    RecasedLine (fun _ _ => True) "A = VERSION".toList "A = version".toList ∧
      ((Machine.runLine "A = VERSION".toList).run {}).1 = .ok () ∧
      ((Machine.runLine "A = version".toList).run {}).1 = .error .unknownNumericKeyword :=
  ⟨recasedLine_assignedWord (v := "VERSION".toList) (w := "version".toList) (by unfold SameLetters; decide) trivial
    Keyword.version.canonical_name, by decide +kernel, by decide +kernel⟩

end BasicMachine
