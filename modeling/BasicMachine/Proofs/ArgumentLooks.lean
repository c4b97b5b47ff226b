import BasicMachine.Proofs.Argument

/-! Looking at arguments. A question about the next argument never takes it and never touches the machine.
Almost every question has an answer whatever comes next. The two that ask for a certain symbol or a certain
word are the exception: they read the argument before they compare it, and that fails when it is of another
kind. -/
namespace BasicMachine

/-- The ways to take the next argument. -/
inductive Taking where
  | token | numeric | string | numericVar | stringVar | word | symbol | address | label
  | symbolIs (wanted : Text)
  | symbolOf (wanted : List Text)
  | wordIs (wanted : Text)
  | wordOf (wanted : List Text)
  deriving DecidableEq, Repr

namespace Taking

/-- Takes the argument and drops its value. -/
def take : Taking → Run Call Unit
  | token => do let _ ← Call.nextToken
  | numeric => do let _ ← Call.nextNumeric
  | string => do let _ ← Call.nextString
  | numericVar => do let _ ← Call.nextNumericVar
  | stringVar => do let _ ← Call.nextStringVar
  | word => do let _ ← Call.nextWord
  | symbol => do let _ ← Call.nextSymbol
  | address => do let _ ← Call.nextAddress
  | label => do let _ ← Call.nextLabel
  | symbolIs wanted => Call.nextSymbolIs wanted
  | symbolOf wanted => do let _ ← Call.nextSymbolOf wanted
  | wordIs wanted => Call.nextWordIs wanted
  | wordOf wanted => do let _ ← Call.nextWordOf wanted

end Taking

/-- The calls that come about when a command takes its arguments from the tokens, whether they can be read or
not, and does what it likes with the machine in between. -/
inductive Call.Reached (tokens : List Token) : Call → Prop
  | start (m : Machine) : Reached tokens ⟨m, { tokens }⟩
  | taken {c : Call} (before : Reached tokens c) (t : Taking) : Reached tokens (t.take.run c).2
  | elsewhere {c : Call} (before : Reached tokens c) (m : Machine) : Reached tokens { c with machine := m }

namespace Call

variable {α β : Type}

/-- The step leaves the arguments, or takes one that is there. -/
def Takes (x : Run Call α) : Prop :=
  ∀ c, (x.run c).2.args = c.args ∨
    c.args.hasMore = true ∧ (x.run c).2.args = { c.args with index := c.args.index + 1 }

theorem Takes.bind {x : Run Call α} {f : α → Run Call β} (hx : Takes x)
    (hf : ∀ a c, ((f a).run c).2.args = c.args) : Takes (x >>= f) := by
  intro c
  have hfirst := hx c
  rcases hrun : x.run c with ⟨r, c'⟩
  rw [hrun] at hfirst
  cases r with
  | error e => rwa [Run.run_bind_error hrun]
  | ok a =>
    rw [Run.run_bind_ok hrun, hf]
    exact hfirst

theorem takes_nextToken : Takes nextToken := by
  intro c
  simp only [nextToken, current, Run.run_bind, Run.run_get, Run.run_ofExcept]
  cases hcurrent : c.args.current with
  | error e => exact .inl rfl
  | ok t =>
    cases t with
    | none => exact .inl rfl
    | some t =>
      cases hmore : c.args.hasMore with
      | true => exact .inr ⟨rfl, rfl⟩
      | false => simp [Arguments.current, hmore] at hcurrent

theorem takes_nextAs (read : Machine → Token → Except Fault α) : Takes (nextAs read) :=
  takes_nextToken.bind fun _ _ => rfl

theorem args_isExpected (wanted found : Text) (c : Call) :
    ((isExpected wanted found).run c).2.args = c.args := by
  unfold isExpected
  split
  · rfl
  · rfl

theorem args_isOneOf (wanted : List Text) (found : Text) (c : Call) :
    ((isOneOf wanted found).run c).2.args = c.args := by
  unfold isOneOf
  split
  · rfl
  · rfl

theorem takes_take (t : Taking) : Takes t.take := by
  cases t with
  | token => exact takes_nextToken.bind fun _ _ => rfl
  | symbolIs wanted => exact (takes_nextAs _).bind (args_isExpected wanted)
  | wordIs wanted => exact (takes_nextAs _).bind (args_isExpected wanted)
  | symbolOf wanted => exact ((takes_nextAs _).bind (args_isOneOf wanted)).bind fun _ _ => rfl
  | wordOf wanted => exact ((takes_nextAs _).bind (args_isOneOf wanted)).bind fun _ _ => rfl
  | _ => exact (takes_nextAs _).bind fun _ _ => rfl

/-- The index stays between the first argument and the end. -/
theorem Reached.bounds {tokens : List Token} {c : Call} (h : Reached tokens c) :
    c.args.tokens = tokens ∧ 0 ≤ c.args.index ∧ c.args.index ≤ tokens.length := by
  induction h with
  | start m => exact ⟨rfl, Int.le_refl 0, Int.natCast_nonneg _⟩
  | elsewhere _ m ih => exact ih
  | @taken c _ t ih =>
    obtain ⟨htokens, hfirst, hlast⟩ := ih
    rcases takes_take t c with hsame | ⟨hmore, hnext⟩
    · rw [hsame]
      exact ⟨htokens, hfirst, hlast⟩
    · have hlt : c.args.index < tokens.length := by
        rw [← htokens]
        exact of_decide_eq_true hmore
      have hindex : (t.take.run c).2.args.index = c.args.index + 1 := by rw [hnext]
      refine ⟨?_, by omega, by omega⟩
      rw [hnext]
      exact htokens

def next? (c : Call) : Option Token := c.args.tokens[c.args.index.toNat]?

theorem Reached.current {tokens : List Token} {c : Call} (h : Reached tokens c)
    (hlength : tokens.length ≤ indexLimit) :
    c.args.current = .ok c.next? ∧ c.args.hasMore = c.next?.isSome := by
  obtain ⟨htokens, hfirst, hlast⟩ := h.bounds
  cases hnext : c.next? with
  | some t =>
    have hlt : c.args.index.toNat < c.args.tokens.length := (List.getElem?_eq_some_iff.mp hnext).1
    rw [htokens] at hlt
    have hsmall : c.args.index < indexLimit := by omega
    have hhas : Arguments.Has c.args.tokens c.args.index t := ⟨hfirst, hsmall, hnext⟩
    exact ⟨hhas.current, decide_eq_true hhas.lt_length⟩
  | none =>
    have hend : c.args.tokens.length ≤ c.args.index.toNat := List.getElem?_eq_none_iff.mp hnext
    have hmore : c.args.hasMore = false := decide_eq_false (by omega)
    constructor
    · simp [Arguments.current, hmore]
    · exact hmore

end Call

/-- The questions about the next argument. -/
inductive Look where
  | any | string | numeric | numericVar | stringVar | word | symbol | silent
  | symbolIs (wanted : Text)
  | wordIs (wanted : Text)
  | symbolOf (wanted : List Text)
  | wordOf (wanted : List Text)
  deriving DecidableEq, Repr

namespace Look

def ask : Look → Run Call Bool
  | any => Call.hasAny
  | string => Call.hasString
  | numeric => Call.hasNumeric
  | numericVar => Call.hasNumericVar
  | stringVar => Call.hasStringVar
  | word => Call.hasWord
  | symbol => Call.hasSymbol
  | silent => Call.hasSilent
  | symbolIs wanted => Call.hasSymbolIs wanted
  | wordIs wanted => Call.hasWordIs wanted
  | symbolOf wanted => Call.hasSymbolOf wanted
  | wordOf wanted => Call.hasWordOf wanted

/-- The question cannot be put to the token, as it is of another kind than the one that is asked for. -/
def refuses : Look → Token → Bool
  | symbolIs _, t => !t.isSymbol
  | wordIs _, t => !t.isWord
  | _, _ => false

/-- The answer of a question that can be put to the token. -/
def answer : Look → Token → Bool
  | any, _ => true
  | string, t => t.isString
  | numeric, t => t.isNumeric
  | numericVar, t => t.isNumericVar
  | stringVar, t => t.isStringVar
  | word, t => t.isWord
  | symbol, t => t.isSymbol
  | silent, t => t.isSilent
  | symbolIs wanted, t => t.isSymbol && t.text == wanted
  | wordIs wanted, t => t.isWord && upper t.text == wanted
  | symbolOf wanted, t => t.isSymbol && wanted.contains t.text
  | wordOf wanted, t => t.isWord && wanted.contains (upper t.text)

/-- Behind the last argument every question is answered with no. -/
theorem run_ask_end (l : Look) {c : Call} (hcurrent : c.args.current = .ok none)
    (hmore : c.args.hasMore = false) : l.ask.run c = (.ok false, c) := by
  cases l <;> simp [ask, Call.hasAny, Call.hasString, Call.hasNumeric, Call.hasNumericVar,
    Call.hasStringVar, Call.hasWord, Call.hasSymbol, Call.hasSilent, Call.hasSymbolIs, Call.hasWordIs,
    Call.hasSymbolOf, Call.hasWordOf, Call.has, Call.look, Run.run_bind, Run.run_map, hcurrent, hmore]

/-- The kind of argument that the question asks for a certain one of. -/
def kind : Look → Reading
  | symbolIs _ => .symbol
  | _ => .word

/-- A question that can be put to the next argument is answered, and one that cannot fails. -/
theorem run_ask_next (l : Look) {c : Call} {t : Token} (hcurrent : c.args.current = .ok (some t))
    (hmore : c.args.hasMore = true) :
    l.ask.run c =
      (if l.refuses t then .error (.unexpectedToken l.kind) else .ok (l.answer t), c) := by
  have hlook : Call.look.run c = (.ok (some t), c) := by
    simp [Call.look, Run.run_bind, hcurrent]
  have hhas (p : Token → Bool) : (Call.has p).run c = (.ok (p t), c) := by
    simp [Call.has, Run.run_map, hlook]
  cases l with
  | any => simp [ask, Call.hasAny, Run.run_map, hmore, refuses, answer]
  | symbolIs wanted =>
    rw [ask, Call.hasSymbolIs, Run.run_bind_ok hlook]
    cases t <;> rfl
  | wordIs wanted =>
    rw [ask, Call.hasWordIs, Run.run_bind_ok hlook]
    cases t <;> rfl
  | symbolOf wanted =>
    rw [ask, Call.hasSymbolOf, Run.run_bind_ok hlook]
    cases t <;> rfl
  | wordOf wanted =>
    rw [ask, Call.hasWordOf, Run.run_bind_ok hlook]
    cases t <;> rfl
  | _ => exact hhas _

/-- Whatever arguments a command has taken, and whatever it asks about the next one, the arguments and the
machine stay as they are. The question is answered exactly if there is no next argument or it is of the kind
that the question demands, and then the answer says whether it is what was asked for. -/
theorem ask_answers_iff (tokens : List Token) (c : Call) (l : Look) (hreached : Call.Reached tokens c)
    (hlength : tokens.length ≤ indexLimit) :
    (l.ask.run c).2 = c ∧
      ((∃ b, (l.ask.run c).1 = .ok b) ↔ ∀ t ∈ c.next?, l.refuses t = false) ∧
      ∀ b, (l.ask.run c).1 = .ok b → b = c.next?.any l.answer := by
  obtain ⟨hcurrent, hmore⟩ := hreached.current hlength
  cases hnext : c.next? with
  | none =>
    rw [hnext] at hcurrent hmore
    rw [run_ask_end l hcurrent hmore]
    simp
  | some t =>
    rw [hnext] at hcurrent hmore
    rw [run_ask_next l hcurrent hmore]
    cases hrefuses : l.refuses t with
    | true => simp [hrefuses]
    | false => simp [hrefuses]

/-- `PRINT A ; 5`, when the variable was taken: the semicolon comes next. -/
theorem ask_answers_semicolon :
    ∃ c, Call.Reached [.word "PRINT".toList, .numericVar ['A'], .symbol [';'], .number 5] c ∧
      c.next? = some (.symbol [';']) ∧
      (∃ b, ((symbolIs [';']).ask.run c).1 = .ok b) ∧ ¬∃ b, ((wordIs "TO".toList).ask.run c).1 = .ok b := by
  have hreached : Call.Reached [.word "PRINT".toList, .numericVar ['A'], .symbol [';'], .number 5]
      ⟨{}, ⟨[.word "PRINT".toList, .numericVar ['A'], .symbol [';'], .number 5], 2⟩⟩ :=
    .taken (.taken (.start {}) .word) .numericVar
  have hlength : (([.word "PRINT".toList, .numericVar ['A'], .symbol [';'], .number 5] :
      List Token).length : Int) ≤ indexLimit := by decide
  have hsymbol := (ask_answers_iff _ _ (symbolIs [';']) hreached hlength).2.1
  have hword := (ask_answers_iff _ _ (wordIs "TO".toList) hreached hlength).2.1
  refine ⟨_, hreached, rfl, hsymbol.mpr ?_, fun h => ?_⟩
  · rintro t ⟨⟩
    rfl
  · have hother := hword.mp h _ rfl
    cases hother

/-- Asking for an equals sign fails when a variable comes next, where every other question is answered. -/
theorem ask_symbol_fails :
    ((symbolIs ['=']).ask.run ⟨{}, ⟨[.numericVar ['A']], 0⟩⟩).1 = .error (.unexpectedToken .symbol) := by
  decide +kernel

end Look
end BasicMachine
