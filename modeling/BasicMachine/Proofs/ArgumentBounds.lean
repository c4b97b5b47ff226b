import BasicMachine.Proofs.ArgumentLooks

/-! Where a command is in its arguments. Whatever it reads, asks and stores, one after another and whether it
succeeds or not, the index goes from the first argument towards the end and never back or beyond. What takes an
argument moves the index by one, even if the argument cannot be read, and fails behind the last one. An
expression takes an operand and then pairs of a symbol and an operand, up to the first place for a symbol
that has none. -/
namespace BasicMachine

def symbolAt (tokens : List Token) (i : Nat) : Bool := tokens[i]?.any Token.isSymbol

theorem symbolAt_of_length_le {tokens : List Token} {i : Nat} (h : tokens.length ≤ i) :
    symbolAt tokens i = false := by
  rw [symbolAt, List.getElem?_eq_none h]
  rfl

theorem lt_length_of_symbolAt {tokens : List Token} {i : Nat} (h : symbolAt tokens i = true) :
    i < tokens.length := by
  rcases Nat.lt_or_ge i tokens.length with hlt | hend
  · exact hlt
  · rw [symbolAt_of_length_le hend] at h
    cases h

/-- Of the places `i`, `i + 2`, `i + 4` and so on, `j` is the first that has no symbol. -/
def FirstWithoutSymbol (tokens : List Token) (i j : Nat) : Prop :=
  ∃ n, j = i + 2 * n ∧ (∀ k < n, symbolAt tokens (i + 2 * k) = true) ∧ symbolAt tokens j = false

namespace FirstWithoutSymbol

variable {tokens : List Token} {i j : Nat}

theorem here (h : symbolAt tokens i = false) : FirstWithoutSymbol tokens i i :=
  ⟨0, rfl, fun _ hk => absurd hk (Nat.not_lt_zero _), h⟩

theorem behind (hsymbol : symbolAt tokens i = true) (h : FirstWithoutSymbol tokens (i + 2) j) :
    FirstWithoutSymbol tokens i j := by
  obtain ⟨n, rfl, hbefore, hend⟩ := h
  refine ⟨n + 1, by omega, fun k hk => ?_, hend⟩
  cases k with
  | zero => exact hsymbol
  | succ k =>
    have hplace : i + 2 * (k + 1) = i + 2 + 2 * k := by omega
    rw [hplace]
    exact hbefore k (by omega)

end FirstWithoutSymbol

namespace Call

variable {α β γ : Type} {tokens : List Token} {i : Nat}

/-- From argument `i` on, whatever the machine is, the step leaves the tokens as they are and ends at an argument
that fits its result. -/
def MovesFrom (tokens : List Token) (i : Nat) (x : Run Call α) (P : Except Fault α → Nat → Prop) : Prop :=
  ∀ m, ∃ r m' j, x.run ⟨m, ⟨tokens, (i : Nat)⟩⟩ = (r, ⟨m', ⟨tokens, (j : Nat)⟩⟩) ∧ P r j

namespace MovesFrom

variable {x : Run Call α} {f : α → Run Call β} {P Q : Except Fault α → Nat → Prop}
  {R : Except Fault β → Nat → Prop}

theorem imp (hx : MovesFrom tokens i x P) (h : ∀ r j, P r j → Q r j) : MovesFrom tokens i x Q := by
  intro m
  obtain ⟨r, m', j, hrun, hP⟩ := hx m
  exact ⟨r, m', j, hrun, h r j hP⟩

protected theorem bind (hx : MovesFrom tokens i x P) (hf : ∀ a j, P (.ok a) j → MovesFrom tokens j (f a) R)
    (he : ∀ e j, P (.error e) j → R (.error e) j) : MovesFrom tokens i (x >>= f) R := by
  intro m
  obtain ⟨r, m', j, hrun, hP⟩ := hx m
  cases r with
  | error e => exact ⟨.error e, m', j, Run.run_bind_error hrun, he e j hP⟩
  | ok a =>
    obtain ⟨r, m'', k, hrest, hR⟩ := hf a j hP m'
    exact ⟨r, m'', k, (Run.run_bind_ok hrun).trans hrest, hR⟩

protected theorem pure {a : α} (h : P (.ok a) i) : MovesFrom tokens i (pure a) P :=
  fun m => ⟨.ok a, m, i, rfl, h⟩

theorem discard {R : Except Fault Unit → Nat → Prop} (hx : MovesFrom tokens i x P)
    (hok : ∀ a j, P (.ok a) j → R (.ok ()) j) (he : ∀ e j, P (.error e) j → R (.error e) j) :
    MovesFrom tokens i (x >>= fun _ => pure ()) R :=
  hx.bind (fun a j h => .pure (hok a j h)) he

theorem of_still (h : ∀ c, (x.run c).2.args = c.args) : MovesFrom tokens i x fun _ j => j = i := by
  intro m
  have hargs := h ⟨m, ⟨tokens, i⟩⟩
  rcases hrun : x.run ⟨m, ⟨tokens, i⟩⟩ with ⟨r, c⟩
  rw [hrun] at hargs
  obtain ⟨m', args⟩ := c
  obtain rfl : args = ⟨tokens, i⟩ := hargs
  exact ⟨r, m', i, rfl, rfl⟩

end MovesFrom

/-- Where there is an argument, it is taken, whether it can be read or not; behind the last one there is a fault
and nothing moves. -/
def Taken (tokens : List Token) (i : Nat) (r : Except Fault α) (j : Nat) : Prop :=
  if i < tokens.length then j = i + 1 else r = .error .notEnoughArguments ∧ j = i

namespace Taken

variable {j : Nat}

theorem of_ok {a : α} (h : Taken tokens i (.ok a) j) : i < tokens.length ∧ j = i + 1 := by
  unfold Taken at h
  split at h
  · next hlt => exact ⟨hlt, h⟩
  · cases h.1

theorem error {e : Fault} (h : Taken tokens i (.error e : Except Fault α) j) :
    Taken tokens i (.error e : Except Fault β) j := by
  simp only [Taken, Except.error.injEq] at h ⊢
  exact h

theorem bounds {r : Except Fault α} (h : Taken tokens i r j) (hi : i ≤ tokens.length) :
    i ≤ j ∧ j ≤ tokens.length := by
  unfold Taken at h
  split at h
  · omega
  · omega

theorem bind {x : Run Call α} {f : α → Run Call β} (hx : MovesFrom tokens i x (Taken tokens i))
    (hf : ∀ a c, ((f a).run c).2.args = c.args) : MovesFrom tokens i (x >>= f) (Taken tokens i) := by
  refine hx.bind (fun a j hj => ?_) fun e j hj => hj.error
  obtain ⟨hlt, rfl⟩ := hj.of_ok
  refine (MovesFrom.of_still (hf a)).imp fun r k hk => ?_
  rw [Taken, if_pos hlt, hk]

end Taken

theorem nextToken_eq : nextToken = nextAs fun _ => Except.ok := by
  refine Run.ext fun c => ?_
  rw [run_nextAs_current]
  simp only [nextToken, current, Run.run_bind, Run.run_get, Run.run_ofExcept]
  rcases c.args.current with e | (_ | t) <;> rfl

section Reading

variable (hlength : (tokens.length : Int) ≤ indexLimit) (i : Nat)
include hlength

theorem has_of_item {t : Token} (h : tokens[i]? = some t) : Arguments.Has tokens i t := by
  have hlt : i < tokens.length := (List.getElem?_eq_some_iff.mp h).1
  exact ⟨Int.natCast_nonneg i, by omega, h⟩

theorem taken_nextAs (read : Machine → Token → Except Fault α) :
    MovesFrom tokens i (nextAs read) (Taken tokens i) := by
  intro m
  unfold Taken
  cases hitem : tokens[i]? with
  | none =>
    refine ⟨.error .notEnoughArguments, m, i, ?_, ?_⟩
    · rw [run_nextAs_current, current_none hitem]
    · rw [if_neg (Nat.not_lt.mpr (List.getElem?_eq_none_iff.mp hitem))]
      exact ⟨rfl, rfl⟩
  | some t =>
    refine ⟨read m t, m, i + 1, run_nextAs read (has_of_item hlength i hitem), ?_⟩
    rw [if_pos (List.getElem?_eq_some_iff.mp hitem).1]

theorem taken_take (t : Taking) : MovesFrom tokens i t.take (Taken tokens i) := by
  have hnext {δ : Type} (read : Machine → Token → Except Fault δ) := taken_nextAs hlength i read
  cases t with
  | token =>
    rw [Taking.take, nextToken_eq]
    exact Taken.bind (hnext _) fun _ _ => rfl
  | symbolIs wanted => exact Taken.bind (hnext _) (args_isExpected wanted)
  | wordIs wanted => exact Taken.bind (hnext _) (args_isExpected wanted)
  | symbolOf wanted => exact Taken.bind (Taken.bind (hnext _) (args_isOneOf wanted)) fun _ _ => rfl
  | wordOf wanted => exact Taken.bind (Taken.bind (hnext _) (args_isOneOf wanted)) fun _ _ => rfl
  | _ => exact Taken.bind (hnext _) fun _ _ => rfl

theorem still_ask (l : Look) : MovesFrom tokens i l.ask fun _ j => j = i := by
  intro m
  cases hitem : tokens[i]? with
  | none =>
    have hmore : Arguments.hasMore ⟨tokens, i⟩ = false := by
      have hend := List.getElem?_eq_none_iff.mp hitem
      exact decide_eq_false (by dsimp only; omega)
    exact ⟨_, m, i, l.run_ask_end (current_none hitem) hmore, rfl⟩
  | some t =>
    have hhas := has_of_item hlength i hitem
    exact ⟨_, m, i, l.run_ask_next hhas.current (decide_eq_true hhas.lt_length), rfl⟩

theorem run_hasSymbol (m : Machine) :
    hasSymbol.run ⟨m, ⟨tokens, i⟩⟩ = (.ok (symbolAt tokens i), ⟨m, ⟨tokens, i⟩⟩) := by
  cases hitem : tokens[i]? with
  | none => simp [hasSymbol, has, look, symbolAt, Run.run_bind, Run.run_map, current_none hitem, hitem]
  | some t =>
    rw [hasSymbol, run_has _ (has_of_item hlength i hitem), symbolAt, hitem]
    rfl

end Reading

/-- Up to `n` arguments are taken, and all of them if there is a value. -/
structure Spent (tokens : List Token) (i n : Nat) (r : Except Fault α) (j : Nat) : Prop where
  forward : i ≤ j
  inside : j ≤ tokens.length
  all : ∀ a, r = .ok a → j = i + n

theorem Taken.spent {r : Except Fault α} {j : Nat} (h : Taken tokens i r j) (hi : i ≤ tokens.length) :
    Spent tokens i 1 r j := by
  obtain ⟨hforward, hinside⟩ := h.bounds hi
  refine ⟨hforward, hinside, ?_⟩
  rintro a rfl
  exact h.of_ok.2

theorem Spent.bind {p q : Nat} {x : Run Call α} {f : α → Run Call β}
    (hx : MovesFrom tokens i x (Spent tokens i p))
    (hf : ∀ a, i + p ≤ tokens.length → MovesFrom tokens (i + p) (f a) (Spent tokens (i + p) q)) :
    MovesFrom tokens i (x >>= f) (Spent tokens i (p + q)) := by
  refine MovesFrom.bind hx (fun a j hj => ?_) fun e j hj => ⟨hj.forward, hj.inside, by nofun⟩
  obtain rfl := hj.all a rfl
  refine (hf a hj.inside).imp fun r k hk => ⟨Nat.le_trans hj.forward hk.forward, hk.inside, fun b hb => ?_⟩
  rw [hk.all b hb, Nat.add_assoc]

theorem movesFrom_argumentsLeft :
    MovesFrom tokens i argumentsLeft fun r j => r = .ok (tokens.length - i) ∧ j = i := by
  intro m
  refine ⟨.ok (tokens.length - i), m, i, ?_, rfl, rfl⟩
  rw [← Int.toNat_sub]
  rfl

/-- An expression is read on from a place for a symbol. If it has a value, it ends at the first such place
without one. -/
structure Continued (tokens : List Token) (i : Nat) (r : Except Fault α) (j : Nat) : Prop where
  forward : i ≤ j
  inside : j ≤ tokens.length
  first : ∀ a, r = .ok a → FirstWithoutSymbol tokens i j

namespace Continued

theorem stop {v : α} (hi : i ≤ tokens.length) (h : symbolAt tokens i = false) :
    MovesFrom tokens i (pure v : Run Call α) (Continued tokens i) :=
  .pure ⟨Nat.le_refl i, hi, fun _ _ => .here h⟩

/-- A symbol and the operand behind it, and what comes of the rest. -/
theorem round {x : Run Call α} {y : Run Call β} {f : α → β → Run Call γ}
    (hsymbol : symbolAt tokens i = true) (hx : MovesFrom tokens i x (Taken tokens i))
    (hy : MovesFrom tokens (i + 1) y (Taken tokens (i + 1)))
    (hf : ∀ a b, i + 2 ≤ tokens.length → MovesFrom tokens (i + 2) (f a b) (Continued tokens (i + 2))) :
    MovesFrom tokens i (x >>= fun a => y >>= f a) (Continued tokens i) := by
  have hi := lt_length_of_symbolAt hsymbol
  refine hx.bind (fun a j hj => ?_) fun e j hj => ?_
  · obtain ⟨-, rfl⟩ := hj.of_ok
    refine hy.bind (fun b k hk => ?_) fun e k hk => ?_
    · obtain ⟨hlt, rfl⟩ := hk.of_ok
      refine (hf a b hlt).imp fun r l hl => ⟨?_, hl.inside, fun v hv => .behind hsymbol (hl.first v hv)⟩
      have hforward := hl.forward
      omega
    · obtain ⟨hforward, hinside⟩ := hk.bounds hi
      exact ⟨by omega, hinside, by nofun⟩
  · obtain ⟨hforward, hinside⟩ := hj.bounds (Nat.le_of_lt hi)
    exact ⟨hforward, hinside, by nofun⟩

/-- The operand that an expression begins with, and what comes of the rest. Symbols stand at every second place,
so an odd number of arguments is taken. -/
theorem expression {x : Run Call α} {go : α → Nat → Run Call β} (hi : i ≤ tokens.length)
    (hx : MovesFrom tokens i x (Taken tokens i))
    (hgo : ∀ a, i + 1 ≤ tokens.length →
      MovesFrom tokens (i + 1) (go a (tokens.length - (i + 1))) (Continued tokens (i + 1))) :
    MovesFrom tokens i (do let _ ← x >>= fun a => argumentsLeft >>= go a) fun r j =>
      i ≤ j ∧ j ≤ tokens.length ∧
        (r = .ok () → (j - i) % 2 = 1 ∧ FirstWithoutSymbol tokens (i + 1) j) := by
  rw [bind_assoc]
  refine hx.bind (fun a j hj => ?_) fun e j hj => ?_
  · obtain ⟨hlt, rfl⟩ := hj.of_ok
    rw [bind_assoc]
    refine movesFrom_argumentsLeft.bind ?_ fun e j hj => by cases hj.1
    rintro n j ⟨⟨⟩, rfl⟩
    apply (hgo a hlt).discard
    · intro b k hk
      have hfirst := hk.first b rfl
      refine ⟨Nat.le_of_succ_le hk.forward, hk.inside, fun _ => ⟨?_, hfirst⟩⟩
      obtain ⟨n, rfl, -⟩ := hfirst
      omega
    · exact fun e k hk => ⟨Nat.le_of_succ_le hk.forward, hk.inside, by nofun⟩
  · obtain ⟨hforward, hinside⟩ := hj.bounds hi
    exact ⟨hforward, hinside, by nofun⟩

end Continued

section Expressions

variable (hlength : (tokens.length : Int) ≤ indexLimit)
include hlength

/-- An expression goes on exactly if a symbol comes next. -/
theorem continued_if {go : Run Call α} {v : α} (hi : i ≤ tokens.length)
    (hgo : symbolAt tokens i = true → MovesFrom tokens i go (Continued tokens i)) :
    MovesFrom tokens i (do if ← hasSymbol then go else pure v) (Continued tokens i) := by
  intro m
  rw [Run.run_bind_ok (run_hasSymbol hlength i m)]
  cases hsymbol : symbolAt tokens i with
  | true => exact hgo hsymbol m
  | false => exact Continued.stop hi hsymbol m

theorem continued_sumFrom (a : Int) {n : Nat} (hi : i ≤ tokens.length) (hn : tokens.length - i ≤ n) :
    MovesFrom tokens i (sumFrom a n) (Continued tokens i) := by
  -- Each round takes two arguments, so no rounds are left only when no arguments are.
  induction n generalizing a i with
  | zero => exact Continued.stop hi (symbolAt_of_length_le (by omega))
  | succ n ih =>
    rw [sumFrom]
    refine continued_if hlength hi fun hsymbol => ?_
    apply Continued.round hsymbol (Taken.bind (taken_nextAs hlength i _) (args_isOneOf _))
      (taken_nextAs hlength (i + 1) _)
    intro op b hinside
    cases happly : (Operator.ofSymbol op).apply a b with
    | error e => exact fun m => ⟨.error e, m, i + 2, rfl, Nat.le_refl _, hinside, by nofun⟩
    | ok c => exact ih c hinside (by omega)

theorem continued_concatFrom (t : Text) {n : Nat} (hi : i ≤ tokens.length) (hn : tokens.length - i ≤ n) :
    MovesFrom tokens i (concatFrom t n) (Continued tokens i) := by
  induction n generalizing t i with
  | zero => exact Continued.stop hi (symbolAt_of_length_le (by omega))
  | succ n ih =>
    rw [concatFrom]
    refine continued_if hlength hi fun hsymbol => ?_
    apply Continued.round hsymbol (Taken.bind (taken_nextAs hlength i _) (args_isExpected _))
      (taken_nextAs hlength (i + 1) _)
    intro _ u hinside
    exact ih (t ++ u) hinside (by omega)

theorem spent_condition (hi : i ≤ tokens.length) :
    MovesFrom tokens i condition (Spent tokens i 3) := by
  have hnumeric {k : Nat} (hk : k ≤ tokens.length) : MovesFrom tokens k nextNumeric (Spent tokens k 1) :=
    (taken_nextAs hlength k _).imp fun _ _ h => h.spent hk
  apply Spent.bind (q := 2) (hnumeric hi)
  intro a hfirst
  apply Spent.bind (q := 1)
  · apply MovesFrom.imp (Taken.bind (taken_nextAs hlength (i + 1) _) (args_isOneOf _))
    exact fun _ _ h => h.spent hfirst
  intro c hsecond
  apply Spent.bind (q := 0) (hnumeric hsecond)
  intro b hthird
  exact .pure ⟨Nat.le_refl _, hthird, fun _ _ => rfl⟩

end Expressions
end Call

/-- What a command can do with its arguments, but for skipping one and giving one back. -/
inductive ArgumentUse where
  | take (t : Taking)
  | putNumeric (v : Int)
  | putString (t : Text)
  | look (l : Look)
  | condition
  | sum
  | concat
  deriving DecidableEq, Repr

namespace ArgumentUse

def perform : ArgumentUse → Run Call Unit
  | take t => t.take
  | putNumeric v => Call.putNumeric v
  | putString t => Call.putString t
  | look l => do let _ ← l.ask
  | condition => do let _ ← Call.condition
  | sum => do let _ ← Call.sum
  | concat => do let _ ← Call.concat

def after (c : Call) (uses : List ArgumentUse) : Call := uses.foldl (fun c u => (u.perform.run c).2) c

/-- How a use with the result `r` moves the index from `i` to `j`. What is stored goes into a variable that is taken
like any other argument. -/
def Moves (tokens : List Token) (i : Nat) (r : Except Fault Unit) (j : Nat) : ArgumentUse → Prop
  | take _ | putNumeric _ | putString _ => Call.Taken tokens i r j
  | look _ => j = i
  | condition => r = .ok () → j = i + 3
  | sum | concat => r = .ok () → (j - i) % 2 = 1 ∧ FirstWithoutSymbol tokens (i + 1) j

section Bounds

variable {tokens : List Token} {i : Nat} (hlength : (tokens.length : Int) ≤ indexLimit)
  (hi : i ≤ tokens.length)
include hlength hi

theorem movesFrom_perform (u : ArgumentUse) :
    Call.MovesFrom tokens i u.perform fun r j => i ≤ j ∧ j ≤ tokens.length ∧ u.Moves tokens i r j := by
  have htaken {α : Type} (r : Except Fault α) (j : Nat) (h : Call.Taken tokens i r j) :
      i ≤ j ∧ j ≤ tokens.length ∧ Call.Taken tokens i r j := ⟨(h.bounds hi).1, (h.bounds hi).2, h⟩
  cases u with
  | take t => exact (Call.taken_take hlength i t).imp htaken
  | putNumeric v =>
    exact (Call.Taken.bind (Call.taken_nextAs hlength i _) fun _ _ => rfl).imp htaken
  | putString t =>
    exact (Call.Taken.bind (Call.taken_nextAs hlength i _) fun _ _ => rfl).imp htaken
  | look l =>
    apply (Call.still_ask hlength i l).discard
    · rintro a j rfl
      exact ⟨Nat.le_refl _, hi, rfl⟩
    · rintro e j rfl
      exact ⟨Nat.le_refl _, hi, rfl⟩
  | condition =>
    apply (Call.spent_condition hlength hi).discard
    · exact fun a j h => ⟨h.forward, h.inside, fun _ => h.all a rfl⟩
    · exact fun e j h => ⟨h.forward, h.inside, by nofun⟩
  | sum =>
    exact Call.Continued.expression hi (Call.taken_nextAs hlength i _) fun a hfirst =>
      Call.continued_sumFrom hlength a hfirst (Nat.le_refl _)
  | concat =>
    exact Call.Continued.expression hi (Call.taken_nextAs hlength i _) fun t hfirst =>
      Call.continued_concatFrom hlength t hfirst (Nat.le_refl _)

theorem args_after (m : Machine) (uses : List ArgumentUse) :
    ∃ j : Nat, i ≤ j ∧ j ≤ tokens.length ∧ (after ⟨m, ⟨tokens, i⟩⟩ uses).args = ⟨tokens, j⟩ := by
  induction uses generalizing m i with
  | nil => exact ⟨i, Nat.le_refl i, hi, rfl⟩
  | cons u uses ih =>
    obtain ⟨r, m', j, hrun, hforward, hinside, -⟩ := movesFrom_perform hlength hi u m
    obtain ⟨k, hon, hend, hargs⟩ := ih hinside m'
    refine ⟨k, Nat.le_trans hforward hon, hend, ?_⟩
    rw [after, List.foldl_cons, hrun]
    exact hargs

end Bounds

/-- Whatever a command has done with its arguments, it is at one of them or at the end, and what it does next
takes it to that place or to a later one, as `Moves` says. There are no more tokens than an index can count. -/
theorem stays_in_bounds (tokens : List Token) (m : Machine) (before : List ArgumentUse) (u : ArgumentUse)
    (hlength : (tokens.length : Int) ≤ indexLimit) :
    ∃ i j : Nat, i ≤ j ∧ j ≤ tokens.length ∧ (after ⟨m, { tokens }⟩ before).args = ⟨tokens, i⟩ ∧
      (u.perform.run (after ⟨m, { tokens }⟩ before)).2.args = ⟨tokens, j⟩ ∧
      u.Moves tokens i (u.perform.run (after ⟨m, { tokens }⟩ before)).1 j := by
  obtain ⟨i, -, hi, hbefore⟩ := args_after (i := 0) hlength (Nat.zero_le _) m before
  change (after ⟨m, { tokens }⟩ before).args = _ at hbefore
  rcases hcall : after ⟨m, { tokens }⟩ before with ⟨m', args⟩
  rw [hcall] at hbefore
  obtain rfl : args = ⟨tokens, i⟩ := hbefore
  obtain ⟨r, m'', j, hrun, hforward, hinside, hmoves⟩ := movesFrom_perform hlength hi u m'
  exact ⟨i, j, hforward, hinside, rfl, by rw [hrun], by rwa [hrun]⟩

/-- The tokens of `A = B + 5 * 'C' TO`. -/
def boundTokens : List Token :=
  [.numericVar ['A'], .symbol ['='], .numericVar ['B'], .symbol ['+'], .number 5, .symbol ['*'],
    .char "'C'".toList, .word "TO".toList]

/-- The variable is taken for a word, and the equals sign is asked about as one: both fail, and only the first
moves on. Then the sign is taken as what it is. -/
def failingUses : List ArgumentUse := [.take .word, .look (.wordIs "TO".toList), .take (.symbolIs ['='])]

/-- The sum behind the equals sign ends at the word, which is the first of every second argument that is no
symbol. -/
theorem stays_in_bounds_sum :
    (boundTokens.length : Int) ≤ indexLimit ∧
      (sum.perform.run (after ⟨{}, { tokens := boundTokens }⟩ failingUses)).1 = .ok () ∧
      (sum.perform.run (after ⟨{}, { tokens := boundTokens }⟩ failingUses)).2.args = ⟨boundTokens, 7⟩ ∧
      FirstWithoutSymbol boundTokens 3 7 := by
  have hlength : (boundTokens.length : Int) ≤ indexLimit := by decide
  have hstart : (after ⟨{}, { tokens := boundTokens }⟩ failingUses).args = ⟨boundTokens, 2⟩ := by
    decide +kernel
  have hvalue : (sum.perform.run (after ⟨{}, { tokens := boundTokens }⟩ failingUses)).1 = .ok () := by
    decide +kernel
  have hend : (sum.perform.run (after ⟨{}, { tokens := boundTokens }⟩ failingUses)).2.args =
      ⟨boundTokens, 7⟩ := by decide +kernel
  obtain ⟨i, j, -, -, hi, hj, hmoves⟩ := stays_in_bounds boundTokens {} failingUses sum hlength
  rw [hstart, Arguments.mk.injEq] at hi
  rw [hend, Arguments.mk.injEq] at hj
  obtain rfl : i = 2 := by omega
  obtain rfl : j = 7 := by omega
  exact ⟨hlength, hvalue, hend, (hmoves hvalue).2⟩

end ArgumentUse
end BasicMachine
