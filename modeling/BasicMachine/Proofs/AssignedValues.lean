import BasicMachine.Proofs.Expressions

/-! Values of expressions in variables. An assignment works its expression out over all integers and cuts the
result to a word when it stores it. With sums, differences and products alone it makes no difference
whether that happens at the end or at every step. -/
namespace BasicMachine

open Machine (numericName OnlyChanges)

namespace Call

theorem run_target {m : Machine} {ts l : List Token} {i : Fin 26} {k : Nat}
    (hcount : (ts.length : Int) ≤ indexLimit)
    (hts : ts.drop k = .numericVar (numericName i) :: .symbol ['='] :: l) :
    nextNumericVar.run ⟨m, ⟨ts, k⟩⟩ = (.ok (numericName i), ⟨m, ⟨ts, (k + 1 : Nat)⟩⟩) ∧
      (nextSymbolIs ['=']).run ⟨m, ⟨ts, (k + 1 : Nat)⟩⟩ = (.ok (), ⟨m, ⟨ts, (k + 1 + 1 : Nat)⟩⟩) ∧
      ts.drop (k + 1 + 1) = l := by
  obtain ⟨hname, hrest⟩ := Arguments.has_of_drop hcount hts
  obtain ⟨hequals, hrest⟩ := Arguments.has_of_drop hcount hrest
  refine ⟨run_nextAs _ hname, ?_, hrest⟩
  rw [nextSymbolIs, nextSymbol, Run.run_bind, run_nextAs _ hequals]
  rfl

end Call

/-- The tokens of a line such as `A = B + 1`. -/
def assignment (i : Fin 26) (e : Expression) : List Token :=
  .numericVar (numericName i) :: .symbol ['='] :: e.tokens

/-- The tokens of a line such as `FOR A = B + 1 TO 9`. -/
def forLine (i : Fin 26) (e last : Expression) : List Token :=
  .word "FOR".toList :: .numericVar (numericName i) :: .symbol ['='] ::
    (e.tokens ++ .word "TO".toList :: last.tokens)

namespace Machine

variable {m : Machine} {i : Fin 26} {e : Expression} (hm : 17664 ≤ m.memory.size)
include hm

theorem exists_setNumeric (v : Int) :
    ∃ n, (setNumeric (numericName i) v).run m = (.ok (), n) ∧
      n.numeric (numericName i) = .ok (v % 65536).toNat ∧ OnlyChanges (.numeric i) m n := by
  obtain ⟨c, hset⟩ := run_setNumeric hm (numericAddress_numericName i) v
  refine ⟨_, hset, ?_, onlyChanges_write hm (Nat.le_refl _) (Nat.le_refl _) c⟩
  rw [numeric_of_bytes hm c, Int.emod_emod_of_dvd v (by decide)]

section Assignment

variable (hcount : ((assignment i e).length : Int) ≤ indexLimit)
include hcount

theorem run_assignment_of_error {f : Fault} (h : e.rest.applyFrom m (e.first.value m) = .error f) :
    (runTokens (assignment i e)).run m = (.error f, m) := by
  obtain ⟨hname, hequals, hrest⟩ := @Call.run_target m (assignment i e) e.tokens i 0 hcount rfl
  obtain ⟨args, hsum, -⟩ := e.run_sum (l := []) hm hcount (by simp) (hrest.trans (List.append_nil _).symm)
  rw [h] at hsum
  refine Command.run_withArguments (c := ⟨m, args⟩)
    ((Command.run_dispatch_cons Debugger.hooks m (.numericVar (numericName i)) _).trans ?_)
  exact (Run.run_bind_ok hname).trans ((Run.run_bind_ok hequals).trans (Run.run_bind_error hsum))

/-- The value is stored as soon as all of the expression is read. -/
theorem run_assignment_of_ok {v : Int} (h : e.rest.applyFrom m (e.first.value m) = .ok v) :
    (runTokens (assignment i e)).run m = (setNumeric (numericName i) v).run m := by
  obtain ⟨hname, hequals, hrest⟩ := @Call.run_target m (assignment i e) e.tokens i 0 hcount rfl
  obtain ⟨args, hsum, hargs⟩ :=
    e.run_sum (l := []) hm hcount (by simp) (hrest.trans (List.append_nil _).symm)
  rw [h, hargs v h] at hsum
  have hlength : 0 + 1 + 1 + e.tokens.length = (assignment i e).length := by
    simp only [assignment, List.length_cons]
    omega
  rw [hlength] at hsum
  have hend : Call.hasAny.run ⟨m, ⟨assignment i e, (assignment i e).length⟩⟩ =
      (.ok false, ⟨m, ⟨assignment i e, (assignment i e).length⟩⟩) := by
    simp [Call.hasAny, Arguments.hasMore, Run.run_map]
  -- With nothing behind the expression the assignment does not complain.
  refine Command.run_withArguments
    (c := ⟨((setNumeric (numericName i) v).run m).2, ⟨assignment i e, (assignment i e).length⟩⟩)
    ((Command.run_dispatch_cons Debugger.hooks m (.numericVar (numericName i)) _).trans ?_)
  exact (Run.run_bind_ok hname).trans ((Run.run_bind_ok hequals).trans ((Run.run_bind_ok hsum).trans
    (Run.run_bind_ok hend)))

end Assignment

/-- A counted loop stores its first value when both of its expressions are read. -/
theorem run_forLine {last : Expression} (hcount : ((forLine i e last).length : Int) ≤ indexLimit)
    {v w : Int} (hv : e.rest.applyFrom m (e.first.value m) = .ok v)
    (hw : last.rest.applyFrom m (last.first.value m) = .ok w) {n : Machine}
    (hset : (setNumeric (numericName i) v).run m = (.ok (), n)) :
    (runTokens (forLine i e last)).run m = (.ok (), { n with control := { n.control with
      loops := setNamed (numericName i) ⟨v, w, n.control.next⟩ n.control.loops } }) := by
  obtain ⟨hname, hequals, hrest⟩ := @Call.run_target m (forLine i e last)
    (e.tokens ++ .word "TO".toList :: last.tokens) i 1 hcount rfl
  obtain ⟨args, hsum, hargs⟩ := e.run_sum hm hcount (by simp [Token.isSymbol]) hrest
  rw [hv, hargs v hv] at hsum
  have hbehind : (forLine i e last).drop (1 + 1 + 1 + e.tokens.length) =
      .word "TO".toList :: last.tokens := by
    rw [← List.drop_drop, hrest, List.drop_left]
  obtain ⟨hto, hlast⟩ := Arguments.has_of_drop hcount hbehind
  have hword : (Call.nextWordIs "TO".toList).run
      ⟨m, ⟨forLine i e last, (1 + 1 + 1 + e.tokens.length : Nat)⟩⟩ =
      (.ok (), ⟨m, ⟨forLine i e last, (1 + 1 + 1 + e.tokens.length + 1 : Nat)⟩⟩) := by
    rw [Call.nextWordIs, Call.nextWord, Run.run_bind, Call.run_nextAs _ hto]
    rfl
  obtain ⟨args', hsum', -⟩ :=
    last.run_sum (l := []) hm hcount (by simp) (hlast.trans (List.append_nil _).symm)
  rw [hw] at hsum'
  have hstore : (liftM (setNumeric (numericName i) v) : Routine).run ⟨m, args'⟩ = (.ok (), ⟨n, args'⟩) := by
    rw [Call.run_liftM, hset]
  refine Command.run_withArguments (c := ⟨_, args'⟩)
    ((Command.run_dispatch_word Debugger.hooks m "FOR".toList _).trans ?_)
  exact (Run.run_bind_ok hname).trans ((Run.run_bind_ok hequals).trans ((Run.run_bind_ok hsum).trans
    ((Run.run_bind_ok hword).trans ((Run.run_bind_ok hsum').trans (Run.run_bind_ok hstore)))))

end Machine

/-- The assignment fails exactly if a division meets a zero, and then leaves everything as it is. Otherwise
the value from left to right, with all operands as they were before, is cut to a word and stored, and nothing
else is changed. -/
structure AssignsFromLeft (m : Machine) (i : Fin 26) (e : Expression) : Prop where
  fails_iff : (∃ f, ((Machine.runTokens (assignment i e)).run m).1 = .error f) ↔ e.rest.MeetZero m
  failed : e.rest.MeetZero m → ((Machine.runTokens (assignment i e)).run m).2 = m
  stored : ¬e.rest.MeetZero m → ∃ n, (Machine.runTokens (assignment i e)).run m = (.ok (), n) ∧
    n.numeric (numericName i) = .ok (e.value m % 65536).toNat ∧ OnlyChanges (.numeric i) m n

/-- Every assignment with no more arguments than can be counted goes from left to right. -/
theorem assignsFromLeft (m : Machine) (i : Fin 26) (e : Expression) (hsize : 65536 ≤ m.memory.size)
    (hcount : ((assignment i e).length : Int) ≤ indexLimit) : AssignsFromLeft m i e := by
  have hm : 17664 ≤ m.memory.size := by omega
  have hfails : e.rest.MeetZero m → ∃ f, (Machine.runTokens (assignment i e)).run m = (.error f, m) := by
    intro hzero
    obtain ⟨f, hf⟩ := Operations.applyFrom_of_meetZero hzero (e.first.value m)
    exact ⟨f, Machine.run_assignment_of_error hm hcount hf⟩
  have hstores : ¬e.rest.MeetZero m → ∃ n, (Machine.runTokens (assignment i e)).run m = (.ok (), n) ∧
      n.numeric (numericName i) = .ok (e.value m % 65536).toNat ∧ OnlyChanges (.numeric i) m n := by
    intro hzero
    have hvalue := Operations.applyFrom_of_not_meetZero hzero (e.first.value m)
    rw [Machine.run_assignment_of_ok hm hcount hvalue]
    exact Machine.exists_setNumeric hm _
  refine ⟨⟨fun ⟨f, hf⟩ => ?_, fun hzero => ?_⟩, fun hzero => ?_, hstores⟩
  · by_contra hzero
    obtain ⟨n, hrun, -⟩ := hstores hzero
    rw [hrun] at hf
    cases hf
  · obtain ⟨f, hrun⟩ := hfails hzero
    exact ⟨f, by rw [hrun]⟩
  · obtain ⟨f, hrun⟩ := hfails hzero
    rw [hrun]

/-- `A - B / 2` -/
def halfDifference : Expression := ⟨.numericVar 0, [(.subtract, .numericVar 1), (.divide, .number 2)]⟩

/-- With 263 in `A` and 2313 in `B`, `A = A - B / 2` stores -1025 in `A` as a word. -/
theorem assignsFromLeft_halfDifference :
    65536 ≤ Machine.someVariables.memory.size ∧
      ((assignment 0 halfDifference).length : Int) ≤ indexLimit ∧
      ¬halfDifference.rest.MeetZero Machine.someVariables ∧
      halfDifference.value Machine.someVariables = -1025 ∧
      AssignsFromLeft Machine.someVariables 0 halfDifference := by
  have hsize : 65536 ≤ Machine.someVariables.memory.size := by decide +kernel
  have hcount : ((assignment 0 halfDifference).length : Int) ≤ indexLimit := by decide +kernel
  refine ⟨hsize, hcount, ?_, ?_, assignsFromLeft _ 0 halfDifference hsize hcount⟩
  · simp [Operations.MeetZero, halfDifference, Operator.divides, Operand.value]
  · simp only [halfDifference, Expression.value, Operations.valueFrom, List.foldl_cons, List.foldl_nil,
      Operator.result, ← Operator.fdiv_eq_floor]
    decide +kernel

namespace Operator

/-- The operator on words, with an unsigned division. -/
def onWords : Operator → BitVec 16 → BitVec 16 → BitVec 16
  | add, a, b => a + b
  | subtract, a, b => a - b
  | multiply, a, b => a * b
  | divide, a, b => a / b
  | remainder, a, b => a % b

/-- Cutting to words goes together with all operators that do not divide. -/
theorem ofInt_result {op : Operator} (h : op.divides = false) (a b : Int) :
    BitVec.ofInt 16 (op.result a b) = op.onWords (.ofInt 16 a) (.ofInt 16 b) := by
  cases op with
  | add => exact BitVec.ofInt_add a b
  | subtract =>
    rw [result, onWords, Int.sub_eq_add_neg, BitVec.ofInt_add, BitVec.ofInt_neg, BitVec.sub_eq_add_neg]
  | multiply => exact BitVec.ofInt_mul a b
  | divide | remainder => cases h

end Operator

namespace Operations

/-- Each operation is applied to a word and gives a word. -/
def wordFrom (m : Machine) (a : BitVec 16) (ops : Operations) : BitVec 16 :=
  ops.foldl (fun a p => p.1.onWords a (.ofInt 16 (p.2.value m))) a

theorem ofInt_valueFrom {m : Machine} {ops : Operations} (h : ∀ p ∈ ops, p.1.divides = false) (a : Int) :
    BitVec.ofInt 16 (valueFrom m a ops) = wordFrom m (.ofInt 16 a) ops := by
  induction ops generalizing a with
  | nil => rfl
  | cons p ops ih =>
    rw [valueFrom, List.foldl_cons, ← valueFrom, wordFrom, List.foldl_cons, ← wordFrom,
      ← Operator.ofInt_result (h p List.mem_cons_self)]
    exact ih (fun q hq => h q (List.mem_cons_of_mem p hq)) _

theorem not_meetZero_of_divides {m : Machine} {ops : Operations} (h : ∀ p ∈ ops, p.1.divides = false) :
    ¬ops.MeetZero m := fun ⟨p, hp, hdivides, _⟩ => Bool.false_ne_true ((h p hp).symm.trans hdivides)

end Operations

/-- The value of an expression on a machine that only has words. -/
def Expression.word (m : Machine) (e : Expression) : BitVec 16 :=
  e.rest.wordFrom m (.ofInt 16 (e.first.value m))

theorem Expression.toNat_word {m : Machine} {e : Expression} (h : ∀ p ∈ e.rest, p.1.divides = false) :
    (e.word m).toNat = (e.value m % 65536).toNat := by
  rw [word, ← Operations.ofInt_valueFrom h, BitVec.toNat_ofInt]
  rfl

/-- The lines that store the value of an expression in a variable: the assignment, and the `FOR` of a loop
with a last value. -/
inductive StoresValue (m : Machine) (i : Fin 26) (e : Expression) : List Token → Prop
  | assignment : StoresValue m i e (assignment i e)
  | loop (last : Expression) (defined : ¬last.rest.MeetZero m) : StoresValue m i e (forLine i e last)

/-- Without divisions, what is stored is what a machine would store that has nothing but words. -/
theorem stored_word (m : Machine) (i : Fin 26) (e : Expression) (tokens : List Token)
    (hsize : 65536 ≤ m.memory.size) (hplain : ∀ p ∈ e.rest, p.1.divides = false)
    (hstores : StoresValue m i e tokens) (hcount : (tokens.length : Int) ≤ indexLimit) :
    ∃ n, (Machine.runTokens tokens).run m = (.ok (), n) ∧
      n.numeric (numericName i) = .ok (e.word m).toNat := by
  have hm : 17664 ≤ m.memory.size := by omega
  have hvalue := Operations.applyFrom_of_not_meetZero
    (Operations.not_meetZero_of_divides hplain) (m := m) (e.first.value m)
  obtain ⟨n, hset, hnumeric, -⟩ := @Machine.exists_setNumeric m i hm (e.value m)
  rw [← e.toNat_word hplain] at hnumeric
  cases hstores with
  | assignment => exact ⟨n, (Machine.run_assignment_of_ok hm hcount hvalue).trans hset, hnumeric⟩
  | loop last defined =>
    have hlast := Operations.applyFrom_of_not_meetZero defined (last.first.value m)
    exact ⟨_, Machine.run_forLine hm hcount hvalue hlast hset, hnumeric⟩

/-- `A * B - 70000 * -3` -/
def longProduct : Expression :=
  ⟨.numericVar 0, [(.multiply, .numericVar 1), (.subtract, .number 70000), (.multiply, .number (-3))]⟩

/-- With 263 in `A` and 2313 in `B` no step of `FOR A = A * B - 70000 * -3 TO 9` stays inside a word. -/
theorem stored_word_longProduct :
    65536 ≤ Machine.someVariables.memory.size ∧ (∀ p ∈ longProduct.rest, p.1.divides = false) ∧
      StoresValue Machine.someVariables 0 longProduct (forLine 0 longProduct ⟨.number 9, []⟩) ∧
      ((forLine 0 longProduct ⟨.number 9, []⟩).length : Int) ≤ indexLimit ∧
      ∃ n, (Machine.runTokens (forLine 0 longProduct ⟨.number 9, []⟩)).run Machine.someVariables =
        (.ok (), n) ∧ n.numeric (numericName 0) = .ok 23443 := by
  have hsize : 65536 ≤ Machine.someVariables.memory.size := by decide +kernel
  have hplain : ∀ p ∈ longProduct.rest, p.1.divides = false := by
    simp [longProduct, Operator.divides]
  have hstores : StoresValue Machine.someVariables 0 longProduct (forLine 0 longProduct ⟨.number 9, []⟩) :=
    .loop _ (by simp [Operations.MeetZero])
  have hcount : ((forLine 0 longProduct ⟨.number 9, []⟩).length : Int) ≤ indexLimit := by decide +kernel
  have hword : (longProduct.word Machine.someVariables).toNat = 23443 := by decide +kernel
  refine ⟨hsize, hplain, hstores, hcount, ?_⟩
  rw [← hword]
  exact stored_word _ 0 longProduct _ hsize hplain hstores hcount

/-- A division makes a difference: `0 - 2 / 2` is -1, but 32767 on words. -/
example (m : Machine) :
    Expression.value m ⟨.number 0, [(.subtract, .number 2), (.divide, .number 2)]⟩ = -1 ∧
      Expression.word m ⟨.number 0, [(.subtract, .number 2), (.divide, .number 2)]⟩ = 32767 := by
  simp only [Expression.value, Operations.valueFrom, List.foldl_cons, List.foldl_nil, Operator.result,
    ← Operator.fdiv_eq_floor, Expression.word, Operations.wordFrom, Operand.value]
  decide

end BasicMachine
