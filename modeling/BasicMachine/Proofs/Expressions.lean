import Mathlib.Data.Rat.Floor
import BasicMachine.Proofs.VariableStore

/-! Expressions. Operands are joined by operators and worked out from left to right, without a limit on the
numbers in between. Everything is read before the result is stored, and only then is it cut to a word. -/
namespace BasicMachine

namespace Operator

def symbol : Operator → Text
  | add => ['+']
  | subtract => ['-']
  | multiply => ['*']
  | divide => ['/']
  | remainder => ['%']

theorem symbol_mem (op : Operator) : op.symbol ∈ symbols := by cases op <;> decide

theorem ofSymbol_symbol (op : Operator) : ofSymbol op.symbol = op := by cases op <;> rfl

/-- The operator needs a second operand that is not zero. -/
def divides : Operator → Bool
  | divide | remainder => true
  | _ => false

/-- What the operator stands for. Quotients are rounded down, and a remainder is what the rounded quotient
leaves over. -/
def result : Operator → Int → Int → Int
  | add, a, b => a + b
  | subtract, a, b => a - b
  | multiply, a, b => a * b
  | divide, a, b => ⌊(a : ℚ) / b⌋
  | remainder, a, b => a - b * ⌊(a : ℚ) / b⌋

theorem fdiv_eq_floor (a b : Int) : a.fdiv b = ⌊(a : ℚ) / b⌋ := by
  obtain ⟨n, rfl | rfl⟩ := b.eq_nat_or_neg
  · rw [Int.fdiv_eq_ediv_of_nonneg a (Int.natCast_nonneg n), Int.cast_natCast,
      Rat.floor_intCast_div_natCast]
  · rw [← Int.neg_fdiv_neg, neg_neg, Int.fdiv_eq_ediv_of_nonneg _ (Int.natCast_nonneg n),
      Int.cast_neg, div_neg, ← neg_div, ← Int.cast_neg, Int.cast_natCast, Rat.floor_intCast_div_natCast]

theorem apply_of_defined {op : Operator} {b : Int} (h : ¬(op.divides = true ∧ b = 0)) (a : Int) :
    op.apply a b = .ok (op.result a b) := by
  cases op with
  | add | subtract | multiply => rfl
  | divide =>
    have hb : b ≠ 0 := fun hb => h ⟨rfl, hb⟩
    rw [apply, if_neg hb, result, fdiv_eq_floor]
  | remainder =>
    have hb : b ≠ 0 := fun hb => h ⟨rfl, hb⟩
    rw [apply, if_neg hb, result, Int.fmod_def, fdiv_eq_floor]

theorem apply_zero {op : Operator} (h : op.divides = true) (a : Int) :
    ∃ e, op.apply a 0 = .error e := by
  cases op with
  | add | subtract | multiply => cases h
  | divide | remainder => exact ⟨_, rfl⟩

end Operator

open Machine (numericName wordStart blockStart)

/-- What can stand for a number on a line. Of a character literal only the character behind the first quote
counts, and it has to be in the code page. -/
inductive Operand where
  | number (n : Int)
  | numericVar (i : Fin 26)
  | character (t : Text) (c : Char) (b : UInt8) (second : t[1]? = some c)
    (inPage : CodePage.encodeChar? c = some b)
  | reference (name : Text) (i : Fin 8) (named : stringAddress (name.drop 1) = .ok (blockStart i : Int))
  | keyword (k : Keyword)

namespace Operand

def token : Operand → Token
  | number n => .number n
  | numericVar i => .numericVar (numericName i)
  | character t _ _ _ _ => .char t
  | reference name _ _ => .stringRef name
  | keyword k => .word k.name

/-- The number that it stands for: a variable stands for its word, a character for its code, and a reference
for the address of its variable. -/
def value (m : Machine) : Operand → Int
  | number n => n
  | numericVar i =>
    ((m.memory.get (wordStart i)).toNat + 256 * (m.memory.get (wordStart i + 1)).toNat : Nat)
  | character _ _ b _ _ => b.toNat
  | reference _ i _ => blockStart i
  | keyword k => k.value m

theorem toNumeric_token {m : Machine} (h : 17664 ≤ m.memory.size) (o : Operand) :
    o.token.toNumeric m = .ok (o.value m) := by
  cases o with
  | number n => rfl
  | numericVar i =>
    simp only [token, Token.toNumeric, Machine.numeric_numericName h]
    rfl
  | character t c b second inPage => simp [token, Token.toNumeric, Token.charCode, second, inPage, value]
  | reference name i named => exact named
  | keyword k =>
    have hname : Keyword.ofName? k.name = some k := by cases k <;> decide
    simp [token, Token.toNumeric, hname, value]

end Operand

/-- The pairs of an operator and an operand behind the first operand. -/
abbrev Operations := List (Operator × Operand)

namespace Operations

def tokens (ops : Operations) : List Token := ops.flatMap fun p => [.symbol p.1.symbol, p.2.token]

@[simp] theorem length_tokens (ops : Operations) : ops.tokens.length = 2 * ops.length := by
  induction ops with
  | nil => rfl
  | cons p ops ih =>
    simp only [tokens, List.flatMap_cons, List.length_append, List.length_cons, List.length_nil] at ih ⊢
    omega

/-- From a value on, each operation is applied to what the ones before it gave. -/
def valueFrom (m : Machine) (a : Int) (ops : Operations) : Int :=
  ops.foldl (fun a p => p.1.result a (p.2.value m)) a

/-- A division or a remainder meets a zero. -/
def MeetZero (m : Machine) (ops : Operations) : Prop :=
  ∃ p ∈ ops, p.1.divides = true ∧ p.2.value m = 0

/-- The operations applied one after another, up to the first that fails. -/
def applyFrom (m : Machine) (a : Int) (ops : Operations) : Except Fault Int :=
  ops.foldlM (fun a p => p.1.apply a (p.2.value m)) a

theorem applyFrom_cons (m : Machine) (a : Int) (p : Operator × Operand) (ops : Operations) :
    applyFrom m a (p :: ops) = p.1.apply a (p.2.value m) >>= fun b => applyFrom m b ops :=
  List.foldlM_cons

theorem applyFrom_of_not_meetZero {m : Machine} {ops : Operations} (h : ¬ops.MeetZero m) (a : Int) :
    applyFrom m a ops = .ok (valueFrom m a ops) := by
  induction ops generalizing a with
  | nil => rfl
  | cons p ops ih =>
    have hp : ¬(p.1.divides = true ∧ p.2.value m = 0) := fun hp => h ⟨p, List.mem_cons_self, hp⟩
    have hops : ¬MeetZero m ops := fun ⟨q, hq, hzero⟩ => h ⟨q, List.mem_cons_of_mem p hq, hzero⟩
    rw [applyFrom_cons, Operator.apply_of_defined hp]
    exact ih hops _

theorem applyFrom_of_meetZero {m : Machine} {ops : Operations} (h : ops.MeetZero m) (a : Int) :
    ∃ e, applyFrom m a ops = .error e := by
  induction ops generalizing a with
  | nil =>
    obtain ⟨p, hp, -⟩ := h
    cases hp
  | cons p ops ih =>
    rw [applyFrom_cons]
    by_cases hp : p.1.divides = true ∧ p.2.value m = 0
    · obtain ⟨e, he⟩ := Operator.apply_zero hp.1 a
      exact ⟨e, by rw [hp.2, he]; rfl⟩
    · rw [Operator.apply_of_defined hp]
      apply ih
      obtain ⟨q, hq, hzero⟩ := h
      rcases List.mem_cons.mp hq with rfl | hq
      · exact absurd hzero hp
      · exact ⟨q, hq, hzero⟩

end Operations

namespace Arguments

theorem has_of_drop {ts l : List Token} {k : Nat} {t : Token} (hcount : (ts.length : Int) ≤ indexLimit)
    (h : ts.drop k = t :: l) : Has ts k t ∧ ts.drop (k + 1) = l := by
  have hitem : ts[k]? = some t := by rw [← List.head?_drop, h, List.head?_cons]
  have hlt : k < ts.length := (List.getElem?_eq_some_iff.mp hitem).1
  refine ⟨⟨Int.natCast_nonneg k, by omega, hitem⟩, ?_⟩
  rw [← List.drop_drop, h, List.drop_one, List.tail_cons]

end Arguments

namespace Call

variable {m : Machine} {ts : List Token}

theorem run_has_behind (p : Token → Bool) {k : Int} (h : ts.length ≤ k) :
    (has p).run ⟨m, ⟨ts, k⟩⟩ = (.ok false, ⟨m, ⟨ts, k⟩⟩) := by
  have hnone : Arguments.current ⟨ts, k⟩ = .ok none := by
    simp [Arguments.current, Arguments.hasMore, Int.not_lt.mpr h]
  simp [has, look, Run.run_bind, Run.run_map, hnone]

variable {l : List Token} (hm : 17664 ≤ m.memory.size) (hcount : (ts.length : Int) ≤ indexLimit)
  (hl : ∀ t ∈ l.head?, t.isSymbol = false)
include hm hcount hl

/-- Behind a value the operations up to the next argument that is no symbol are applied to it. -/
theorem run_sumFrom (ops : Operations) (a : Int) {n k : Nat} (hts : ts.drop k = ops.tokens ++ l)
    (hn : ops.length ≤ n) :
    ∃ args, (sumFrom a n).run ⟨m, ⟨ts, k⟩⟩ = (ops.applyFrom m a, ⟨m, args⟩) ∧
      ∀ v, ops.applyFrom m a = .ok v → args = ⟨ts, (k + 2 * ops.length : Nat)⟩ := by
  induction ops generalizing a n k with
  | nil =>
    refine ⟨⟨ts, k⟩, ?_, fun _ _ => rfl⟩
    cases n with
    | zero => rfl
    | succ n =>
      -- Either nothing is left, or what is left does not begin with a symbol.
      have hstop : hasSymbol.run ⟨m, ⟨ts, k⟩⟩ = (.ok false, ⟨m, ⟨ts, k⟩⟩) := by
        cases l with
        | nil => exact run_has_behind _ (by have := List.drop_eq_nil_iff.mp hts; omega)
        | cons t l =>
          rw [hasSymbol, run_has _ (Arguments.has_of_drop hcount hts).1, hl t rfl]
      rw [sumFrom, Run.run_bind_ok hstop]
      rfl
  | cons p ops ih =>
    obtain ⟨n, rfl⟩ : ∃ n', n = n' + 1 := ⟨n - 1, by simp at hn; omega⟩
    obtain ⟨hsymbol, hrest⟩ := Arguments.has_of_drop hcount hts
    obtain ⟨hoperand, hrest⟩ := Arguments.has_of_drop hcount hrest
    have hgo : hasSymbol.run ⟨m, ⟨ts, k⟩⟩ = (.ok true, ⟨m, ⟨ts, k⟩⟩) := run_has _ hsymbol
    have hop : (nextSymbolOf Operator.symbols).run ⟨m, ⟨ts, k⟩⟩ =
        (.ok p.1.symbol, ⟨m, ⟨ts, (k + 1 : Nat)⟩⟩) := by
      simp only [nextSymbolOf, nextSymbol, Run.run_bind, run_nextAs _ hsymbol, Token.toSymbol, isOneOf,
        List.contains_iff_mem, p.1.symbol_mem, if_true]
      rfl
    have hread : nextNumeric.run ⟨m, ⟨ts, (k + 1 : Nat)⟩⟩ =
        (.ok (p.2.value m), ⟨m, ⟨ts, (k + 1 + 1 : Nat)⟩⟩) := by
      rw [nextNumeric, run_nextAs _ hoperand, p.2.toNumeric_token hm]
      rfl
    rw [sumFrom, Run.run_bind_ok hgo, if_pos rfl, Run.run_bind_ok hop, Run.run_bind_ok hread,
      p.1.ofSymbol_symbol, Operations.applyFrom_cons]
    cases happly : p.1.apply a (p.2.value m) with
    | error e => exact ⟨⟨ts, (k + 1 + 1 : Nat)⟩, rfl, fun _ h => by cases h⟩
    | ok b =>
      obtain ⟨args, hrun, hargs⟩ := ih b hrest (by simpa using hn)
      refine ⟨args, hrun, fun v hv => (hargs v hv).trans ?_⟩
      simp only [List.length_cons]
      congr 2
      omega

end Call

/-- Operands with operators between them. -/
structure Expression where
  first : Operand
  rest : Operations

namespace Expression

def tokens (e : Expression) : List Token := e.first.token :: e.rest.tokens

/-- The value from left to right, over all integers. -/
def value (m : Machine) (e : Expression) : Int := e.rest.valueFrom m (e.first.value m)

/-- An expression among the arguments, with no symbol behind it, is worked out and changes nothing. If there
is a value, all of the expression is read. -/
theorem run_sum {m : Machine} {ts l : List Token} (hm : 17664 ≤ m.memory.size)
    (hcount : (ts.length : Int) ≤ indexLimit) (hl : ∀ t ∈ l.head?, t.isSymbol = false) (e : Expression)
    {k : Nat} (hts : ts.drop k = e.tokens ++ l) :
    ∃ args, Call.sum.run ⟨m, ⟨ts, k⟩⟩ = (e.rest.applyFrom m (e.first.value m), ⟨m, args⟩) ∧
      ∀ v, e.rest.applyFrom m (e.first.value m) = .ok v →
        args = ⟨ts, (k + e.tokens.length : Nat)⟩ := by
  obtain ⟨hfirst, hrest⟩ := Arguments.has_of_drop (l := e.rest.tokens ++ l) hcount hts
  have hread : Call.nextNumeric.run ⟨m, ⟨ts, k⟩⟩ = (.ok (e.first.value m), ⟨m, ⟨ts, (k + 1 : Nat)⟩⟩) := by
    rw [Call.nextNumeric, Call.run_nextAs _ hfirst, e.first.toNumeric_token hm]
    rfl
  have hleft : Call.argumentsLeft.run ⟨m, ⟨ts, (k + 1 : Nat)⟩⟩ =
      (.ok (ts.length - (k + 1)), ⟨m, ⟨ts, (k + 1 : Nat)⟩⟩) := by
    have hcast : ((ts.length : Int) - (k + 1 : Nat)).toNat = ts.length - (k + 1) := by omega
    rw [← hcast]
    rfl
  -- Each operation takes two arguments, so those left are rounds enough.
  have henough : e.rest.length ≤ ts.length - (k + 1) := by
    have hlength := congrArg List.length hrest
    rw [List.length_drop, List.length_append, Operations.length_tokens] at hlength
    omega
  obtain ⟨args, hrun, hargs⟩ := Call.run_sumFrom hm hcount hl e.rest (e.first.value m) hrest henough
  refine ⟨args, ?_, fun v hv => (hargs v hv).trans ?_⟩
  · rw [Call.sum, Run.run_bind_ok hread, Run.run_bind_ok hleft]
    exact hrun
  · simp only [tokens, List.length_cons, Operations.length_tokens]
    congr 2
    omega

end Expression
end BasicMachine
