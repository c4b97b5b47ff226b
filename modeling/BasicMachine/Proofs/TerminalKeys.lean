import BasicMachine.Proofs.MemorySize
import BasicMachine.Terminal

/-! Keys on a character terminal. A read that comes to an arrow key takes its code and no other. Any other
code it throws away, and answers with the code behind it. So a series of reads gives the waiting keys one by
one just when they are arrows, but for one accident: the number that stands for no key has the low byte 255,
and a read that does not wait answers a last key of this byte rightly. -/
namespace BasicMachine.Terminal

/-- The number of an arrow key: up, down, left, right. -/
def arrowNumber? (k : Int) : Option Int :=
  if k = 259 then some 1
  else if k = 258 then some 2
  else if k = 260 then some 3
  else if k = 261 then some 4
  else none

/-- What a read has to answer for a key: the number of an arrow, and the low byte of any other code. -/
def answer (k : Int) : Int := (arrowNumber? k).getD (k % 256)

def afterRead (t : Terminal) (wait : Bool) : Terminal := ((readKey wait).run t).2

/-- The read takes the first of the waiting codes and answers with it. With none waiting, a read that does not
wait answers zero. -/
def TakesFirst (t : Terminal) (wait : Bool) : Prop :=
  match t.keys with
  | k :: rest => ((readKey wait).run t).1 = .ok (answer k) ∧ (t.afterRead wait).keys = rest
  | [] => wait = false → ((readKey wait).run t).1 = .ok 0 ∧ (t.afterRead wait).keys = []

def asked (t : Terminal) (wait : Bool) : Terminal :=
  { t with noDelay := !wait, called := .noDelay (!wait) :: t.called }

section Read

variable {t : Terminal} {k : Int} {rest : List Int}

theorem run_getKey_cons (hkeys : t.keys = k :: rest) : getKey.run t = (.ok k, { t with keys := rest }) := by
  simp only [getKey, Run.run_bind, Run.run_get, hkeys]
  rfl

theorem run_getKey_nil (hkeys : t.keys = []) :
    getKey.run t = (if t.noDelay then .ok (-1) else .error .interrupted, t) := by
  simp only [getKey, Run.run_bind, Run.run_get, hkeys]
  split <;> rfl

variable (wait : Bool)

theorem run_readKey_nil (hkeys : t.keys = []) :
    (readKey wait).run t = (if wait then .error .interrupted else .ok 0, t.asked wait) := by
  have hget := run_getKey_nil (t := t.asked wait) hkeys
  change (getKey >>= _).run (t.asked wait) = _
  cases wait with
  | true => exact Run.run_bind_error hget
  | false => exact Run.run_bind_ok hget

theorem run_readKey_arrow {n : Int} (hkeys : t.keys = k :: rest) (hn : arrowNumber? k = some n) :
    (readKey wait).run t = (.ok n, { t.asked wait with keys := rest }) := by
  have hcases : k = 259 ∧ n = 1 ∨ k = 258 ∧ n = 2 ∨ k = 260 ∧ n = 3 ∨ k = 261 ∧ n = 4 := by
    unfold arrowNumber? at hn
    grind
  have hget := run_getKey_cons (t := t.asked wait) hkeys
  rcases hcases with ⟨rfl, rfl⟩ | ⟨rfl, rfl⟩ | ⟨rfl, rfl⟩ | ⟨rfl, rfl⟩ <;> exact Run.run_bind_ok hget

/-- The code of a key that is no arrow is dropped, and the next one is asked for. -/
theorem run_readKey_other (hkeys : t.keys = k :: rest) (hk : arrowNumber? k = none) (hcode : k ≠ -1) :
    (readKey wait).run t = (do return (← getKey) % 256 : Run Terminal Int).run
      { t.asked wait with keys := rest } := by
  have hget := run_getKey_cons (t := t.asked wait) hkeys
  have hother : k ≠ 259 ∧ k ≠ 258 ∧ k ≠ 260 ∧ k ≠ 261 := by
    unfold arrowNumber? at hk
    grind
  obtain ⟨hup, hdown, hleft, hright⟩ := hother
  refine (Run.run_bind_ok hget).trans ?_
  rw [if_neg hcode, if_neg hup, if_neg hdown, if_neg hleft, if_neg hright]

end Read

/-- A read comes to no code, to an arrow, or, if it does not wait, to a last code of the low byte 255. -/
def Spared (t : Terminal) (wait : Bool) : Prop :=
  match t.keys with
  | k :: rest => (arrowNumber? k).isSome ∨ wait = false ∧ rest = [] ∧ k ≠ -1 ∧ k % 256 = 255
  | [] => True

/-- Of a code that is no arrow the read keeps the code behind it, or the number that stands for none. -/
theorem takesFirst_other_iff {t : Terminal} {k : Int} {rest : List Int} (wait : Bool)
    (hkeys : t.keys = k :: rest) (hk : arrowNumber? k = none) (hcode : k ≠ -1) :
    (((readKey wait).run t).1 = .ok (answer k) ∧ (t.afterRead wait).keys = rest) ↔
      wait = false ∧ rest = [] ∧ k % 256 = 255 := by
  have hanswer : answer k = k % 256 := by rw [answer, hk, Option.getD_none]
  rw [afterRead, run_readKey_other wait hkeys hk hcode, hanswer]
  cases rest with
  | nil =>
    have hget := run_getKey_nil (t := { t.asked wait with keys := [] }) rfl
    cases wait with
    | true =>
      rw [Run.run_bind_error hget]
      simp
    | false =>
      rw [Run.run_bind_ok hget]
      simp [eq_comm]
  | cons next rest =>
    have hget := run_getKey_cons (t := { t.asked wait with keys := next :: rest }) rfl
    rw [Run.run_bind_ok hget]
    simp

theorem takesFirst_iff (t : Terminal) (wait : Bool) : t.TakesFirst wait ↔ t.Spared wait := by
  unfold TakesFirst Spared
  cases hkeys : t.keys with
  | nil =>
    dsimp only
    rw [iff_true]
    rintro rfl
    rw [afterRead, run_readKey_nil false hkeys]
    exact ⟨rfl, hkeys⟩
  | cons k rest =>
    dsimp only
    cases hk : arrowNumber? k with
    | some n =>
      rw [afterRead, run_readKey_arrow wait hkeys hk, answer, hk]
      simp
    | none =>
      by_cases hcode : k = -1
      · subst hcode
        have hget := run_getKey_cons (t := t.asked wait) hkeys
        have hread : (readKey wait).run t = (.ok 0, { t.asked wait with keys := rest }) :=
          Run.run_bind_ok hget
        rw [hread]
        simp [answer, arrowNumber?]
      · rw [takesFirst_other_iff wait hkeys hk hcode]
        simp [hcode]

theorem keys_afterRead_nil {t : Terminal} (hkeys : t.keys = []) (wait : Bool) : (t.afterRead wait).keys = [] := by
  rw [afterRead, run_readKey_nil wait hkeys]
  exact hkeys

/-- A series of reads takes the waiting keys one by one and answers with them, just when each key that it comes
to is an arrow, or is the last one, has the low byte 255 and is not waited for. -/
theorem reads_take_each_key_iff (t : Terminal) (waits : List Bool) :
    Along afterRead TakesFirst t waits ↔
      ∀ (i : Nat) (k : Int) (wait : Bool), t.keys[i]? = some k → waits[i]? = some wait →
        (arrowNumber? k).isSome ∨ wait = false ∧ i + 1 = t.keys.length ∧ k ≠ -1 ∧ k % 256 = 255 := by
  induction waits generalizing t with
  | nil => simp [Along]
  | cons wait waits ih =>
    rw [Along, ih]
    cases hkeys : t.keys with
    | nil =>
      rw [keys_afterRead_nil hkeys, takesFirst_iff, Spared, hkeys]
      simp
    | cons k rest =>
      -- Once the first read is right, the others are left with the keys behind the first.
      have hrest : t.TakesFirst wait → (t.afterRead wait).keys = rest := by
        rw [TakesFirst, hkeys]
        exact And.right
      have hfirst : t.TakesFirst wait ↔
          (arrowNumber? k).isSome ∨ wait = false ∧ rest.length = 0 ∧ k ≠ -1 ∧ k % 256 = 255 := by
        rw [takesFirst_iff, Spared, hkeys, List.length_eq_zero_iff]
      constructor
      · rintro ⟨htakes, hothers⟩ i k' wait' hk hwait
        cases i with
        | zero =>
          simp only [List.getElem?_cons_zero, Option.some.injEq] at hk hwait
          subst hk hwait
          simpa using hfirst.mp htakes
        | succ i =>
          rw [hrest htakes] at hothers
          simpa using hothers i k' wait' hk hwait
      · intro hall
        have htakes : t.TakesFirst wait := hfirst.mpr (by simpa using hall 0 k wait rfl rfl)
        refine ⟨htakes, fun i k' wait' hk hwait => ?_⟩
        rw [hrest htakes] at hk ⊢
        simpa using hall (i + 1) k' wait' hk hwait

/-- Of two letters the first is lost: the first read answers with the second letter, and the next one finds
nothing. -/
theorem letter_not_delivered :
    ¬Along afterRead TakesFirst { keys := [65, 66] } [true, true] ∧
      ((readKey true).run { keys := [65, 66] }).1 = .ok 66 ∧
      (afterRead { keys := [65, 66] } true).keys = [] ∧
      ((readKey true).run (afterRead { keys := [65, 66] } true)).1 = .error .interrupted := by
  refine ⟨?_, by decide, by decide, by decide⟩
  rintro ⟨⟨hfirst, -⟩, -⟩
  exact absurd hfirst (by decide)

end BasicMachine.Terminal
