import BasicMachine.Fault

/-! Steps on a state that may fail. What a step did before it failed stays done. -/
namespace BasicMachine

instance decidableEqResult {ε α : Type} [DecidableEq ε] [DecidableEq α] : DecidableEq (Except ε α)
  | .ok a, .ok b => decidable_of_iff (a = b) (by simp)
  | .error a, .error b => decidable_of_iff (a = b) (by simp)
  | .ok _, .error _ => isFalse (by simp)
  | .error _, .ok _ => isFalse (by simp)

theorem toOption_eq_some_iff {ε β : Type} {x : Except ε β} {b : β} :
    x.toOption = some b ↔ x = .ok b := by
  cases x <;> simp [Except.toOption]

theorem bind_eq_ok_iff {ε α β : Type} {x : Except ε α} {f : α → Except ε β} {b : β} :
    x >>= f = .ok b ↔ ∃ a, x = .ok a ∧ f a = .ok b := by
  cases x <;> simp [bind, Except.bind]

theorem bind_eq_error_iff {ε α β : Type} {x : Except ε α} {f : α → Except ε β} {e : ε} :
    x >>= f = .error e ↔ x = .error e ∨ ∃ a, x = .ok a ∧ f a = .error e := by
  cases x <;> simp [bind, Except.bind]

structure Run (σ α : Type) where
  run : σ → Except Fault α × σ

namespace Run

variable {σ τ α β : Type}

def fail (e : Fault) : Run σ α := ⟨fun s => (.error e, s)⟩

def bind (x : Run σ α) (f : α → Run σ β) : Run σ β := ⟨fun s =>
  match x.run s with
  | (.ok a, s') => (f a).run s'
  | (.error e, s') => (.error e, s')⟩

/-- Runs `x`, and `h` from where `x` failed. -/
def recover (x : Run σ α) (h : Fault → Run σ α) : Run σ α := ⟨fun s =>
  match x.run s with
  | (.ok a, s') => (.ok a, s')
  | (.error e, s') => (h e).run s'⟩

instance : Monad (Run σ) where
  pure a := ⟨fun s => (.ok a, s)⟩
  bind := Run.bind

instance : MonadStateOf σ (Run σ) where
  get := ⟨fun s => (.ok s, s)⟩
  set s := ⟨fun _ => (.ok (), s)⟩
  modifyGet f := ⟨fun s => let (a, s') := f s; (.ok a, s')⟩

instance : MonadExceptOf Fault (Run σ) where
  throw := Run.fail
  tryCatch := Run.recover

@[ext] theorem ext {x y : Run σ α} (h : ∀ s, x.run s = y.run s) : x = y := by
  cases x; cases y; congr; funext s; exact h s

@[simp] theorem run_pure (a : α) (s : σ) : (pure a : Run σ α).run s = (.ok a, s) := rfl

@[simp] theorem run_fail (e : Fault) (s : σ) : (fail e : Run σ α).run s = (.error e, s) := rfl

@[simp] theorem run_throw (e : Fault) (s : σ) : (throw e : Run σ α).run s = (.error e, s) := rfl

@[simp] theorem run_get (s : σ) : (get : Run σ σ).run s = (.ok s, s) := rfl

@[simp] theorem run_set (s s' : σ) : (set s' : Run σ PUnit).run s = (.ok (), s') := rfl

@[simp] theorem run_modify (f : σ → σ) (s : σ) : (modify f : Run σ PUnit).run s = (.ok (), f s) := rfl

theorem run_bind (x : Run σ α) (f : α → Run σ β) (s : σ) :
    (x >>= f).run s = match x.run s with
      | (.ok a, s') => (f a).run s'
      | (.error e, s') => (.error e, s') := rfl

theorem run_map (f : α → β) (x : Run σ α) (s : σ) :
    (f <$> x).run s = match x.run s with
      | (.ok a, s') => (.ok (f a), s')
      | (.error e, s') => (.error e, s') := rfl

theorem run_tryCatch (x : Run σ α) (h : Fault → Run σ α) (s : σ) :
    (tryCatch x h).run s = match x.run s with
      | (.ok a, s') => (.ok a, s')
      | (.error e, s') => (h e).run s' := rfl

theorem run_bind_ok {x : Run σ α} {f : α → Run σ β} {s s' : σ} {a : α}
    (h : x.run s = (.ok a, s')) : (x >>= f).run s = (f a).run s' := by
  simp [run_bind, h]

theorem run_bind_error {x : Run σ α} {f : α → Run σ β} {s s' : σ} {e : Fault}
    (h : x.run s = (.error e, s')) : (x >>= f).run s = (.error e, s') := by
  simp [run_bind, h]

/-- A sequence succeeds only if both of its parts do. -/
theorem run_bind_eq_ok {x : Run σ α} {f : α → Run σ β} {s s'' : σ} {b : β}
    (h : (x >>= f).run s = (.ok b, s'')) :
    ∃ a s', x.run s = (.ok a, s') ∧ (f a).run s' = (.ok b, s'') := by
  rcases hx : x.run s with ⟨r, s'⟩
  cases r with
  | error e => simp [run_bind_error hx] at h
  | ok a => exact ⟨a, s', rfl, by rwa [run_bind_ok hx] at h⟩

private theorem bind_pure_run (x : Run σ α) : x.bind pure = x := by
  refine Run.ext fun s => ?_
  rcases h : x.run s with ⟨r, s'⟩
  cases r <;> simp [Run.bind, h]

instance : LawfulMonad (Run σ) := LawfulMonad.mk' (Run σ)
  (fun x => bind_pure_run x)
  (fun _ _ => rfl)
  (fun x f g => by
    refine Run.ext fun s => ?_
    rcases h : x.run s with ⟨r, s'⟩
    cases r <;> simp [run_bind, h])

/-- A value that may be a fault, as a step that leaves the state alone. -/
def ofExcept (x : Except Fault α) : Run σ α := ⟨fun s => (x, s)⟩

@[simp] theorem run_ofExcept (x : Except Fault α) (s : σ) : (ofExcept x).run s = (x, s) := rfl

/-- A step on a part of the state. -/
def onPart (part : σ → τ) (put : τ → σ → σ) (x : Run τ α) : Run σ α := ⟨fun s =>
  let (r, t) := x.run (part s)
  (r, put t s)⟩

@[simp] theorem run_onPart (part : σ → τ) (put : τ → σ → σ) (x : Run τ α) (s : σ) :
    (onPart part put x).run s = ((x.run (part s)).1, put (x.run (part s)).2 s) := rfl

end Run
end BasicMachine
