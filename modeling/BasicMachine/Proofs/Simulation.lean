import BasicMachine.Call

/-! Steps on related states. `y` simulates `x` if, from related states, every success of `x` is a success
of `y` with the same value and related states behind it. A failure of `x` asks nothing of `y`. -/
namespace BasicMachine

namespace Run

variable {σ τ α β : Type}

def Simulates (R : σ → τ → Prop) (x : Run σ α) (y : Run τ α) : Prop :=
  ∀ s t, R s t → ∀ a s', x.run s = (.ok a, s') → ∃ t', y.run t = (.ok a, t') ∧ R s' t'

namespace Simulates

variable {R : σ → τ → Prop}

protected theorem pure (a : α) : Simulates R (pure a) (pure a) := by
  intro s t h b s' hrun
  simp only [run_pure, Prod.mk.injEq, Except.ok.injEq] at hrun
  obtain ⟨rfl, rfl⟩ := hrun
  exact ⟨t, rfl, h⟩

protected theorem bind {x : Run σ α} {y : Run τ α} {f : α → Run σ β} {g : α → Run τ β}
    (hx : Simulates R x y) (hf : ∀ a, Simulates R (f a) (g a)) :
    Simulates R (x >>= f) (y >>= g) := by
  intro s t h b s' hrun
  obtain ⟨a, s₁, hfirst, hsecond⟩ := run_bind_eq_ok hrun
  obtain ⟨t₁, hy, h₁⟩ := hx s t h a s₁ hfirst
  rw [run_bind_ok hy]
  exact hf a s₁ t₁ h₁ b s' hsecond

protected theorem ite {x y : Run σ α} {x' y' : Run τ α} (p : Prop) [Decidable p] (hx : Simulates R x x')
    (hy : Simulates R y y') : Simulates R (if p then x else y) (if p then x' else y') := by
  split
  · exact hx
  · exact hy

theorem of_failing {x : Run σ α} (y : Run τ α) (h : ∀ s, ∃ e, (x.run s).1 = .error e) :
    Simulates R x y := by
  intro s t _ a s' hrun
  obtain ⟨e, he⟩ := h s
  simp [hrun] at he

protected theorem throw (e : Fault) : Simulates R (throw e : Run σ α) (throw e : Run τ α) :=
  of_failing _ fun _ => ⟨e, rfl⟩

protected theorem ofExcept (r : Except Fault α) : Simulates R (ofExcept r) (ofExcept r) := by
  cases r with
  | error e => exact .throw e
  | ok a => exact .pure a

theorem ofExcept_bind {r : Except Fault α} {f : α → Run σ β} {g : α → Run τ β}
    (h : ∀ a, r = .ok a → Simulates R (f a) (g a)) :
    Simulates R (ofExcept r >>= f) (ofExcept r >>= g) := by
  cases r with
  | error e => exact of_failing _ fun _ => ⟨e, rfl⟩
  | ok a => exact h a rfl

theorem get_bind {f : σ → Run σ α} {g : τ → Run τ α}
    (h : ∀ s t, R s t → Simulates R (f s) (g t)) : Simulates R (get >>= f) (get >>= g) := by
  intro s t hst a s' hrun
  exact h s t hst s t hst a s' hrun

protected theorem modify {f : σ → σ} {g : τ → τ} (h : ∀ s t, R s t → R (f s) (g t)) :
    Simulates R (modify f : Run σ PUnit) (modify g : Run τ PUnit) := by
  intro s t hst a s' hrun
  simp only [run_modify, Prod.mk.injEq] at hrun
  obtain ⟨-, rfl⟩ := hrun
  exact ⟨g t, rfl, h s t hst⟩

protected theorem forM {ι : Type} {f : ι → Run σ Unit} {g : ι → Run τ Unit} (items : List ι)
    (h : ∀ i ∈ items, Simulates R (f i) (g i)) : Simulates R (items.forM f) (items.forM g) := by
  induction items with
  | nil => exact .pure ()
  | cons i rest ih =>
    refine (h i (by simp)).bind fun _ => ih fun j hj => h j (by simp [hj])

end Simulates
end Run
end BasicMachine
