import Mathlib.Tactic.TypeStar

/-! # Running programs with a state and an error

`EStateM ε σ` keeps the state of a failed run. These equations let a proof run
a program one action at a time.
-/

namespace DataReel.Exec

universe u

variable {ε σ α β : Type u}

theorem bind_ok {x : EStateM ε σ α} {f : α → EStateM ε σ β} {s s' : σ} {a : α}
    (h : x s = .ok a s') : (x >>= f) s = f a s' := by
  change EStateM.bind x f s = f a s'
  simp only [EStateM.bind, h]

theorem bind_error {x : EStateM ε σ α} {f : α → EStateM ε σ β} {s s' : σ} {e : ε}
    (h : x s = .error e s') : (x >>= f) s = .error e s' := by
  change EStateM.bind x f s = .error e s'
  simp only [EStateM.bind, h]

theorem bind_congr {x y : EStateM ε σ α} {f : α → EStateM ε σ β} {s : σ} (h : x s = y s) :
    (x >>= f) s = (y >>= f) s := by
  change EStateM.bind x f s = EStateM.bind y f s
  simp only [EStateM.bind, h]

/-- A run that succeeds has made all its actions succeed. -/
theorem of_bind_ok {x : EStateM ε σ α} {f : α → EStateM ε σ β} {s s'' : σ} {b : β}
    (h : (x >>= f) s = .ok b s'') : ∃ a s', x s = .ok a s' ∧ f a s' = .ok b s'' := by
  change EStateM.bind x f s = .ok b s'' at h
  cases hx : x s with
  | ok a s' =>
    simp only [EStateM.bind, hx] at h
    exact ⟨a, s', rfl, h⟩
  | error e s' =>
    simp only [EStateM.bind, hx] at h
    cases h

/-- A run that fails has made its first action fail, or the rest after it. -/
theorem of_bind_error {x : EStateM ε σ α} {f : α → EStateM ε σ β} {s s'' : σ} {e : ε}
    (h : (x >>= f) s = .error e s'') :
    x s = .error e s'' ∨ ∃ a s', x s = .ok a s' ∧ f a s' = .error e s'' := by
  cases hx : x s with
  | ok a s' =>
    rw [bind_ok hx] at h
    exact .inr ⟨a, s', rfl, h⟩
  | error e' s' =>
    rw [bind_error hx] at h
    cases h
    exact .inl rfl

@[simp] theorem pure_run (a : α) (s : σ) : (pure a : EStateM ε σ α) s = .ok a s := rfl

@[simp] theorem throw_run (e : ε) (s : σ) : (throw e : EStateM ε σ α) s = .error e s := rfl

@[simp] theorem get_run (s : σ) : (get : EStateM ε σ σ) s = .ok s s := rfl

@[simp] theorem modify_run (f : σ → σ) (s : σ) :
    (modify f : EStateM ε σ PUnit) s = .ok ⟨⟩ (f s) := rfl

end DataReel.Exec
