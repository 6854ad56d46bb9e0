import Mathlib.Data.List.Basic

/-! # Systems that take steps in any order

A step is an action that a state allows or refuses. What holds of all orders of
the actions is proved of one action and then of every list of actions.
-/

namespace DataReel

universe u v

/-- Actions `α` on states `σ`. -/
structure Transition (α : Type u) (σ : Type v) where
  step : α → σ → Option σ

namespace Transition

variable {α : Type u} {σ : Type v} (T : Transition α σ)

/-- The state after a list of actions, if each of them was allowed. -/
def run : List α → σ → Option σ
  | [], s => some s
  | a :: as, s => (T.step a s).bind (run as)

variable {T} {a : α} {as bs : List α} {s s' : σ}

theorem run_cons_eq_some :
    T.run (a :: as) s = some s' ↔ ∃ t, T.step a s = some t ∧ T.run as t = some s' := by
  rw [run, Option.bind_eq_some_iff]

/-- What every allowed action preserves, a run preserves. -/
theorem run_invariant {I : σ → Prop} (hStep : ∀ a s t, T.step a s = some t → I s → I t)
    (hRun : T.run as s = some s') (hI : I s) : I s' := by
  induction as generalizing s with
  | nil =>
    obtain rfl := Option.some.inj hRun
    exact hI
  | cons a as ih =>
    obtain ⟨t, hFirst, hRest⟩ := run_cons_eq_some.mp hRun
    exact ih hRest (hStep a s t hFirst hI)

end Transition

end DataReel
