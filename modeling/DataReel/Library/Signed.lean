import Mathlib.Algebra.Group.Int.Defs
import Mathlib.Data.Int.Order.Basic

/-! # Signed machine integers

A signed type of `w` bits holds the integers from `-2 ^ (w - 1)` up to
`2 ^ (w - 1)`. Arithmetic in it is undefined where the result does not fit.
-/

namespace DataReel

def FitsWord (w : Nat) (x : Int) : Prop := -(2 ^ (w - 1)) ≤ x ∧ x < 2 ^ (w - 1)

instance (w : Nat) (x : Int) : Decidable (FitsWord w x) :=
  inferInstanceAs (Decidable (_ ∧ _))

theorem FitsWord.mono {m n : Nat} {x : Int} (h : FitsWord m x) (hmn : m ≤ n) : FitsWord n x := by
  have hPow : (2 : Int) ^ (m - 1) ≤ 2 ^ (n - 1) := by
    exact_mod_cast Nat.pow_le_pow_right (Nat.zero_lt_two) (Nat.sub_le_sub_right hmn 1)
  exact ⟨by have := h.1; omega, by have := h.2; omega⟩

/-- The result of an operation whose exact value is `x`. -/
def checkedWord (w : Nat) (x : Int) : Option Int := if FitsWord w x then some x else none

theorem checkedWord_of_fits {w : Nat} {x : Int} (h : FitsWord w x) : checkedWord w x = some x :=
  if_pos h

theorem checkedWord_eq_none {w : Nat} {x : Int} (h : ¬ FitsWord w x) : checkedWord w x = none :=
  if_neg h

/-- Counts and places, `-1` included, fit below the upper limit. -/
theorem checkedWord_of_small {w : Nat} {x : Int} (hLow : -1 ≤ x) (h : x < 2 ^ (w - 1)) :
    checkedWord w x = some x := by
  have hPos : (0 : Int) < 2 ^ (w - 1) := Int.pow_pos (by omega)
  exact checkedWord_of_fits ⟨by omega, h⟩

end DataReel
