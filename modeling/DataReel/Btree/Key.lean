import DataReel.Library.Comparison

/-! # Database keys

`DatabaseKey` is both the key object of a caller (`DatabaseKeyB`) and one key
entry of a node: the file pointer to the right child and the key value.
-/

namespace DataReel

/-- File address units are signed; `0` is the null address. -/
abbrev FAU := Int

structure DatabaseKey (κ : Type) where
  rightChild : FAU
  dbKey : κ
  deriving DecidableEq, Repr

/-- A class derived from `DatabaseKeyB`, together with the two preprocessor directives that
choose how nodes are searched. A build without `__USE_SINGLE_COMPARE__` calls the two
operators, a build with it calls `CompareKey`. -/
structure KeyClass (κ : Type) where
  operatorGt : κ → κ → Bool
  operatorEq : κ → κ → Bool
  compareKey : κ → κ → Int
  useBinarySearch : Bool
  useSingleCompare : Bool

namespace KeyClass

variable {κ : Type} (K : KeyClass κ)

def comparison : Comparison κ where
  lt a b := K.operatorGt b a
  eqv a b := K.operatorEq a b

/-- The comparison of the class is a strict total order, and `CompareKey` describes the same
order as the operators do. -/
structure StrictOrder : Prop where
  strict : K.comparison.Strict
  compareKey_pos : ∀ a b, 0 < K.compareKey a b ↔ K.operatorGt a b = true
  compareKey_zero : ∀ a b, K.compareKey a b = 0 ↔ K.operatorEq a b = true

/-- Integer keys under the built-in comparison, as the default build searches them. -/
def int : KeyClass Int where
  operatorGt a b := decide (b < a)
  operatorEq a b := decide (a = b)
  compareKey a b := if a < b then -1 else if a = b then 0 else 1
  useBinarySearch := true
  useSingleCompare := true

theorem int_strictOrder : int.StrictOrder where
  strict := by
    constructor <;> simp [comparison, int] <;> omega
  compareKey_pos a b := by
    simp only [int, decide_eq_true_eq]
    split
    · omega
    · split <;> omega
  compareKey_zero a b := by
    simp only [int, decide_eq_true_eq]
    split
    · omega
    · split <;> omega

end KeyClass

end DataReel
