import Mathlib.Data.List.Basic
import Mathlib.Data.List.Pairwise

/-! # Strict comparisons with an equality of their own

Two values may compare equal without being equal. A comparison is strict when
exactly one of "less", "equal" and "greater" holds of every pair and both
relations are transitive.
-/

namespace DataReel

universe u

structure Comparison (α : Type u) where
  lt : α → α → Bool
  eqv : α → α → Bool

namespace Comparison

variable {α : Type u} {C : Comparison α}

structure Strict (C : Comparison α) : Prop where
  lt_trans : ∀ {a b c}, C.lt a b = true → C.lt b c = true → C.lt a c = true
  eqv_symm : ∀ {a b}, C.eqv a b = true → C.eqv b a = true
  eqv_trans : ∀ {a b c}, C.eqv a b = true → C.eqv b c = true → C.eqv a c = true
  total : ∀ a b, C.lt a b = true ∨ C.eqv a b = true ∨ C.lt b a = true
  lt_not_eqv : ∀ {a b}, C.lt a b = true → C.eqv a b = false
  lt_not_gt : ∀ {a b}, C.lt a b = true → C.lt b a = false

namespace Strict

variable (hC : C.Strict) {a b c : α}

include hC

theorem lt_irrefl (a : α) : C.lt a a = false := by
  cases h : C.lt a a with
  | false => rfl
  | true => exact h.symm.trans (hC.lt_not_gt h)

theorem eqv_refl (a : α) : C.eqv a a = true := by
  rcases hC.total a a with h | h | h
  · exact absurd h (by simp [hC.lt_irrefl])
  · exact h
  · exact absurd h (by simp [hC.lt_irrefl])

theorem eqv_not_lt (h : C.eqv a b = true) : C.lt a b = false := by
  cases hLt : C.lt a b with
  | false => rfl
  | true => exact absurd h (by simp [hC.lt_not_eqv hLt])

theorem eqv_not_gt (h : C.eqv a b = true) : C.lt b a = false :=
  hC.eqv_not_lt (hC.eqv_symm h)

theorem gt_not_eqv (h : C.lt b a = true) : C.eqv a b = false := by
  cases hEq : C.eqv a b with
  | false => rfl
  | true => exact absurd h (by simp [hC.eqv_not_gt hEq])

theorem lt_of_eqv_lt (h : C.eqv a b = true) (h' : C.lt b c = true) : C.lt a c = true := by
  rcases hC.total a c with hac | hac | hac
  · exact hac
  · have hbc := hC.eqv_trans (hC.eqv_symm h) hac
    exact absurd hbc (by simp [hC.lt_not_eqv h'])
  · have hba := hC.lt_trans h' hac
    exact absurd h (by simp [hC.gt_not_eqv hba])

theorem lt_of_lt_eqv (h : C.lt a b = true) (h' : C.eqv b c = true) : C.lt a c = true := by
  rcases hC.total a c with hac | hac | hac
  · exact hac
  · have hab := hC.eqv_trans hac (hC.eqv_symm h')
    exact absurd hab (by simp [hC.lt_not_eqv h])
  · have hcb := hC.lt_trans hac h
    exact absurd h' (by simp [hC.gt_not_eqv hcb])

end Strict

def Sorted (C : Comparison α) (l : List α) : Prop := l.Pairwise fun a b => C.lt a b = true

@[simp] theorem sorted_nil : C.Sorted [] := List.Pairwise.nil

theorem sorted_append {l r : List α} :
    C.Sorted (l ++ r) ↔ C.Sorted l ∧ C.Sorted r ∧ ∀ a ∈ l, ∀ b ∈ r, C.lt a b = true :=
  List.pairwise_append

theorem sorted_cons {a : α} {l : List α} :
    C.Sorted (a :: l) ↔ (∀ b ∈ l, C.lt a b = true) ∧ C.Sorted l := List.pairwise_cons

theorem Sorted.sublist {l r : List α} (h : C.Sorted r) (hSub : l.Sublist r) : C.Sorted l :=
  List.Pairwise.sublist hSub h

theorem Sorted.put {l r : List α} {a : α} (h : C.Sorted (l ++ r))
    (hl : ∀ b ∈ l, C.lt b a = true) (hr : ∀ b ∈ r, C.lt a b = true) :
    C.Sorted (l ++ a :: r) := by
  obtain ⟨hL, hR, hLR⟩ := sorted_append.mp h
  refine sorted_append.mpr ⟨hL, sorted_cons.mpr ⟨hr, hR⟩, ?_⟩
  intro b hb c hc
  rcases List.mem_cons.mp hc with rfl | hc
  · exact hl b hb
  · exact hLR b hb c hc

theorem Sorted.eq_of_eqv (hC : C.Strict) {l : List α} (h : C.Sorted l) {a b : α}
    (ha : a ∈ l) (hb : b ∈ l) (hEq : C.eqv a b = true) : a = b := by
  induction l with
  | nil => cases ha
  | cons c l ih =>
    obtain ⟨hc, hl⟩ := sorted_cons.mp h
    rcases List.mem_cons.mp ha with hac | hal
    · rcases List.mem_cons.mp hb with hbc | hbl
      · exact hac.trans hbc.symm
      · exact absurd (hac ▸ hEq) (by simp [hC.lt_not_eqv (hc b hbl)])
    · rcases List.mem_cons.mp hb with hbc | hbl
      · exact absurd (hbc ▸ hEq) (by simp [hC.gt_not_eqv (hc a hal)])
      · exact ih hl hal hbl

end Comparison

end DataReel
