import Mathlib.Data.Int.Order.Basic
import Mathlib.Data.List.Basic
import Mathlib.Order.Basic

/-! # Three-way comparisons

A comparison that answers with a number below, at or above 0. Comparisons put one after another,
and comparisons of lists place by place, are orders as their parts are.
-/

namespace DataReel

variable {α β : Type}

/-- The answer for two values is the opposite of the one for them in turn, and what is not above a
value is not above those above it. -/
structure ThreeWay (c : α → α → Int) : Prop where
  swap : ∀ a b, c b a = -c a b
  trans : ∀ {x y z}, c x y ≤ 0 → c y z ≤ 0 → c x z ≤ 0

/-- The first answer that is not 0. -/
def firstOf (u v : Int) : Int := if u ≠ 0 then u else v

theorem firstOf_le_iff {u v : Int} : firstOf u v ≤ 0 ↔ u < 0 ∨ (u = 0 ∧ v ≤ 0) := by
  rw [firstOf]
  split <;> omega

/-- The comparison of lists by the first place where they differ; a list is below those that go on. -/
def lexOrder (c : α → α → Int) : List α → List α → Int
  | [], [] => 0
  | [], _ :: _ => -1
  | _ :: _, [] => 1
  | a :: s, b :: t => firstOf (c a b) (lexOrder c s t)

namespace ThreeWay

variable {c d : α → α → Int} {x y z : α}

theorem zero : ThreeWay fun _ _ : α => 0 := ⟨fun _ _ => rfl, fun _ _ => le_rfl⟩

theorem comap (h : ThreeWay c) (f : β → α) : ThreeWay fun a b => c (f a) (f b) :=
  ⟨fun a b => h.swap (f a) (f b), h.trans⟩

section

variable (h : ThreeWay c)

include h

theorem self (x : α) : c x x = 0 := by
  have hSwap := h.swap x x
  omega

theorem lt_of_lt_of_le (hxy : c x y < 0) (hyz : c y z ≤ 0) : c x z < 0 := by
  have hLe := h.trans hxy.le hyz
  by_contra hNot
  -- If both were the same, `y` would not be above `x`.
  have hzx : c z x ≤ 0 := by
    rw [h.swap x z]
    omega
  have hyx : c y x ≤ 0 := h.trans hyz hzx
  rw [h.swap x y] at hyx
  omega

theorem lt_of_le_of_lt (hxy : c x y ≤ 0) (hyz : c y z < 0) : c x z < 0 := by
  have hLe := h.trans hxy hyz.le
  by_contra hNot
  have hzx : c z x ≤ 0 := by
    rw [h.swap x z]
    omega
  have hzy : c z y ≤ 0 := h.trans hzx hxy
  rw [h.swap y z] at hzy
  omega

theorem eq_trans (hxy : c x y = 0) (hyz : c y z = 0) : c x z = 0 := by
  have hxz := h.trans hxy.le hyz.le
  have hzx : c z x ≤ 0 := by
    apply h.trans (y := y)
    · rw [h.swap y z, hyz]
      exact le_rfl
    · rw [h.swap x y, hxy]
      exact le_rfl
  rw [h.swap x z] at hzx
  omega

end

theorem andThen (hc : ThreeWay c) (hd : ThreeWay d) : ThreeWay fun a b => firstOf (c a b) (d a b) := by
  constructor
  · intro a b
    rw [hc.swap a b, hd.swap a b, firstOf, firstOf]
    split <;> split <;> omega
  · intro x y z hxy hyz
    rw [firstOf_le_iff] at hxy hyz ⊢
    rcases hxy with hxy | ⟨hxy, hxy'⟩
    · rcases hyz with hyz | ⟨hyz, -⟩
      · exact .inl (hc.lt_of_lt_of_le hxy hyz.le)
      · exact .inl (hc.lt_of_lt_of_le hxy hyz.le)
    · rcases hyz with hyz | ⟨hyz, hyz'⟩
      · exact .inl (hc.lt_of_le_of_lt hxy.le hyz)
      · exact .inr ⟨hc.eq_trans hxy hyz, hd.trans hxy' hyz'⟩

theorem lexOrder (hc : ThreeWay c) : ThreeWay (lexOrder c) := by
  constructor
  · intro s t
    induction s generalizing t with
    | nil => cases t <;> rfl
    | cons a s ih =>
      cases t with
      | nil => rfl
      | cons b t =>
        rw [DataReel.lexOrder, DataReel.lexOrder, hc.swap a b, ih, firstOf, firstOf]
        split <;> split <;> omega
  · intro s t u hst htu
    induction s generalizing t u with
    | nil =>
      cases u with
      | nil => exact le_rfl
      | cons b u => simp [DataReel.lexOrder]
    | cons a s ih =>
      cases t with
      | nil => simp [DataReel.lexOrder] at hst
      | cons b t =>
        cases u with
        | nil => simp [DataReel.lexOrder] at htu
        | cons e u =>
          rw [DataReel.lexOrder, firstOf_le_iff] at hst htu ⊢
          rcases hst with hst | ⟨hst, hst'⟩
          · rcases htu with htu | ⟨htu, -⟩
            · exact .inl (hc.lt_of_lt_of_le hst htu.le)
            · exact .inl (hc.lt_of_lt_of_le hst htu.le)
          · rcases htu with htu | ⟨htu, htu'⟩
            · exact .inl (hc.lt_of_le_of_lt hst.le htu)
            · exact .inr ⟨hc.eq_trans hst htu, ih hst' htu'⟩

end ThreeWay

end DataReel
