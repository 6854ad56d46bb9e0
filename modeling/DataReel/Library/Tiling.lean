import Mathlib.Data.List.Basic
import Mathlib.Tactic.TypeStar

/-! # Pieces that fill an interval

Pieces with a length each, at the addresses where the one before them ends.
They leave no gap and do not overlap.
-/

namespace DataReel

universe u

variable {β : Type u} {length : β → Nat}

/-- The pieces fill the addresses from the first to the second. -/
def Tiles (length : β → Nat) : Int → List (Int × β) → Int → Prop
  | a, [], e => a = e
  | a, p :: l, e => p.1 = a ∧ Tiles length (a + length p.2) l e

variable {a b e m : Int} {l l' : List (Int × β)} {p q : Int × β}

theorem tiles_append :
    Tiles length a (l ++ l') e ↔ ∃ m, Tiles length a l m ∧ Tiles length m l' e := by
  induction l generalizing a with
  | nil =>
    constructor
    · exact fun h => ⟨a, rfl, h⟩
    · rintro ⟨m, rfl, h⟩
      exact h
  | cons p l ih =>
    rw [List.cons_append, Tiles, ih]
    constructor
    · rintro ⟨hp, m, hl, hl'⟩
      exact ⟨m, ⟨hp, hl⟩, hl'⟩
    · rintro ⟨m, ⟨hp, hl⟩, hl'⟩
      exact ⟨hp, m, hl, hl'⟩

namespace Tiles

theorem le (h : Tiles length a l e) : a ≤ e := by
  induction l generalizing a with
  | nil => exact Int.le_of_eq h
  | cons p l ih =>
    have hRest := ih h.2
    omega

theorem bounds (h : Tiles length a l e) (hp : p ∈ l) : a ≤ p.1 ∧ p.1 + length p.2 ≤ e := by
  obtain ⟨s, t, rfl⟩ := List.mem_iff_append.mp hp
  obtain ⟨m, hBefore, rfl, hAfter⟩ := tiles_append.mp h
  exact ⟨hBefore.le, hAfter.le⟩

theorem before (h : Tiles length a (l ++ p :: l') e) : Tiles length a l p.1 := by
  obtain ⟨m, hBefore, rfl, -⟩ := tiles_append.mp h
  exact hBefore

theorem after (h : Tiles length a (l ++ p :: l') e) : Tiles length (p.1 + length p.2) l' e := by
  obtain ⟨m, -, rfl, hAfter⟩ := tiles_append.mp h
  exact hAfter

theorem apart (h : Tiles length a (l ++ p :: l') e) (hq : q ∈ l ++ l') :
    q.1 + length q.2 ≤ p.1 ∨ p.1 + length p.2 ≤ q.1 := by
  cases List.mem_append.mp hq with
  | inl hBefore => exact .inl (h.before.bounds hBefore).2
  | inr hAfter => exact .inr (h.after.bounds hAfter).1

theorem apart_of_ne (h : Tiles length a l e) (hp : p ∈ l) (hq : q ∈ l) (hne : p.1 ≠ q.1) :
    q.1 + length q.2 ≤ p.1 ∨ p.1 + length p.2 ≤ q.1 := by
  obtain ⟨s, t, rfl⟩ := List.mem_iff_append.mp hp
  rw [List.mem_append, List.mem_cons, or_left_comm] at hq
  rcases hq with rfl | hq
  · exact absurd rfl hne
  · exact h.apart (List.mem_append.mpr hq)

theorem unique (h : Tiles length a l e) (hPos : ∀ p ∈ l, 0 < length p.2) (hp : p ∈ l) (hq : q ∈ l)
    (hAddr : p.1 = q.1) : p = q := by
  obtain ⟨s, t, rfl⟩ := List.mem_iff_append.mp hp
  rw [List.mem_append, List.mem_cons, or_left_comm] at hq
  rcases hq with rfl | hq
  · rfl
  · have hp' := hPos p hp
    have hq' := hPos q (List.mem_append.mpr (hq.imp_right (List.mem_cons_of_mem p)))
    have hApart := h.apart (List.mem_append.mpr hq)
    omega

theorem pairwise (h : Tiles length a l e) (hPos : ∀ p ∈ l, 0 < length p.2) :
    l.Pairwise fun p q => p.1 < q.1 := by
  induction l generalizing a with
  | nil => exact List.Pairwise.nil
  | cons p l ih =>
    refine List.Pairwise.cons (fun q hq => ?_) (ih h.2 fun q hq => hPos q (List.mem_cons_of_mem p hq))
    have hFirst := h.1
    have hLength := hPos p List.mem_cons_self
    have hBounds := h.2.bounds hq
    omega

theorem map {f : Int × β → Int × β} (h : Tiles length a l e)
    (hf : ∀ p ∈ l, (f p).1 = p.1 ∧ length (f p).2 = length p.2) : Tiles length a (l.map f) e := by
  induction l generalizing a with
  | nil => exact h
  | cons p l ih =>
    obtain ⟨hAddr, hLength⟩ := hf p List.mem_cons_self
    refine ⟨hAddr.trans h.1, ?_⟩
    rw [hLength]
    exact ih h.2 fun q hq => hf q (List.mem_cons_of_mem p hq)

/-- A piece is replaced by others that fill its place. -/
theorem replace {l'' : List (Int × β)} (h : Tiles length a (l ++ p :: l') e)
    (hNew : Tiles length p.1 l'' (p.1 + length p.2)) : Tiles length a (l ++ (l'' ++ l')) e :=
  tiles_append.mpr ⟨p.1, h.before, tiles_append.mpr ⟨_, hNew, h.after⟩⟩

end Tiles

end DataReel
