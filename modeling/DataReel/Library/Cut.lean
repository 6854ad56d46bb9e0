import Mathlib.Data.List.DropRight
import Mathlib.Data.List.Infix

/-! # Cutting a list at a separator

What stands before and after the first, or the last, occurrence of an element, and of a row of them.
-/

namespace DataReel

variable {α : Type} [DecidableEq α]

def cut (c : α) : List α → Option (List α × List α)
  | [] => none
  | a :: s => if a = c then some ([], s) else (cut c s).map fun r => (a :: r.1, r.2)

def rcut (c : α) : List α → Option (List α × List α)
  | [] => none
  | a :: s =>
    match rcut c s with
    | some r => some (a :: r.1, r.2)
    | none => if a = c then some ([], s) else none

def cutAt (p : List α) : List α → Option (List α × List α)
  | [] => if p.isEmpty then some ([], []) else none
  | a :: s =>
    if p.isPrefixOf (a :: s) then some ([], (a :: s).drop p.length)
    else (cutAt p s).map fun r => (a :: r.1, r.2)

/-- What stands before and after the first, nothing after it where it is not there. -/
def beforeAfter (c : α) (s : List α) : List α × List α := (cut c s).getD (s, [])

variable {c : α} {s x y p : List α}

theorem cut_none (h : c ∉ s) : cut c s = none := by
  induction s with
  | nil => rfl
  | cons a s ih =>
    rw [cut, if_neg fun hac => h (by simp [hac]), ih fun hs => h (List.mem_cons_of_mem a hs)]
    rfl

theorem cut_append (h : c ∉ x) : cut c (x ++ c :: y) = some (x, y) := by
  induction x with
  | nil => rw [List.nil_append, cut, if_pos rfl]
  | cons a x ih =>
    rw [List.cons_append, cut, if_neg fun hac => h (by simp [hac]), ih fun hx => h (List.mem_cons_of_mem a hx)]
    rfl

theorem eq_of_cut (h : cut c s = some (x, y)) : s = x ++ c :: y ∧ c ∉ x := by
  induction s generalizing x with
  | nil => cases h
  | cons a s ih =>
    rw [cut] at h
    split at h
    · next hac =>
      cases h
      exact ⟨by rw [hac]; rfl, List.not_mem_nil⟩
    · next hac =>
      obtain ⟨r, hr, hEq⟩ := Option.map_eq_some_iff.mp h
      cases hEq
      obtain ⟨hs, hx⟩ := ih hr
      constructor
      · rw [hs, List.cons_append]
      · intro hMem
        rcases List.mem_cons.mp hMem with rfl | hMem
        · exact hac rfl
        · exact hx hMem

theorem not_mem_of_cut (h : cut c s = none) : c ∉ s := by
  intro hs
  obtain ⟨x, y, hEq, hx⟩ := List.eq_append_cons_of_mem hs
  rw [hEq, cut_append hx] at h
  cases h

theorem append_cons_inj {x' y' : List α} (hx : c ∉ x) (hx' : c ∉ x') (h : x ++ c :: y = x' ++ c :: y') :
    x = x' ∧ y = y' := by
  have hCut := cut_append (y := y) hx
  rw [h, cut_append hx'] at hCut
  cases hCut
  exact ⟨rfl, rfl⟩

theorem beforeAfter_none (h : c ∉ s) : beforeAfter c s = (s, []) := by
  rw [beforeAfter, cut_none h]
  rfl

theorem beforeAfter_append (h : c ∉ x) : beforeAfter c (x ++ c :: y) = (x, y) := by
  rw [beforeAfter, cut_append h]
  rfl

theorem not_mem_beforeAfter (c : α) (s : List α) : c ∉ (beforeAfter c s).1 := by
  rw [beforeAfter]
  cases h : cut c s with
  | none => exact not_mem_of_cut h
  | some r => exact (eq_of_cut h).2

/-- The list is put together from the two, but for a separator at its end. -/
theorem beforeAfter_cases (c : α) (s : List α) :
    (beforeAfter c s = (s, []) ∧ c ∉ s) ∨ s = (beforeAfter c s).1 ++ c :: (beforeAfter c s).2 := by
  rw [beforeAfter]
  cases h : cut c s with
  | none => exact Or.inl ⟨rfl, not_mem_of_cut h⟩
  | some r => exact Or.inr (eq_of_cut h).1

theorem beforeAfter_subset (c : α) (s : List α) :
    (beforeAfter c s).1 ⊆ s ∧ (beforeAfter c s).2 ⊆ s := by
  rcases beforeAfter_cases c s with ⟨h, -⟩ | h
  · rw [h]
    exact ⟨fun _ ha => ha, List.nil_subset s⟩
  · constructor <;> intro a ha <;> rw [h] <;> simp [ha]

theorem rcut_none (h : c ∉ s) : rcut c s = none := by
  induction s with
  | nil => rfl
  | cons a s ih =>
    rw [rcut, ih fun hs => h (List.mem_cons_of_mem a hs)]
    exact if_neg fun hac => h (by simp [hac])

theorem rcut_append (h : c ∉ y) : rcut c (x ++ c :: y) = some (x, y) := by
  induction x with
  | nil =>
    rw [List.nil_append, rcut, rcut_none h]
    exact if_pos rfl
  | cons a x ih => rw [List.cons_append, rcut, ih]

theorem eq_of_rcut (h : rcut c s = some (x, y)) : s = x ++ c :: y ∧ c ∉ y := by
  induction s generalizing x y with
  | nil => cases h
  | cons a s ih =>
    rw [rcut] at h
    split at h
    · next r hr =>
      cases h
      obtain ⟨hs, hy⟩ := ih hr
      exact ⟨by rw [hs, List.cons_append], hy⟩
    · next hr =>
      split at h
      · next hac =>
        cases h
        constructor
        · rw [hac, List.nil_append]
        · intro hs
          obtain ⟨x, y, hEq, hy⟩ := List.eq_append_cons_of_mem (List.mem_reverse.mpr hs)
          rw [← List.reverse_reverse s, hEq, List.reverse_append, List.reverse_cons, List.append_assoc,
            List.singleton_append, rcut_append (by simpa using hy)] at hr
          cases hr
      · cases h

theorem not_mem_of_rcut (h : rcut c s = none) : c ∉ s := by
  intro hs
  obtain ⟨x, y, hEq, hy⟩ := List.eq_append_cons_of_mem (List.mem_reverse.mpr hs)
  rw [← List.reverse_reverse s, hEq, List.reverse_append, List.reverse_cons, List.append_assoc,
    List.singleton_append, rcut_append (by simpa using hy)] at h
  cases h

theorem eq_of_cutAt (h : cutAt p s = some (x, y)) : s = x ++ p ++ y := by
  induction s generalizing x with
  | nil =>
    rw [cutAt] at h
    split at h
    · next hp =>
      cases h
      rw [List.isEmpty_iff.mp hp]
      rfl
    · cases h
  | cons a s ih =>
    rw [cutAt] at h
    split at h
    · next hp =>
      cases h
      rw [List.isPrefixOf_iff_prefix] at hp
      rw [List.nil_append, List.prefix_iff_eq_append.mp hp]
    · obtain ⟨r, hr, hEq⟩ := Option.map_eq_some_iff.mp h
      cases hEq
      rw [ih hr, List.cons_append, List.cons_append]

/-- A row is found where its first element is. -/
theorem cutAt_append (h : c ∉ x) : cutAt (c :: p) (x ++ c :: p ++ y) = some (x, y) := by
  induction x with
  | nil =>
    rw [List.nil_append, List.cons_append, cutAt, if_pos, ← List.cons_append, List.drop_left]
    exact List.isPrefixOf_iff_prefix.mpr ⟨y, rfl⟩
  | cons a x ih =>
    rw [List.cons_append, List.cons_append, cutAt, if_neg, ih fun hx => h (List.mem_cons_of_mem a hx)]
    · rfl
    · intro hp
      rw [List.isPrefixOf_iff_prefix, List.cons_prefix_cons] at hp
      exact h (by simp [hp.1])

theorem cutAt_isSome (h : p <:+: s) : (cutAt p s).isSome := by
  induction s with
  | nil =>
    rw [List.infix_nil.mp h]
    rfl
  | cons a s ih =>
    rw [cutAt]
    split
    · rfl
    · next hp =>
      rw [Option.isSome_map]
      rcases List.infix_cons_iff.mp h with hPrefix | hInfix
      · exact absurd (List.isPrefixOf_iff_prefix.mpr hPrefix) hp
      · exact ih hInfix

theorem cutAt_none (h : ¬p <:+: s) : cutAt p s = none := by
  cases hCut : cutAt p s with
  | none => rfl
  | some r => exact absurd ⟨r.1, r.2, (eq_of_cutAt hCut).symm⟩ h

/-! ## Elements at the end -/

variable {α : Type} {p : α → Bool} {c : α} {x y : List α}

theorem rdropWhile_append_cons (h : p c = false) :
    (x ++ c :: y).rdropWhile p = x ++ c :: y.rdropWhile p := by
  induction y using List.reverseRecOn with
  | nil => exact List.rdropWhile_concat_neg p x c (by simp [h])
  | append_singleton y d ih =>
    have hEq : x ++ c :: (y ++ [d]) = (x ++ c :: y) ++ [d] := by simp
    cases hd : p d with
    | true => rw [hEq, List.rdropWhile_concat_pos p _ d hd, ih, List.rdropWhile_concat_pos p _ d hd]
    | false =>
      rw [hEq, List.rdropWhile_concat_neg p _ d (by simp [hd]), List.rdropWhile_concat_neg p _ d (by simp [hd]), hEq]

end DataReel
