import Mathlib.Data.List.Basic

/-! # Lines

A list cut behind each of its separators. A last line may stand without one.
-/

namespace DataReel

section Unlines

variable {α : Type} {c : α} {l : List α} {ls ms : List (List α)}

/-- Lines with their separators. -/
def unlines (c : α) (ls : List (List α)) : List α := ls.flatMap fun l => l ++ [c]

theorem unlines_nil : unlines c [] = [] := rfl

theorem unlines_cons : unlines c (l :: ls) = l ++ c :: unlines c ls := by
  rw [unlines, List.flatMap_cons, List.append_assoc, List.singleton_append]
  rfl

theorem unlines_append : unlines c (ls ++ ms) = unlines c ls ++ unlines c ms := List.flatMap_append

theorem unlines_singleton : unlines c [l] = l ++ [c] := unlines_cons

end Unlines

variable {α : Type} [DecidableEq α]

/-- The lines without their separators, as they are read one after another. -/
def linesOf (c : α) : List α → List (List α)
  | [] => []
  | a :: s =>
    if a = c then [] :: linesOf c s
    else
      match linesOf c s with
      | [] => [[a]]
      | l :: ls => (a :: l) :: ls

variable {c : α} {s t l : List α} {ls ms : List (List α)}

theorem not_mem_linesOf : ∀ l ∈ linesOf c s, c ∉ l := by
  induction s with
  | nil => exact nofun
  | cons a s ih =>
    rw [linesOf]
    split
    · intro l hl
      rcases List.mem_cons.mp hl with rfl | hl
      · exact List.not_mem_nil
      · exact ih l hl
    · next hac =>
      split
      · intro l hl
        rw [List.mem_singleton.mp hl, List.mem_singleton]
        exact Ne.symm hac
      · next m ms hLines =>
        rw [hLines] at ih
        intro l hl
        rcases List.mem_cons.mp hl with rfl | hl
        · exact List.mem_cons.not.mpr (not_or.mpr ⟨Ne.symm hac, ih m List.mem_cons_self⟩)
        · exact ih l (List.mem_cons_of_mem m hl)

theorem linesOf_append_cons (h : c ∉ l) : linesOf c (l ++ c :: s) = l :: linesOf c s := by
  induction l with
  | nil => rw [List.nil_append, linesOf, if_pos rfl]
  | cons a l ih =>
    obtain ⟨hac, hl⟩ := not_or.mp (List.mem_cons.not.mp h)
    rw [List.cons_append, linesOf, if_neg (Ne.symm hac), ih hl]

theorem linesOf_unlines_append (h : ∀ l ∈ ls, c ∉ l) :
    linesOf c (unlines c ls ++ s) = ls ++ linesOf c s := by
  induction ls with
  | nil => rfl
  | cons l ls ih =>
    rw [unlines_cons, List.append_assoc, List.cons_append, linesOf_append_cons (h l List.mem_cons_self),
      ih fun m hm => h m (List.mem_cons_of_mem l hm), List.cons_append]

theorem linesOf_unlines (h : ∀ l ∈ ls, c ∉ l) : linesOf c (unlines c ls) = ls := by
  have hAppend := linesOf_unlines_append (s := []) h
  rwa [List.append_nil, linesOf, List.append_nil] at hAppend

/-- What is empty or ends with a separator is put together from its lines. -/
theorem unlines_linesOf (h : s = [] ∨ s.getLast? = some c) : unlines c (linesOf c s) = s := by
  induction s with
  | nil => rfl
  | cons a s ih =>
    have hLast := h.resolve_left (List.cons_ne_nil a s)
    cases s with
    | nil =>
      obtain rfl : a = c := Option.some.inj hLast
      rw [linesOf, if_pos rfl, linesOf, unlines_singleton, List.nil_append]
    | cons b s =>
      have ih := ih (Or.inr hLast)
      rw [linesOf]
      split
      · next hac => rw [unlines_cons, ih, hac, List.nil_append]
      · split
        · next hNone =>
          rw [hNone, unlines_nil] at ih
          cases ih
        · next l ls hLines =>
          rw [hLines, unlines_cons] at ih
          rw [unlines_cons, List.cons_append, ih]

/-- What is added behind a whole line is read as lines of its own. -/
theorem linesOf_append (h : s = [] ∨ s.getLast? = some c) :
    linesOf c (s ++ t) = linesOf c s ++ linesOf c t := by
  have hSplit := linesOf_unlines_append (s := t) (not_mem_linesOf (c := c) (s := s))
  rwa [unlines_linesOf h] at hSplit

end DataReel
