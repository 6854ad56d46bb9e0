import Mathlib.Data.List.Infix

/-! # Searching a text in one forward pass

The pattern is compared from its start again after every mismatch, and the text
is never read twice. What such a pass finds are the occurrences that stand behind
beginnings of the pattern which were broken off.
-/

namespace DataReel

universe u

variable {α : Type u}

/-- Beginnings of the pattern, each with a character that does not continue it. -/
inductive BrokenOff (str : List α) : List α → Prop
  | nil : BrokenOff str []
  | snoc {x : List α} {j : Nat} {c : α} : BrokenOff str x → j < str.length → str[j]? ≠ some c →
      BrokenOff str (x ++ str.take j ++ [c])

/-- The pass comes to an occurrence from its start. -/
def Reached (str s : List α) : Prop := ∃ x y, s = x ++ str ++ y ∧ BrokenOff str x

theorem Reached.infix {str s : List α} (h : Reached str s) : str <:+: s := by
  obtain ⟨x, y, hs, -⟩ := h
  exact ⟨x, y, hs.symm⟩

theorem Reached.append {str s : List α} (h : Reached str s) (more : List α) :
    Reached str (s ++ more) := by
  obtain ⟨x, y, rfl, hx⟩ := h
  exact ⟨x, y ++ more, List.append_assoc .., hx⟩

variable [DecidableEq α]

/-- How much of the pattern is matched after one more character. -/
def advance (str : List α) (j : Nat) (c : α) : Nat :=
  if j = str.length then j else if str[j]? = some c then j + 1 else 0

def progress (str s : List α) : Nat := s.foldl (advance str) 0

variable {str s x : List α} {c : α} {j : Nat}

theorem progress_append (str s more : List α) :
    progress str (s ++ more) = more.foldl (advance str) (progress str s) :=
  List.foldl_append

theorem progress_snoc (str s : List α) (c : α) :
    progress str (s ++ [c]) = advance str (progress str s) c :=
  progress_append str s [c]

theorem advance_match (h : str[j]? = some c) : advance str j c = j + 1 := by
  obtain ⟨hLt, -⟩ := List.getElem?_eq_some_iff.mp h
  rw [advance, if_neg (Nat.ne_of_lt hLt), if_pos h]

theorem advance_mismatch (hj : j < str.length) (h : str[j]? ≠ some c) : advance str j c = 0 := by
  rw [advance, if_neg (Nat.ne_of_lt hj), if_neg h]

theorem advance_le (hj : j ≤ str.length) (c : α) : advance str j c ≤ str.length := by
  by_cases hMatch : str[j]? = some c
  · obtain ⟨hLt, -⟩ := List.getElem?_eq_some_iff.mp hMatch
    rw [advance_match hMatch]
    exact hLt
  · rw [advance]
    split
    · exact hj
    · exact Nat.zero_le _

theorem progress_le (str s : List α) : progress str s ≤ str.length := by
  induction s using List.reverseRecOn with
  | nil => exact Nat.zero_le _
  | append_singleton s c ih =>
    rw [progress_snoc]
    exact advance_le ih c

/-- A pass that has found the pattern stays so. -/
theorem progress_stays (h : progress str s = str.length) (more : List α) :
    progress str (s ++ more) = str.length := by
  induction more using List.reverseRecOn with
  | nil => rwa [List.append_nil]
  | append_singleton more c ih =>
    rw [← List.append_assoc, progress_snoc, ih, advance, if_pos rfl]

/-- From the start of the pattern on, a beginning of it is matched. -/
theorem foldl_take (hj : j ≤ str.length) : (str.take j).foldl (advance str) 0 = j := by
  induction j with
  | zero => rfl
  | succ j ih =>
    rw [List.take_succ_eq_append_getElem hj, List.foldl_append, ih (by omega)]
    exact advance_match (List.getElem?_eq_getElem hj)

theorem BrokenOff.progress (h : BrokenOff str x) (hj : j ≤ str.length) :
    DataReel.progress str (x ++ str.take j) = j := by
  have hStart : DataReel.progress str x = 0 := by
    induction h with
    | nil => rfl
    | snoc hx hk hBroken ih =>
      rw [progress_snoc, progress_append, ih, foldl_take hk.le, advance_mismatch hk hBroken]
  rw [progress_append, hStart, foldl_take hj]

/-- The text so far, by what of the pattern is matched. -/
theorem progress_cases (hStr : str ≠ []) (s : List α) :
    progress str s < str.length ∧ (∃ x, BrokenOff str x ∧ s = x ++ str.take (progress str s)) ∨
      progress str s = str.length ∧ Reached str s := by
  have hPos : 0 < str.length := List.length_pos_iff.mpr hStr
  induction s using List.reverseRecOn with
  | nil => exact Or.inl ⟨hPos, [], .nil, rfl⟩
  | append_singleton s c ih =>
    rcases ih with ⟨hLt, x, hx, hs⟩ | ⟨hFound, hReached⟩
    · by_cases hMatch : str[progress str s]? = some c
      · have hNext := advance_match hMatch
        have hGrown : s ++ [c] = x ++ str.take (progress str s + 1) := by
          obtain ⟨_, hAt⟩ := List.getElem?_eq_some_iff.mp hMatch
          rw [List.take_succ_eq_append_getElem hLt, hAt, ← List.append_assoc, ← hs]
        rw [progress_snoc, hNext]
        rcases Nat.lt_or_ge (progress str s + 1) str.length with hMore | hAll
        · exact Or.inl ⟨hMore, x, hx, hGrown⟩
        · refine Or.inr ⟨by omega, x, [], ?_, hx⟩
          rw [hGrown, List.take_of_length_le hAll, List.append_nil]
      · rw [progress_snoc, advance_mismatch hLt hMatch]
        refine Or.inl ⟨hPos, s ++ [c], ?_, by rw [List.take_zero, List.append_nil]⟩
        rw [hs]
        exact hx.snoc hLt hMatch
    · refine Or.inr ⟨progress_stays hFound [c], hReached.append [c]⟩

theorem progress_eq_iff (hStr : str ≠ []) (s : List α) :
    progress str s = str.length ↔ Reached str s := by
  constructor
  · intro h
    rcases progress_cases hStr s with ⟨hLt, -⟩ | ⟨-, hReached⟩
    · exact absurd h (Nat.ne_of_lt hLt)
    · exact hReached
  · rintro ⟨x, y, rfl, hx⟩
    apply progress_stays
    have hAll := hx.progress (Nat.le_refl str.length)
    rwa [List.take_length] at hAll

/-- Without the first character of the pattern nothing is ever matched. -/
theorem progress_of_not_mem {tail : List α} (h : c ∉ s) : progress (c :: tail) s = 0 := by
  induction s using List.reverseRecOn with
  | nil => rfl
  | append_singleton s b ih =>
    rw [List.mem_append, List.mem_singleton, not_or] at h
    rw [progress_snoc, ih h.1, advance_mismatch (Nat.succ_pos _)]
    intro hEq
    exact h.2 (Option.some.inj hEq)

end DataReel
