import DataReel.Library.ForwardPass
import DataReel.Net.Telnet
import Mathlib.Logic.Function.Basic
import Mathlib.Tactic.Ring

/-! # Waiting for a string

`RecvString` stores the decoded characters and searches them after each piece
that arrives. Its search counts the mismatches, not the places it has looked at,
and so goes on behind the stored characters once anything has matched.
-/

namespace DataReel

/-- The first `n` bytes of a memory. -/
def firstBytes (mem : Nat → UInt8) (n : Nat) : List UInt8 := (List.range n).map mem

section FirstBytes

variable {mem : Nat → UInt8} {n k : Nat}

@[simp] theorem firstBytes_length : (firstBytes mem n).length = n := by
  rw [firstBytes, List.length_map, List.length_range]

theorem firstBytes_succ : firstBytes mem (n + 1) = firstBytes mem n ++ [mem n] := by
  rw [firstBytes, List.range_succ, List.map_append]
  rfl

theorem firstBytes_update (c : UInt8) (h : n ≤ k) :
    firstBytes (Function.update mem k c) n = firstBytes mem n := by
  apply List.map_congr_left
  intro i hi
  have hLt : i < k := Nat.lt_of_lt_of_le (List.mem_range.mp hi) h
  exact Function.update_of_ne (Nat.ne_of_lt hLt) c mem

end FirstBytes

namespace Telnet

/-- The search loop of `RecvString` with its counter `i`, the place `next` points to and the
matched characters of the pattern: whether it found the string, and at how many places it looked. -/
def searchLoop (mem : Nat → UInt8) (str : List UInt8) (byteCount : Nat) :
    Nat → Nat → Nat → Nat → Option (Bool × Nat)
  | 0, _, _, _ => none
  | passes + 1, i, next, pattern =>
    if i < byteCount ∧ pattern < str.length then
      if str[pattern]? = some (mem next) then
        if pattern + 1 = str.length then some (true, next + 1)
        else searchLoop mem str byteCount passes i (next + 1) (pattern + 1)
      else searchLoop mem str byteCount passes (i + 1) (next + 1) 0
    else some (false, next)

def search (mem : Nat → UInt8) (str : List UInt8) (byteCount : Nat) : Option (Bool × Nat) :=
  searchLoop mem str byteCount (byteCount * (str.length + 1) + 1) 0 0 0

/-- The mismatches at the first `k` places. -/
def misses (mem : Nat → UInt8) (str : List UInt8) : Nat → Nat
  | 0 => 0
  | k + 1 => misses mem str k +
      if str[progress str (firstBytes mem k)]? = some (mem k) then 0 else 1

section Search

variable {mem : Nat → UInt8} {str : List UInt8} {n k : Nat}

theorem misses_le (k : Nat) : misses mem str k ≤ k := by
  induction k with
  | zero => exact Nat.le_refl 0
  | succ k ih =>
    rw [misses]
    split <;> omega

/-- Nothing matches exactly where the pattern's first character does not occur. -/
theorem misses_eq_iff {c : UInt8} {tail : List UInt8} (k : Nat) :
    misses mem (c :: tail) k = k ↔ c ∉ firstBytes mem k := by
  induction k with
  | zero => simp [misses, firstBytes]
  | succ k ih =>
    have hLe : misses mem (c :: tail) k ≤ k := misses_le k
    rw [misses, firstBytes_succ, List.mem_append, List.mem_singleton, not_or, ← ih]
    constructor
    · intro hAll
      have hBefore : misses mem (c :: tail) k = k := by
        split at hAll <;> omega
      refine ⟨hBefore, ?_⟩
      rintro rfl
      have hStart : progress (mem k :: tail) (firstBytes mem k) = 0 :=
        progress_of_not_mem (ih.mp hBefore)
      rw [hBefore, hStart, if_pos List.getElem?_cons_zero] at hAll
      omega
    · rintro ⟨hBefore, hNe⟩
      rw [hBefore, progress_of_not_mem (ih.mp hBefore), if_neg]
      intro hEq
      exact hNe (Option.some.inj hEq)

/-- While the string is not found, the loop is at the place the text tells. -/
theorem searchLoop_reach (passes : Nat) (hk : k ≤ n)
    (hNot : progress str (firstBytes mem k) < str.length) :
    searchLoop mem str n (passes + k) 0 0 0 =
      searchLoop mem str n passes (misses mem str k) k (progress str (firstBytes mem k)) := by
  induction k generalizing passes with
  | zero => rfl
  | succ k ih =>
    have hBefore : progress str (firstBytes mem k) < str.length := by
      rcases Nat.lt_or_ge (progress str (firstBytes mem k)) str.length with hLt | hGe
      · exact hLt
      · have hStays := progress_stays (Nat.le_antisymm (progress_le _ _) hGe) [mem k]
        rw [firstBytes_succ, hStays] at hNot
        exact absurd hNot (Nat.lt_irrefl _)
    have hMisses : misses mem str k ≤ k := misses_le k
    rw [← Nat.add_assoc, Nat.add_right_comm, ih (passes + 1) (by omega) hBefore, searchLoop,
      if_pos ⟨by omega, hBefore⟩, misses, firstBytes_succ, progress_snoc]
    rw [firstBytes_succ, progress_snoc] at hNot
    by_cases hMatch : str[progress str (firstBytes mem k)]? = some (mem k)
    · rw [advance_match hMatch] at hNot ⊢
      rw [if_pos hMatch, if_neg (Nat.ne_of_lt hNot), if_pos hMatch]
      rfl
    · rw [if_neg hMatch, if_neg hMatch, advance_mismatch hBefore hMatch]

/-- The loop ends, and it looks at a place before it does. -/
theorem searchLoop_ends (passes i next pattern : Nat) (hi : i ≤ n) (hPattern : pattern < str.length)
    (hPasses : (n - i) * str.length + 1 ≤ passes + pattern) (hPos : 0 < passes) :
    ∃ r, searchLoop mem str n passes i next pattern = some r ∧ next ≤ r.2 ∧ (i < n → next < r.2) := by
  induction passes generalizing i next pattern with
  | zero => omega
  | succ passes ih =>
    rw [searchLoop]
    rcases Nat.lt_or_ge i n with hLt | hGe
    · obtain ⟨d, hd⟩ : ∃ d, n - i = d + 1 := ⟨n - i - 1, by omega⟩
      have hSplit : (n - i) * str.length = d * str.length + str.length := by rw [hd, Nat.succ_mul]
      rw [if_pos ⟨hLt, hPattern⟩]
      split
      · split
        · exact ⟨_, rfl, Nat.le_succ next, fun _ => Nat.lt_succ_self next⟩
        · obtain ⟨r, hRun, hLooked, -⟩ := ih i (next + 1) (pattern + 1) hi (by omega) (by omega)
            (by omega)
          exact ⟨r, hRun, by omega, fun _ => by omega⟩
      · have hRest : (n - (i + 1)) * str.length = d * str.length := by
          congr 1
          omega
        obtain ⟨r, hRun, hLooked, -⟩ := ih (i + 1) (next + 1) 0 (by omega) (by omega) (by omega)
          (by omega)
        exact ⟨r, hRun, by omega, fun _ => by omega⟩
    · rw [if_neg fun h => absurd h.1 (Nat.not_lt.mpr hGe)]
      exact ⟨_, rfl, Nat.le_refl next, fun h => absurd h (Nat.not_lt.mpr hGe)⟩

/-- A found string was found at one of the places. -/
theorem found_at (hStr : str ≠ []) (h : progress str (firstBytes mem n) = str.length) :
    ∃ k < n, progress str (firstBytes mem k) < str.length ∧
      progress str (firstBytes mem (k + 1)) = str.length := by
  induction n with
  | zero => exact absurd h.symm (Nat.ne_of_gt (List.length_pos_iff.mpr hStr))
  | succ n ih =>
    rcases Nat.lt_or_ge (progress str (firstBytes mem n)) str.length with hLt | hGe
    · exact ⟨n, Nat.lt_succ_self n, hLt, h⟩
    · obtain ⟨k, hk, hFound⟩ := ih (Nat.le_antisymm (progress_le _ _) hGe)
      exact ⟨k, Nat.lt_succ_of_lt hk, hFound⟩

theorem enough_passes (str : List UInt8) (hk : k ≤ n) :
    ∃ passes, n * (str.length + 1) + 1 = passes + 1 + k ∧ n * str.length ≤ passes := by
  have hSplit : n * (str.length + 1) = n * str.length + n := Nat.mul_succ n str.length
  exact ⟨n * str.length + (n - k), by omega, by omega⟩

theorem search_reached (hStr : str ≠ []) (h : Reached str (firstBytes mem n)) :
    ∃ looked, looked ≤ n ∧ search mem str n = some (true, looked) := by
  obtain ⟨k, hk, hLt, hFound⟩ := found_at hStr ((progress_eq_iff hStr _).mpr h)
  obtain ⟨passes, hPasses, -⟩ := enough_passes str hk.le
  have hMisses : misses mem str k ≤ k := misses_le k
  refine ⟨k + 1, hk, ?_⟩
  rw [search, hPasses, searchLoop_reach _ hk.le hLt, searchLoop, if_pos ⟨by omega, hLt⟩]
  rw [firstBytes_succ, progress_snoc] at hFound
  by_cases hMatch : str[progress str (firstBytes mem k)]? = some (mem k)
  · rw [advance_match hMatch] at hFound
    rw [if_pos hMatch, if_pos hFound]
  · rw [advance_mismatch hLt hMatch] at hFound
    exact absurd hFound.symm (Nat.ne_of_gt (List.length_pos_iff.mpr hStr))

/-- The search without the string: it stops at the stored characters only if none of them is the
first of the string. -/
theorem search_missed {c : UInt8} {tail : List UInt8} (h : ¬ Reached (c :: tail) (firstBytes mem n)) :
    c ∉ firstBytes mem n ∧ search mem (c :: tail) n = some (false, n) ∨
      c ∈ firstBytes mem n ∧ ∃ found looked, n < looked ∧
        search mem (c :: tail) n = some (found, looked) := by
  have hStr : c :: tail ≠ [] := List.cons_ne_nil c tail
  have hLt : progress (c :: tail) (firstBytes mem n) < (c :: tail).length := by
    rcases progress_cases hStr (firstBytes mem n) with ⟨hLt, -⟩ | ⟨-, hReached⟩
    · exact hLt
    · exact absurd hReached h
  obtain ⟨passes, hPasses, hEnough⟩ := enough_passes (c :: tail) (Nat.le_refl n)
  have hRun : search mem (c :: tail) n = searchLoop mem (c :: tail) n (passes + 1)
      (misses mem (c :: tail) n) n (progress (c :: tail) (firstBytes mem n)) := by
    rw [search, hPasses, searchLoop_reach _ (Nat.le_refl n) hLt]
  have hMisses : misses mem (c :: tail) n ≤ n := misses_le n
  by_cases hMem : c ∈ firstBytes mem n
  · have hBelow : misses mem (c :: tail) n < n := by
      apply Nat.lt_of_le_of_ne hMisses
      intro hAll
      exact (misses_eq_iff n).mp hAll hMem
    have hBudget : (n - misses mem (c :: tail) n) * (c :: tail).length ≤ n * (c :: tail).length :=
      Nat.mul_le_mul_right _ (Nat.sub_le n _)
    have hEnds : ∃ r, searchLoop mem (c :: tail) n (passes + 1) (misses mem (c :: tail) n) n
        (progress (c :: tail) (firstBytes mem n)) = some r ∧ n ≤ r.2 ∧
          (misses mem (c :: tail) n < n → n < r.2) :=
      searchLoop_ends _ _ _ _ hMisses hLt (by omega) (Nat.succ_pos _)
    obtain ⟨⟨found, looked⟩, hEnd, -, hLooked⟩ := hEnds
    exact Or.inr ⟨hMem, found, looked, hLooked hBelow, hRun.trans hEnd⟩
  · refine Or.inl ⟨hMem, ?_⟩
    rw [hRun, (misses_eq_iff n).mpr hMem, searchLoop, if_neg fun h => absurd h.1 (Nat.lt_irrefl n)]

/-- The forward pass finds the string, or nothing in the text starts it. -/
def Clean (str s : List UInt8) : Prop := Reached str s ∨ ∀ c ∈ str.head?, c ∉ s

theorem search_right_iff (hStr : str ≠ []) : ∃ found looked, search mem str n = some (found, looked) ∧
    ((found = true ↔ str <:+: firstBytes mem n) ∧ looked ≤ n ↔ Clean str (firstBytes mem n)) := by
  by_cases hReached : Reached str (firstBytes mem n)
  · obtain ⟨looked, hLooked, hRun⟩ := search_reached hStr hReached
    exact ⟨true, looked, hRun, fun _ => Or.inl hReached, fun _ => ⟨iff_of_true rfl hReached.infix, hLooked⟩⟩
  · obtain ⟨c, tail, rfl⟩ := List.exists_cons_of_ne_nil hStr
    rcases search_missed hReached with ⟨hNone, hRun⟩ | ⟨hMem, found, looked, hLooked, hRun⟩
    · refine ⟨false, n, hRun, fun _ => Or.inr ?_, fun _ => ⟨⟨nofun, ?_⟩, Nat.le_refl n⟩⟩
      · rintro b ⟨⟩
        exact hNone
      · intro hInfix
        exact absurd (hInfix.subset List.mem_cons_self) hNone
    · refine ⟨found, looked, hRun, fun h => absurd h.2 (Nat.not_le.mpr hLooked), ?_⟩
      rintro (hAgain | hNone)
      · exact absurd hAgain hReached
      · exact absurd hMem (hNone c rfl)

end Search

end Telnet

end DataReel
