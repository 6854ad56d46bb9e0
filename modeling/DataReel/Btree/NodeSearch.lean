import DataReel.Btree.Node

/-! # Searching one node

`FindKeyLocation` in its linear and its binary version, each with two operators
or one compare call. A build compiles one of the four; on sorted entries they
answer alike.
-/

namespace DataReel

variable {κ : Type}

namespace KeyClass

variable (K : KeyClass κ)

def greater (key compareKey : κ) : Bool :=
  if K.useSingleCompare then decide (0 < K.compareKey key compareKey)
  else K.operatorGt key compareKey

def equal (key compareKey : κ) : Bool :=
  if K.useSingleCompare then decide (K.compareKey key compareKey = 0)
  else K.operatorEq key compareKey

variable {K}

theorem StrictOrder.greater_eq (hK : K.StrictOrder) (a b : κ) :
    K.greater a b = K.comparison.lt b a := by
  rw [greater, comparison, Bool.eq_iff_iff]
  split
  · rw [decide_eq_true_eq, hK.compareKey_pos]
  · rfl

theorem StrictOrder.equal_eq (hK : K.StrictOrder) (a b : κ) :
    K.equal a b = K.comparison.eqv a b := by
  rw [equal, comparison, Bool.eq_iff_iff]
  split
  · rw [decide_eq_true_eq, hK.compareKey_zero]
  · rfl

end KeyClass

/-- The return value of `FindKeyLocation` and the location it passes back. -/
structure KeyLocation where
  rv : Int
  keyLocation : Int
  deriving DecidableEq, Repr

namespace BtreeNode

/-- The linear loop; the argument is `key_location + 1`. -/
def findLinear (K : KeyClass κ) (n : BtreeNode κ) (key : κ) : Nat → KeyLocation
  | 0 => ⟨-1, -1⟩
  | i + 1 =>
    match n.keyEntries[i]? with
    | none => ⟨-1, -1⟩
    | some e =>
      if K.greater key e.dbKey then ⟨1, i⟩
      else if K.equal key e.dbKey then ⟨0, i⟩
      else findLinear K n key i

/-- The binary search loop. The first argument bounds the number of passes; the interval
`nLeft .. nRight` shrinks in every pass, so it never holds more locations than passes remain. -/
def findBinary (K : KeyClass κ) (n : BtreeNode κ) (key : κ) : Nat → Int → Int → KeyLocation
  | 0, _, nRight => ⟨if nRight < 0 then -1 else 1, nRight⟩
  | passes + 1, nLeft, nRight =>
    if nLeft ≤ nRight then
      match n.entry ((nLeft + nRight) / 2) with
      | none => ⟨-1, -1⟩
      | some e =>
        if K.equal key e.dbKey then ⟨0, (nLeft + nRight) / 2⟩
        else if K.greater key e.dbKey then
          findBinary K n key passes ((nLeft + nRight) / 2 + 1) nRight
        else findBinary K n key passes nLeft ((nLeft + nRight) / 2 - 1)
    else ⟨if nRight < 0 then -1 else 1, nRight⟩

/-- Returns 0 with the location of an equal entry, 1 with the location of the last entry below
the key, or -1 with location -1. `compare_key` is left with the entry at the location when the
return value is 0. -/
def findKeyLocation (K : KeyClass κ) (n : BtreeNode κ) (key : κ) : KeyLocation :=
  if K.useBinarySearch then findBinary K n key n.keyCount 0 ((n.keyCount : Int) - 1)
  else findLinear K n key n.keyCount

variable {K : KeyClass κ} {n : BtreeNode κ} {key : κ}

theorem findLinear_miss {p : Nat}
    (hLow : ∀ i e, n.keyEntries[i]? = some e → i < p → K.greater key e.dbKey = true)
    (hHigh : ∀ i e, n.keyEntries[i]? = some e → p ≤ i →
      K.greater key e.dbKey = false ∧ K.equal key e.dbKey = false)
    (i : Nat) (hp : p ≤ i) (hi : i ≤ n.keyCount) :
    n.findLinear K key i = ⟨if p = 0 then -1 else 1, (p : Int) - 1⟩ := by
  induction i with
  | zero =>
    obtain rfl : p = 0 := Nat.le_zero.mp hp
    rfl
  | succ i ih =>
    have hLt : i < n.keyEntries.length := hi
    have hEntry : n.keyEntries[i]? = some n.keyEntries[i] := List.getElem?_eq_getElem hLt
    simp only [findLinear, hEntry]
    by_cases hip : i < p
    · obtain rfl : p = i + 1 := by omega
      rw [if_pos (hLow i _ hEntry hip)]
      simp
    · obtain ⟨hGt, hEq⟩ := hHigh i _ hEntry (by omega)
      rw [if_neg (by simp [hGt]), if_neg (by simp [hEq])]
      exact ih (by omega) (by omega)

theorem findLinear_hit {p : Nat} {x : DatabaseKey κ} (hx : n.keyEntries[p]? = some x)
    (hEqual : K.equal key x.dbKey = true) (hGreater : K.greater key x.dbKey = false)
    (hHigh : ∀ i e, n.keyEntries[i]? = some e → p < i →
      K.greater key e.dbKey = false ∧ K.equal key e.dbKey = false)
    (i : Nat) (hp : p < i) (hi : i ≤ n.keyCount) :
    n.findLinear K key i = ⟨0, p⟩ := by
  induction i with
  | zero => exact absurd hp (Nat.not_lt_zero p)
  | succ i ih =>
    have hLt : i < n.keyEntries.length := hi
    have hEntry : n.keyEntries[i]? = some n.keyEntries[i] := List.getElem?_eq_getElem hLt
    by_cases hip : i = p
    · subst hip
      simp [findLinear, hx, hEqual, hGreater]
    · obtain ⟨hGt, hEq⟩ := hHigh i _ hEntry (by omega)
      simp only [findLinear, hEntry]
      rw [if_neg (by simp [hGt]), if_neg (by simp [hEq])]
      exact ih (by omega) (by omega)

theorem findBinary_miss {p : Nat}
    (hLow : ∀ i e, n.keyEntries[i]? = some e → i < p →
      K.equal key e.dbKey = false ∧ K.greater key e.dbKey = true)
    (hHigh : ∀ i e, n.keyEntries[i]? = some e → p ≤ i →
      K.greater key e.dbKey = false ∧ K.equal key e.dbKey = false)
    (passes : Nat) (nLeft nRight : Int) (hLeft : 0 ≤ nLeft) (hLeftP : nLeft ≤ p)
    (hRightP : (p : Int) ≤ nRight + 1) (hRight : nRight < n.keyCount)
    (hPasses : nRight - nLeft + 1 ≤ passes) :
    n.findBinary K key passes nLeft nRight = ⟨if p = 0 then -1 else 1, (p : Int) - 1⟩ := by
  induction passes generalizing nLeft nRight with
  | zero =>
    obtain rfl : nRight = (p : Int) - 1 := by omega
    simp only [findBinary, KeyLocation.mk.injEq, and_true]
    split <;> split <;> omega
  | succ passes ih =>
    rw [findBinary]
    split
    · have hMid : 0 ≤ (nLeft + nRight) / 2 := by omega
      obtain ⟨i, hi⟩ := Int.eq_ofNat_of_zero_le hMid
      have hLt : i < n.keyEntries.length := by
        have : (i : Int) < n.keyEntries.length := by
          change _ < (n.keyCount : Int)
          omega
        omega
      have hEntry : n.keyEntries[i]? = some n.keyEntries[i] := List.getElem?_eq_getElem hLt
      have hAt : n.entry ((nLeft + nRight) / 2) = some n.keyEntries[i] := by
        rw [entry, if_neg (by omega), hi]
        exact hEntry
      simp only [hAt]
      by_cases hip : i < p
      · obtain ⟨hEq, hGt⟩ := hLow i _ hEntry hip
        rw [if_neg (by simp [hEq]), if_pos hGt]
        exact ih _ _ (by omega) (by omega) hRightP hRight (by omega)
      · obtain ⟨hGt, hEq⟩ := hHigh i _ hEntry (by omega)
        rw [if_neg (by simp [hEq]), if_neg (by simp [hGt])]
        exact ih _ _ hLeft hLeftP (by omega) (by omega) (by omega)
    · obtain rfl : nRight = (p : Int) - 1 := by omega
      simp only [KeyLocation.mk.injEq, and_true]
      split <;> split <;> omega

theorem findBinary_hit {p : Nat} {x : DatabaseKey κ} (hx : n.keyEntries[p]? = some x)
    (hEqual : K.equal key x.dbKey = true)
    (hLow : ∀ i e, n.keyEntries[i]? = some e → i < p →
      K.equal key e.dbKey = false ∧ K.greater key e.dbKey = true)
    (hHigh : ∀ i e, n.keyEntries[i]? = some e → p < i →
      K.greater key e.dbKey = false ∧ K.equal key e.dbKey = false)
    (passes : Nat) (nLeft nRight : Int) (hLeft : 0 ≤ nLeft) (hLeftP : nLeft ≤ p)
    (hRightP : (p : Int) ≤ nRight) (hRight : nRight < n.keyCount)
    (hPasses : nRight - nLeft + 1 ≤ passes) :
    n.findBinary K key passes nLeft nRight = ⟨0, p⟩ := by
  induction passes generalizing nLeft nRight with
  | zero => omega
  | succ passes ih =>
    rw [findBinary, if_pos (by omega)]
    have hMid : 0 ≤ (nLeft + nRight) / 2 := by omega
    obtain ⟨i, hi⟩ := Int.eq_ofNat_of_zero_le hMid
    have hLt : i < n.keyEntries.length := by
      have : (i : Int) < n.keyEntries.length := by
        change _ < (n.keyCount : Int)
        omega
      omega
    have hEntry : n.keyEntries[i]? = some n.keyEntries[i] := List.getElem?_eq_getElem hLt
    have hAt : n.entry ((nLeft + nRight) / 2) = some n.keyEntries[i] := by
      rw [entry, if_neg (by omega), hi]
      exact hEntry
    simp only [hAt]
    rcases Nat.lt_trichotomy i p with hip | hip | hip
    · obtain ⟨hEq, hGt⟩ := hLow i _ hEntry hip
      rw [if_neg (by simp [hEq]), if_pos hGt]
      exact ih _ _ (by omega) (by omega) hRightP hRight (by omega)
    · subst hip
      obtain rfl : n.keyEntries[i] = x := Option.some.inj (hEntry.symm.trans hx)
      rw [if_pos hEqual, hi]
    · obtain ⟨hGt, hEq⟩ := hHigh i _ hEntry hip
      rw [if_neg (by simp [hEq]), if_neg (by simp [hGt])]
      exact ih _ _ hLeft hLeftP (by omega) (by omega) (by omega)

/-! ## One specification for every build -/

section Spec

variable {c : FAU} {l r : List (DatabaseKey κ)} {x : DatabaseKey κ}

theorem split_low {i : Nat} {e : DatabaseKey κ} (h : (l ++ r)[i]? = some e)
    (hi : i < l.length) : e ∈ l :=
  List.mem_of_getElem? (List.getElem?_append_left hi ▸ h)

theorem split_high {i : Nat} {e : DatabaseKey κ} (h : (l ++ r)[i]? = some e)
    (hi : l.length ≤ i) : e ∈ r :=
  List.mem_of_getElem? (List.getElem?_append_right hi ▸ h)

/-- The key lies between the entries `l` and the entries `r`. -/
theorem findKeyLocation_miss (hK : K.StrictOrder)
    (hl : ∀ e ∈ l, K.comparison.lt e.dbKey key = true)
    (hr : ∀ e ∈ r, K.comparison.lt key e.dbKey = true) :
    findKeyLocation K ⟨c, l ++ r⟩ key = ⟨if l.length = 0 then -1 else 1, (l.length : Int) - 1⟩ := by
  have hLow : ∀ i e, (l ++ r)[i]? = some e → i < l.length →
      K.equal key e.dbKey = false ∧ K.greater key e.dbKey = true := by
    intro i e he hi
    have hLt := hl e (split_low he hi)
    rw [hK.equal_eq, hK.greater_eq]
    exact ⟨hK.strict.gt_not_eqv hLt, hLt⟩
  have hHigh : ∀ i e, (l ++ r)[i]? = some e → l.length ≤ i →
      K.greater key e.dbKey = false ∧ K.equal key e.dbKey = false := by
    intro i e he hi
    have hLt := hr e (split_high he hi)
    rw [hK.equal_eq, hK.greater_eq]
    exact ⟨hK.strict.lt_not_gt hLt, hK.strict.lt_not_eqv hLt⟩
  have hCount : keyCount (⟨c, l ++ r⟩ : BtreeNode κ) = l.length + r.length := by simp [keyCount]
  rw [findKeyLocation]
  split
  · exact findBinary_miss hLow hHigh _ _ _ (by omega) (by omega) (by omega) (by omega)
      (by omega)
  · exact findLinear_miss (fun i e he hi => (hLow i e he hi).2) hHigh _ (by omega) (Nat.le_refl _)

theorem rv_miss (l : List (DatabaseKey κ)) : (if l.length = 0 then -1 else 1 : Int) ≠ 0 := by
  split <;> omega

/-- The key equals the entry after the entries `l`. -/
theorem findKeyLocation_hit (hK : K.StrictOrder)
    (hl : ∀ e ∈ l, K.comparison.lt e.dbKey key = true)
    (hx : K.comparison.eqv key x.dbKey = true)
    (hr : ∀ e ∈ r, K.comparison.lt key e.dbKey = true) :
    findKeyLocation K ⟨c, l ++ x :: r⟩ key = ⟨0, l.length⟩ := by
  have hAt : (l ++ x :: r)[l.length]? = some x := by simp
  have hEqual : K.equal key x.dbKey = true := by rw [hK.equal_eq, hx]
  have hLow : ∀ i e, (l ++ x :: r)[i]? = some e → i < l.length →
      K.equal key e.dbKey = false ∧ K.greater key e.dbKey = true := by
    intro i e he hi
    have hLt := hl e (split_low he hi)
    rw [hK.equal_eq, hK.greater_eq]
    exact ⟨hK.strict.gt_not_eqv hLt, hLt⟩
  have hHigh : ∀ i e, (l ++ x :: r)[i]? = some e → l.length < i →
      K.greater key e.dbKey = false ∧ K.equal key e.dbKey = false := by
    intro i e he hi
    have he' : ((l ++ [x]) ++ r)[i]? = some e := by simpa using he
    have hLt := hr e (split_high he' (by simp; omega))
    rw [hK.equal_eq, hK.greater_eq]
    exact ⟨hK.strict.lt_not_gt hLt, hK.strict.lt_not_eqv hLt⟩
  have hCount : keyCount (⟨c, l ++ x :: r⟩ : BtreeNode κ) = l.length + r.length + 1 := by
    simp [keyCount, Nat.add_assoc]
  rw [findKeyLocation]
  split
  · exact findBinary_hit hAt hEqual hLow hHigh _ _ _ (by omega) (by omega) (by omega)
      (by omega) (by omega)
  · have hGreater : K.greater key x.dbKey = false := by
      rw [hK.greater_eq, hK.strict.eqv_not_gt hx]
    exact findLinear_hit hAt hEqual hGreater hHigh _ (by omega) (Nat.le_refl _)

/-- The branch that a search takes depends only on the entries not above the key. -/
theorem findKeyLocation_branch (hK : K.StrictOrder)
    (hSorted : K.comparison.Sorted (l.map DatabaseKey.dbKey))
    (hl : ∀ e ∈ l, K.comparison.lt key e.dbKey = false)
    (hr : ∀ e ∈ r, K.comparison.lt key e.dbKey = true) :
    (findKeyLocation K ⟨c, l ++ r⟩ key).keyLocation = (l.length : Int) - 1 := by
  rcases List.eq_nil_or_concat l with rfl | ⟨l', x, rfl⟩
  · rw [findKeyLocation_miss hK (by simp) hr]
  · have hBefore : ∀ e ∈ l', K.comparison.lt e.dbKey x.dbKey = true := by
      rw [List.concat_eq_append, List.map_append] at hSorted
      have hSplit := (Comparison.sorted_append.mp hSorted).2.2
      intro e he
      exact hSplit _ (List.mem_map_of_mem he) _ (by simp)
    rcases hK.strict.total x.dbKey key with hLt | hEq | hGt
    · rw [findKeyLocation_miss hK _ hr]
      intro e he
      rcases List.mem_append.mp (List.concat_eq_append ▸ he) with he | he
      · exact hK.strict.lt_trans (hBefore e he) hLt
      · obtain rfl := List.mem_singleton.mp he
        exact hLt
    · rw [List.concat_eq_append, List.append_assoc, List.singleton_append,
        findKeyLocation_hit hK _ (hK.strict.eqv_symm hEq) hr]
      · simp
      · exact fun e he => hK.strict.lt_of_lt_eqv (hBefore e he) hEq
    · exact absurd hGt (by simp [hl x (by simp)])

end Spec

end BtreeNode

end DataReel
