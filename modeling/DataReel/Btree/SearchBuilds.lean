import DataReel.Btree.Descent
import DataReel.Library.Signed

/-! # The two node searches in the integer type of a build

Counts and locations are `__LWORD__` values. Arithmetic that leaves the range of
the type has no result here, and neither has a search that does not end or reads
outside the entries of the node. The buffer of a node is what keeps both
searches inside the range.
-/

namespace DataReel

namespace BtreeNode

variable {κ : Type}

/-- `FindKeyLocation` in a build with `__USE_BINARY_SEARCH__`. -/
def searchBinary (w : Nat) (keySize : Int) (K : KeyClass κ) (n : BtreeNode κ) (key : κ) :
    Nat → Int → Int → Option KeyLocation
  | 0, _, _ => none
  | passes + 1, nLeft, nRight =>
    if nLeft ≤ nRight then do
      let sum ← checkedWord w (nLeft + nRight)
      let keyLocation := sum.tdiv 2
      let _offset ← checkedWord w (keySize * keyLocation)
      let e ← n.entry keyLocation
      if K.equal key e.dbKey then some ⟨0, keyLocation⟩
      else if K.greater key e.dbKey then do
        let next ← checkedWord w (keyLocation + 1)
        searchBinary w keySize K n key passes next nRight
      else do
        let next ← checkedWord w (keyLocation - 1)
        searchBinary w keySize K n key passes nLeft next
    else some ⟨if nRight < 0 then -1 else 1, nRight⟩

/-- `FindKeyLocation` in a build without it. -/
def searchLinear (w : Nat) (keySize : Int) (K : KeyClass κ) (n : BtreeNode κ) (key : κ) :
    Nat → Int → Option KeyLocation
  | 0, _ => none
  | passes + 1, keyLocation =>
    if 0 ≤ keyLocation then do
      let _offset ← checkedWord w (keySize * keyLocation)
      let e ← n.entry keyLocation
      if K.greater key e.dbKey then some ⟨1, keyLocation⟩
      else if K.equal key e.dbKey then some ⟨0, keyLocation⟩
      else do
        let next ← checkedWord w (keyLocation - 1)
        searchLinear w keySize K n key passes next
    else some ⟨-1, keyLocation⟩

/-- The constructor allocates `key_size * node_order` bytes, a product of the type, and an entry
holds a file address of four bytes or more. -/
structure Buffered (w : Nat) (keySize nodeOrder : Int) (n : BtreeNode κ) : Prop where
  address : 4 ≤ keySize
  bytes : keySize * nodeOrder < 2 ^ (w - 1)
  fits : (n.keyCount : Int) ≤ nodeOrder

section Buffered

variable {w : Nat} {keySize nodeOrder : Int} {n : BtreeNode κ}

theorem Buffered.entries_lt (h : n.Buffered w keySize nodeOrder) :
    4 * (n.keyCount : Int) < 2 ^ (w - 1) := by
  have hCount : 4 * (n.keyCount : Int) ≤ keySize * n.keyCount :=
    Int.mul_le_mul_of_nonneg_right h.address (by omega)
  have hOrder : keySize * n.keyCount ≤ keySize * nodeOrder :=
    Int.mul_le_mul_of_nonneg_left h.fits (by have := h.address; omega)
  have hBytes := h.bytes
  omega

theorem Buffered.offset (h : n.Buffered w keySize nodeOrder) {i : Int} (h₀ : 0 ≤ i)
    (hi : i < n.keyCount) : checkedWord w (keySize * i) = some (keySize * i) := by
  have hSize := h.address
  have hCount := h.fits
  have hBytes := h.bytes
  have hLe : keySize * i ≤ keySize * nodeOrder :=
    Int.mul_le_mul_of_nonneg_left (by omega) (by omega)
  have hNonneg : 0 ≤ keySize * i := Int.mul_nonneg (by omega) h₀
  exact checkedWord_of_small (by omega) (by omega)

theorem entry_inside {i : Int} (h₀ : 0 ≤ i) (hi : i < n.keyCount) : ∃ e, n.entry i = some e := by
  obtain ⟨k, rfl⟩ := Int.eq_ofNat_of_zero_le h₀
  have hk : k < n.keyEntries.length := by
    simp only [keyCount] at hi
    omega
  exact ⟨n.keyEntries[k], by simp [entry, hk]⟩

/-- Inside the buffer the binary search takes the passes of the unbounded one. -/
theorem Buffered.searchBinary_eq (h : n.Buffered w keySize nodeOrder) (K : KeyClass κ) (key : κ)
    (passes bound : Nat) (nLeft nRight : Int) (hLeft : 0 ≤ nLeft) (hMeet : nLeft ≤ nRight + 1)
    (hRight : nRight < n.keyCount) (hPasses : nRight - nLeft + 1 < passes)
    (hBound : nRight - nLeft + 1 ≤ bound) :
    n.searchBinary w keySize K key passes nLeft nRight =
      some (n.findBinary K key bound nLeft nRight) := by
  have hSmall := h.entries_lt
  induction passes generalizing bound nLeft nRight with
  | zero => omega
  | succ passes ih =>
    rw [searchBinary]
    by_cases hLe : nLeft ≤ nRight
    · obtain ⟨bound, rfl⟩ : ∃ b, bound = b + 1 := ⟨bound - 1, by omega⟩
      have hMid : (nLeft + nRight).tdiv 2 = (nLeft + nRight) / 2 :=
        Int.tdiv_eq_ediv_of_nonneg (by omega)
      obtain ⟨e, he⟩ := n.entry_inside (i := (nLeft + nRight) / 2) (by omega) (by omega)
      rw [if_pos hLe, findBinary, if_pos hLe, checkedWord_of_small (by omega) (by omega)]
      simp only [Option.bind_eq_bind, Option.bind_some, hMid, he,
        h.offset (i := (nLeft + nRight) / 2) (by omega) (by omega)]
      split
      · rfl
      · split
        · rw [checkedWord_of_small (by omega) (by omega)]
          exact ih bound _ _ (by omega) (by omega) hRight (by omega) (by omega)
        · rw [checkedWord_of_small (by omega) (by omega)]
          exact ih bound _ _ hLeft (by omega) (by omega) (by omega) (by omega)
    · rw [if_neg hLe]
      cases bound with
      | zero => rfl
      | succ bound => rw [findBinary, if_neg hLe]

theorem Buffered.searchLinear_eq (h : n.Buffered w keySize nodeOrder) (K : KeyClass κ) (key : κ)
    (passes i : Nat) (hi : i ≤ n.keyCount) (hPasses : i < passes) :
    n.searchLinear w keySize K key passes ((i : Int) - 1) = some (n.findLinear K key i) := by
  have hSmall := h.entries_lt
  induction i generalizing passes with
  | zero =>
    obtain ⟨passes, rfl⟩ : ∃ p, passes = p + 1 := ⟨passes - 1, by omega⟩
    rfl
  | succ i ih =>
    obtain ⟨passes, rfl⟩ : ∃ p, passes = p + 1 := ⟨passes - 1, by omega⟩
    have hEntry : n.keyEntries[i]? = some n.keyEntries[i] := List.getElem?_eq_getElem hi
    have hAt : ((i + 1 : Nat) : Int) - 1 = i := by omega
    have hIn : n.entry (i : Int) = some n.keyEntries[i] := by
      rw [entry, if_neg (by omega)]
      exact hEntry
    rw [searchLinear, if_pos (by omega), hAt, h.offset (by omega) (by omega), hIn]
    simp only [Option.bind_eq_bind, Option.bind_some, findLinear, hEntry]
    split
    · rfl
    · split
      · rfl
      · rw [checkedWord_of_small (by omega) (by omega)]
        exact ih passes (by omega) (by omega)

end Buffered

/-- What a caller of `FindKeyLocation` learns about the entries of the node. -/
inductive Locates (C : Comparison κ) (n : BtreeNode κ) (key : κ) : KeyLocation → Prop
  | equal {i : Int} {e : DatabaseKey κ} : n.entry i = some e → C.eqv key e.dbKey = true →
      Locates C n key ⟨0, i⟩
  | greater {i : Int} {e : DatabaseKey κ} : n.entry i = some e → C.lt e.dbKey key = true →
      (∀ j e', i < j → n.entry j = some e' → C.lt key e'.dbKey = true) → Locates C n key ⟨1, i⟩
  | less : (∀ j e', n.entry j = some e' → C.lt key e'.dbKey = true) → Locates C n key ⟨-1, -1⟩

theorem entry_of_getElem? {n : BtreeNode κ} {j : Int} {e : DatabaseKey κ}
    (h : n.entry j = some e) : 0 ≤ j ∧ n.keyEntries[j.toNat]? = some e := by
  rw [entry] at h
  split at h
  · cases h
  · exact ⟨by omega, h⟩

/-- Between the entries below the key and those above it. -/
theorem locates_miss {C : Comparison κ} {key : κ} {c : FAU} {l r : List (DatabaseKey κ)}
    (hl : ∀ e ∈ l, C.lt e.dbKey key = true) (hr : ∀ e ∈ r, C.lt key e.dbKey = true) :
    Locates C ⟨c, l ++ r⟩ key ⟨if l.length = 0 then -1 else 1, (l.length : Int) - 1⟩ := by
  have hAbove : ∀ j e', (l.length : Int) - 1 < j →
      entry (⟨c, l ++ r⟩ : BtreeNode κ) j = some e' → C.lt key e'.dbKey = true := by
    intro j e' hj he
    obtain ⟨hNonneg, he⟩ := entry_of_getElem? he
    exact hr e' (split_high he (by omega))
  rcases List.eq_nil_or_concat l with rfl | ⟨l', x, rfl⟩
  · apply Locates.less
    intro j e' he
    exact hAbove j e' (by have := (entry_of_getElem? he).1; simp; omega) he
  · rw [List.concat_eq_append] at *
    have hLast : ((l' ++ [x]).length : Int) - 1 = l'.length := by simp
    rw [if_neg (by simp), hLast]
    apply Locates.greater (e := x)
    · rw [List.append_assoc, List.singleton_append, entry_at]
    · exact hl x (by simp)
    · rw [← hLast]
      exact hAbove

end BtreeNode

namespace KeyClass

variable {κ : Type}

/-- The class in a build with these preprocessor directives. -/
def build (K : KeyClass κ) (useBinarySearch useSingleCompare : Bool) : KeyClass κ :=
  { K with useBinarySearch, useSingleCompare }

theorem StrictOrder.build {K : KeyClass κ} (hK : K.StrictOrder) (binary single : Bool) :
    (K.build binary single).StrictOrder :=
  ⟨hK.strict, hK.compareKey_pos, hK.compareKey_zero⟩

end KeyClass

namespace BtreeNode

variable {κ : Type} {K : KeyClass κ} {n : BtreeNode κ} {w : Nat} {keySize nodeOrder : Int}

/-- `FindKeyLocation` of the build. -/
def findKeyLocationIn (w : Nat) (keySize : Int) (K : KeyClass κ) (n : BtreeNode κ) (key : κ)
    (passes : Nat) : Option KeyLocation := do
  let last ← checkedWord w ((n.keyCount : Int) - 1)
  if K.useBinarySearch then searchBinary w keySize K n key passes 0 last
  else searchLinear w keySize K n key passes last

theorem Buffered.findKeyLocationIn_eq (h : n.Buffered w keySize nodeOrder) (K : KeyClass κ)
    (key : κ) {passes : Nat} (hPasses : n.keyCount < passes) :
    n.findKeyLocationIn w keySize K key passes = some (n.findKeyLocation K key) := by
  have hSmall := h.entries_lt
  rw [findKeyLocationIn, checkedWord_of_small (by omega) (by omega), findKeyLocation]
  simp only [Option.bind_eq_bind, Option.bind_some]
  split
  · exact h.searchBinary_eq K key _ _ _ _ (by omega) (by omega) (by omega) (by omega) (by omega)
  · exact h.searchLinear_eq K key _ _ (Nat.le_refl _) hPasses

/-- The four builds of `FindKeyLocation` end and agree on sorted entries. -/
theorem findKeyLocation_alike (hK : K.StrictOrder) (h : n.Buffered w keySize nodeOrder)
    (hSorted : K.comparison.Sorted (n.keyEntries.map DatabaseKey.dbKey)) (key : κ) {passes : Nat}
    (hPasses : n.keyCount < passes) :
    ∃ r, Locates K.comparison n key r ∧ ∀ binary single,
      n.findKeyLocationIn w keySize (K.build binary single) key passes = some r := by
  obtain ⟨c, es⟩ := n
  rcases split_node hK.strict hSorted key with ⟨l, x, r, rfl, hx, hl, hr⟩ | ⟨l, r, rfl, hl, hr⟩
  · refine ⟨⟨0, l.length⟩, Locates.equal (entry_at c l r x) hx, ?_⟩
    intro binary single
    rw [h.findKeyLocationIn_eq _ key hPasses, findKeyLocation_hit (hK.build binary single) hl hx hr]
  · refine ⟨_, locates_miss hl hr, ?_⟩
    intro binary single
    rw [h.findKeyLocationIn_eq _ key hPasses, findKeyLocation_miss (hK.build binary single) hl hr]

/-- A node of two entries and a key between them, with 64-bit counts. -/
theorem findKeyLocation_alike_two :
    ∃ r, Locates KeyClass.int.comparison ⟨0, [⟨8, 3⟩, ⟨16, 7⟩]⟩ 5 r ∧ ∀ binary single,
      findKeyLocationIn 64 12 (KeyClass.int.build binary single) ⟨0, [⟨8, 3⟩, ⟨16, 7⟩]⟩ 5 3 =
        some r :=
  findKeyLocation_alike KeyClass.int_strictOrder
    (⟨by decide, by decide, by decide⟩ : Buffered 64 12 4 _) (by simp [Comparison.Sorted, KeyClass.comparison, KeyClass.int])
    5 (by decide)

end BtreeNode

end DataReel
