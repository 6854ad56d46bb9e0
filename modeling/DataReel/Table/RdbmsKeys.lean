import DataReel.Btree.OtherOrder
import DataReel.Table.Rdbms

/-! # The keys of an index and the key object of a search

The keys of a table that allows duplicates are in order by their values and then by the addresses.
A key object that compares values alone finds its way among them where the value is that of one key.
-/

namespace DataReel

variable {dup useBinarySearch useSingleCompare : Bool}

theorem rdbmsKey_strictOrder (dup useBinarySearch useSingleCompare : Bool) :
    (rdbmsKey dup useBinarySearch useSingleCompare).StrictOrder := by
  constructor
  · constructor <;> cases dup <;>
      simp [KeyClass.comparison, rdbmsKey, RdbmsKey.operatorGt, RdbmsKey.operatorEq] <;> grind
  · intro a b
    cases dup <;> simp [rdbmsKey, RdbmsKey.operatorGt, RdbmsKey.compareKey] <;> grind
  · intro a b
    cases dup <;> simp [rdbmsKey, RdbmsKey.operatorEq, RdbmsKey.compareKey] <;> grind

/-- Keys in order by their values, and by the addresses but for one value. -/
def keyButFor (k : Nat) (useBinarySearch useSingleCompare : Bool) : KeyClass RdbmsKey where
  operatorGt a b := b.k < a.k ∨ (a.k = b.k ∧ a.k ≠ k ∧ b.kid < a.kid)
  operatorEq a b := a.k = b.k ∧ (a.k = k ∨ a.kid = b.kid)
  compareKey a b :=
    if b.k < a.k ∨ (a.k = b.k ∧ a.k ≠ k ∧ b.kid < a.kid) then 1
    else if a.k = b.k ∧ (a.k = k ∨ a.kid = b.kid) then 0
    else -1
  useBinarySearch := useBinarySearch
  useSingleCompare := useSingleCompare

theorem keyButFor_strictOrder (k : Nat) (useBinarySearch useSingleCompare : Bool) :
    (keyButFor k useBinarySearch useSingleCompare).StrictOrder := by
  constructor
  · constructor <;> simp [KeyClass.comparison, keyButFor] <;> grind
  · intro a b
    simp only [keyButFor, decide_eq_true_eq]
    grind
  · intro a b
    simp only [keyButFor, decide_eq_true_eq]
    grind

section Order

variable {a b : RdbmsKey}

@[simp] theorem rdbmsKey_lt_false :
    (rdbmsKey false useBinarySearch useSingleCompare).comparison.lt a b = true ↔ a.k < b.k := by
  simp [rdbmsKey, KeyClass.comparison, RdbmsKey.operatorGt]

theorem rdbmsKey_lt_cases (h : (rdbmsKey dup useBinarySearch useSingleCompare).comparison.lt a b = true) :
    a.k < b.k ∨ (a.k = b.k ∧ a.kid < b.kid) := by
  cases dup
  · exact .inl (rdbmsKey_lt_false.mp h)
  · simp only [rdbmsKey, KeyClass.comparison, RdbmsKey.operatorGt, Bool.not_true, Bool.false_eq_true,
      if_false] at h
    split at h
    · exact .inl ‹_›
    · split at h
      · cases h
      · exact .inr ⟨by omega, of_decide_eq_true h⟩

theorem rdbmsKey_eqv (h : (rdbmsKey dup useBinarySearch useSingleCompare).comparison.eqv a b = true) :
    a.k = b.k := by
  cases dup <;> simp [rdbmsKey, KeyClass.comparison, RdbmsKey.operatorEq] at h
  · exact h
  · exact h.1

/-- The value of a key that a search compares by its value alone does not matter beyond that. -/
theorem comparesAs_of_k (h : a.k = b.k) :
    ComparesAs (rdbmsKey false useBinarySearch useSingleCompare) a
      (rdbmsKey false useBinarySearch useSingleCompare) b := by
  refine ⟨rfl, fun c => ?_, fun c => ?_⟩
  · simp [KeyClass.greater, rdbmsKey, RdbmsKey.operatorGt, RdbmsKey.compareKey, h]
  · simp [KeyClass.equal, rdbmsKey, RdbmsKey.operatorEq, RdbmsKey.compareKey, h]

theorem comparesAs_keyButFor (a : RdbmsKey) :
    ComparesAs (rdbmsKey false useBinarySearch useSingleCompare) a
      (keyButFor a.k useBinarySearch useSingleCompare) a := by
  refine ⟨rfl, fun c => ?_, fun c => ?_⟩
  · simp only [KeyClass.greater, rdbmsKey, RdbmsKey.operatorGt, RdbmsKey.compareKey, keyButFor]
    grind
  · simp only [KeyClass.equal, rdbmsKey, RdbmsKey.operatorEq, RdbmsKey.compareKey, keyButFor]
    grind

theorem rdbmsKey_tellsApart (dup : Bool) (a : RdbmsKey) :
    TellsApart (rdbmsKey false useBinarySearch useSingleCompare)
      (rdbmsKey dup useBinarySearch useSingleCompare) a := by
  constructor
  · rfl
  · simp [KeyClass.equal, rdbmsKey, RdbmsKey.operatorEq, RdbmsKey.compareKey]
  · intro b c hb hc
    simp only [KeyClass.equal, KeyClass.greater, rdbmsKey, RdbmsKey.operatorEq, RdbmsKey.operatorGt,
      RdbmsKey.compareKey] at hb hc ⊢
    grind
  · intro b hb
    simp only [KeyClass.equal, KeyClass.greater, rdbmsKey, RdbmsKey.operatorEq, RdbmsKey.operatorGt,
      RdbmsKey.compareKey] at hb ⊢
    grind

theorem rdbmsKey_equal : (rdbmsKey false useBinarySearch useSingleCompare).equal a b = true ↔ a.k = b.k := by
  simp only [KeyClass.equal, rdbmsKey, RdbmsKey.operatorEq, RdbmsKey.compareKey]
  grind

end Order

section Walk

variable {A : KeySet (rdbmsKey dup useBinarySearch useSingleCompare).comparison} {t : Btree RdbmsKey}

/-- The keys of an index are all different, and no key is after one with a greater value. -/
theorem Btree.Stores.keys_sorted (h : t.Stores (rdbmsKey dup useBinarySearch useSingleCompare) A) :
    t.keys.Pairwise fun a b => a.k < b.k ∨ (a.k = b.k ∧ a.kid < b.kid) := by
  rw [h.keys]
  exact A.sorted.imp rdbmsKey_lt_cases

theorem Btree.Stores.keys_nodup (h : t.Stores (rdbmsKey dup useBinarySearch useSingleCompare) A) :
    t.keys.Nodup := by
  refine h.keys_sorted.imp fun {a b} hLt hSame => ?_
  subst hSame
  rcases hLt with hLt | ⟨-, hLt⟩
  · exact Nat.lt_irrefl _ hLt
  · exact Int.lt_irrefl _ hLt

variable (h : t.Stores (rdbmsKey dup useBinarySearch useSingleCompare) A)

include h

/-- A key whose value no other has: the search finds the key after it. -/
theorem Btree.Stores.findNext_alone {l r : List RdbmsKey} {x : RdbmsKey} (hKeys : t.keys = l ++ x :: r)
    (hAlone : ∀ y ∈ l ++ r, y.k ≠ x.k) :
    (gxBtree (rdbmsKey false useBinarySearch useSingleCompare)).step (.findNext x) t =
      (KeySet.answer r.head?, t) := by
  have hOther (y) (hy : y ∈ t.keys) (hk : y.k = x.k) : y = x := by
    rw [hKeys, List.mem_append, List.mem_cons] at hy
    rcases hy with hy | rfl | hy
    · exact absurd hk (hAlone y (List.mem_append_left r hy))
    · rfl
    · exact absurd hk (hAlone y (List.mem_append_right l hy))
  have hSorted : (keyButFor x.k useBinarySearch useSingleCompare).comparison.Sorted t.keys := by
    refine h.keys_sorted.imp_of_mem fun {a b} ha hb hLt => ?_
    simp only [KeyClass.comparison, keyButFor, decide_eq_true_eq]
    rcases hLt with hLt | ⟨hSame, hLt⟩
    · exact .inl hLt
    · right
      refine ⟨hSame.symm, fun hk => ?_, hLt⟩
      rw [hOther a ha (hSame.trans hk), hOther b hb hk] at hLt
      exact Int.lt_irrefl _ hLt
  rw [(comparesAs_keyButFor x).step_findNext]
  exact h.findNext (keyButFor_strictOrder _ _ _) hSorted hKeys

/-- Searches with a key are those for one key with the same value, which the index need not have. -/
theorem Btree.Stores.searches (x : RdbmsKey) : ∃ y : RdbmsKey, y.k = x.k ∧
    (gxBtree (rdbmsKey false useBinarySearch useSingleCompare)).step (.find x) t =
      (KeySet.answer (A.find y), t) ∧
    (gxBtree (rdbmsKey false useBinarySearch useSingleCompare)).step (.findNext x) t =
      (KeySet.answer (A.following y), t) := by
  have hK := rdbmsKey_strictOrder dup useBinarySearch useSingleCompare
  obtain ⟨y, hy, hFind, hNext⟩ := (rdbmsKey_tellsApart dup x).step_searches t
  refine ⟨y, (rdbmsKey_equal.mp hy).symm, ?_, ?_⟩
  · rw [hFind, h.find hK]
  · rw [hNext, h.following hK]

/-- The keys have different values. -/
theorem Btree.Stores.sorted_of_nodup (hNodup : (t.keys.map RdbmsKey.k).Nodup) :
    (rdbmsKey false useBinarySearch useSingleCompare).comparison.Sorted t.keys := by
  refine List.Pairwise.imp₂ (fun {a b} hLt hNe => ?_) h.keys_sorted (List.pairwise_map.mp hNodup)
  rw [rdbmsKey_lt_false]
  omega

end Walk

end DataReel
