import DataReel.Btree.OtherOrder
import DataReel.Btree.SmallOrder
import DataReel.Hog.InSyncRun
import DataReel.Table.RdbmsKeys

/-! # The order of index keys

Both classes of index keys have an `operator==`, an `operator>` and a `CompareKey`, and a setting that
makes keys with one name different by their addresses. `InfoHogKey` then asks `operator>` for a
greater name and a greater address, so that it does not order names and addresses which disagree.
-/

namespace DataReel

variable {n : Nat} {κ : Type}

/-! ## The operators of `InfoHogKey` -/

namespace InfoHogKey

variable (T : KeyType n)

/-- `operator==`; the setting is that of the key on the left. -/
def operatorEq (allowDupNames : Bool) (a b : InfoHogKey n) : Bool :=
  if !allowDupNames then T.equal a.objectName b.objectName
  else T.equal a.objectName b.objectName && decide (a.objectId = b.objectId)

/-- `operator>`. -/
def operatorGt (allowDupNames : Bool) (a b : InfoHogKey n) : Bool :=
  if !allowDupNames then T.greater a.objectName b.objectName
  else T.greater a.objectName b.objectName && decide (b.objectId < a.objectId)

def compareKey (allowDupNames : Bool) (a b : InfoHogKey n) : Int :=
  let rv :=
    if T.equal a.objectName b.objectName then 0
    else if T.greater a.objectName b.objectName then 1
    else -1
  if !allowDupNames then rv
  else if rv = 0 then if b.objectId < a.objectId then 1 else if a.objectId < b.objectId then -1 else rv
  else rv

end InfoHogKey

/-- `InfoHogKey` with `allow_dup_names`. -/
def KeyType.infoHogKey (T : KeyType n) (allowDupNames useBinarySearch useSingleCompare : Bool) :
    KeyClass (InfoHogKey n) where
  operatorGt := InfoHogKey.operatorGt T allowDupNames
  operatorEq := InfoHogKey.operatorEq T allowDupNames
  compareKey := InfoHogKey.compareKey T allowDupNames
  useBinarySearch := useBinarySearch
  useSingleCompare := useSingleCompare

theorem KeyType.infoHogKey_false (T : KeyType n) (useBinarySearch useSingleCompare : Bool) :
    T.infoHogKey false useBinarySearch useSingleCompare = T.keyClass useBinarySearch useSingleCompare :=
  rfl

/-! ## What an index expects of its keys -/

namespace KeyClass

variable (K : KeyClass κ)

/-- One of the three relations holds of two keys, and `CompareKey` tells which. -/
structure DecidesAt (a b : κ) : Prop where
  one : [K.operatorGt a b, K.operatorEq a b, K.operatorGt b a].count true = 1
  compareKey_pos : 0 < K.compareKey a b ↔ K.operatorGt a b = true
  compareKey_zero : K.compareKey a b = 0 ↔ K.operatorEq a b = true
  compareKey_neg : K.compareKey a b < 0 ↔ K.operatorGt b a = true

/-- A tree that insertions have filled: the searches find each inserted key and visit all of them
once in order. -/
structure Fills (calls : List (Call κ)) (t : Btree κ) : Prop where
  enumerates : Enumerates K t
  found : ∀ key flushdb, .insert key flushdb ∈ calls → ∃ x ∈ t.keys,
    K.operatorEq key.dbKey x = true ∧ ((gxBtree K).step (.find key.dbKey) t).1 = .found x
  inserted : ∀ x ∈ t.keys, ∃ key flushdb, .insert key flushdb ∈ calls ∧ key.dbKey = x

/-- The operators are an order of keys that tells them apart by `same`, and an index goes by it. -/
structure OrdersKeys (same : κ → κ → Prop) : Prop where
  order : K.StrictOrder
  decides : ∀ a b, K.DecidesAt a b
  same : ∀ a b, K.operatorEq a b = true ↔ same a b
  /-- Splits that leave a half empty need an order below 4. -/
  fills : ∀ {L : FileLayout} {order keySize numTrees : Int} {allocsLeft : Option Nat} {t : Btree κ},
    Btree.create L order keySize numTrees allocsLeft = .ok () t →
    ∀ {calls : List (Call κ)}, (∀ c ∈ calls, c.IsInsert) → (gxBtree K).Along (NoAllocFailure K) calls t →
    4 ≤ order ∨ (gxBtree K).Along (FilledSplits K) calls t → K.Fills calls ((gxBtree K).run calls t).2

end KeyClass

/-! ## Inserted keys -/

namespace KeySet

variable {C : Comparison κ} {hC : C.Strict}

theorem insertKey_mem_iff {A : KeySet C} {k x : κ} :
    x ∈ (insertKey hC k A).2.keys ↔ x ∈ A.keys ∨ (x = k ∧ A.find k = none) := by
  rw [insertKey]
  cases h : A.find k with
  | none =>
    dsimp only
    rw [mem_insert_iff hC A k h]
    tauto
  | some y => simp

theorem insertKey_find (hC : C.Strict) (A : KeySet C) (k : κ) : ∃ x ∈ (insertKey hC k A).2.keys, C.eqv k x = true := by
  cases h : A.find k with
  | none => exact ⟨k, insertKey_mem_iff.mpr (.inr ⟨rfl, h⟩), hC.eqv_refl k⟩
  | some x =>
    rw [find] at h
    exact ⟨x, insertKey_mem_iff.mpr (.inl (List.mem_of_find?_eq_some h)), List.find?_some h⟩

/-- What insertions leave in a set. -/
theorem inserts_keys (hC : C.Strict) {calls : List (Call κ)} (hCalls : ∀ c ∈ calls, c.IsInsert) (A : KeySet C) :
    (∀ x ∈ A.keys, x ∈ ((machine hC).run calls A).2.keys) ∧
      (∀ key flushdb, .insert key flushdb ∈ calls →
        ∃ x ∈ ((machine hC).run calls A).2.keys, C.eqv key.dbKey x = true) ∧
      ∀ x ∈ ((machine hC).run calls A).2.keys,
        x ∈ A.keys ∨ ∃ key flushdb, .insert key flushdb ∈ calls ∧ key.dbKey = x := by
  induction calls generalizing A with
  | nil =>
    refine ⟨fun x hx => hx, ?_, fun x hx => .inl hx⟩
    intro key flushdb h
    cases h
  | cons c calls ih =>
    have hFirst := hCalls c List.mem_cons_self
    cases c with
    | insert k f =>
      obtain ⟨hKept, hFound, hInserted⟩ :=
        ih (fun c hc => hCalls c (List.mem_cons_of_mem _ hc)) (insertKey hC k.dbKey A).2
      refine ⟨fun x hx => hKept x (insertKey_mem_iff.mpr (.inl hx)), ?_, ?_⟩
      · intro key flushdb h
        rcases List.mem_cons.mp h with h | h
        · cases h
          obtain ⟨x, hx, hEq⟩ := insertKey_find hC A k.dbKey
          exact ⟨x, hKept x hx, hEq⟩
        · exact hFound key flushdb h
      · intro x hx
        rcases hInserted x hx with hx | ⟨key, flushdb, h, hEq⟩
        · rcases insertKey_mem_iff.mp hx with hx | ⟨rfl, -⟩
          · exact .inl hx
          · exact .inr ⟨k, f, List.mem_cons_self, rfl⟩
        · exact .inr ⟨key, flushdb, List.mem_cons_of_mem _ h, hEq⟩
    | _ => exact absurd hFirst id

end KeySet

namespace KeyClass

variable {K : KeyClass κ}

theorem StrictOrder.decidesAt (hK : K.StrictOrder) (a b : κ) : K.DecidesAt a b := by
  have hPos := hK.compareKey_pos a b
  have hZero := hK.compareKey_zero a b
  have hOne : [K.operatorGt a b, K.operatorEq a b, K.operatorGt b a].count true = 1 := by
    have hSymm : K.operatorEq a b = K.operatorEq b a :=
      Bool.eq_iff_iff.mpr ⟨hK.strict.eqv_symm, hK.strict.eqv_symm⟩
    rcases hK.strict.total b a with h | h | h
    · have hEq : K.operatorEq b a = false := hK.strict.lt_not_eqv h
      have hLt : K.operatorGt b a = false := hK.strict.lt_not_gt h
      change K.operatorGt a b = true at h
      rw [h, hSymm, hEq, hLt]
      rfl
    · have hGt : K.operatorGt a b = false := hK.strict.eqv_not_lt h
      have hLt : K.operatorGt b a = false := hK.strict.eqv_not_gt h
      change K.operatorEq b a = true at h
      rw [hGt, hSymm, h, hLt]
      rfl
    · have hEq : K.operatorEq a b = false := hK.strict.lt_not_eqv h
      have hGt : K.operatorGt a b = false := hK.strict.lt_not_gt h
      change K.operatorGt b a = true at h
      rw [hGt, hEq, h]
      rfl
  refine ⟨hOne, hPos, hZero, ?_⟩
  have hNeg : K.compareKey a b < 0 ↔ ¬ 0 < K.compareKey a b ∧ ¬ K.compareKey a b = 0 := by omega
  rw [hNeg, hPos, hZero]
  revert hOne
  cases K.operatorGt a b <;> cases K.operatorEq a b <;> cases K.operatorGt b a <;> simp

/-! ## Trees of an order that splits well -/

theorem initBtreeCreate_free {t t' : Btree κ} {a : FAU} {n : Int} (hList : t.f.freeList = [])
    (hRun : initBtreeCreate a n t = .ok () t') : t'.f.freeList = [] := by
  obtain ⟨-, rfl⟩ := initBtreeCreate_run hRun
  change t.f.alloc.2.freeList = []
  rcases t.f.alloc_cases with h | ⟨a, rest, hCons, -⟩ | ⟨-, -, h⟩
  · rw [h]
    exact hList
  · rw [hList] at hCons
    cases hCons
  · rw [h]
    exact hList

theorem createTrees_free {numTrees : Int} {n : Nat} {offset : FAU} {t t' : Btree κ}
    (hList : t.f.freeList = []) (hRun : createTrees numTrees n offset t = .ok () t') :
    t'.f.freeList = [] := by
  induction n generalizing t offset with
  | zero =>
    cases hRun
    exact hList
  | succ n ih =>
    obtain ⟨_, u, hTree, hRest⟩ := Exec.of_bind_ok hRun
    exact ih (initBtreeCreate_free hList hTree) hRest

theorem initBtreeOpen_free {a : FAU} {t t' : Btree κ} (hList : t.f.freeList = [])
    (hRun : initBtreeOpen a t = .ok () t') : t'.f.freeList = [] := by
  rw [initBtreeOpen, Exec.bind_ok (Exec.get_run _), Exec.bind_ok (Exec.modify_run _ _)] at hRun
  obtain ⟨_, u, hRead, hCheck⟩ := Exec.of_bind_ok hRun
  rw [Exec.bind_ok (Exec.get_run _)] at hCheck
  rw [readBtreeHeader] at hRead
  split at hRead
  · cases hRead
  · cases hRead
    obtain rfl := check_run hCheck
    exact hList

theorem Btree.create_freeKept {L : FileLayout} {order keySize numTrees : Int} {allocsLeft : Option Nat}
    {t : Btree κ} (hCreate : Btree.create L order keySize numTrees allocsLeft = .ok () t) : t.FreeKept := by
  have hList : t.f.freeList = [] := by
    rw [Btree.create] at hCreate
    generalize (if numTrees ≤ 0 then 1 else numTrees) = num at hCreate
    obtain ⟨_, u, hTrees, hRest⟩ := Exec.of_bind_ok hCreate
    have hu : u.f.freeList = [] := createTrees_free rfl hTrees
    split at hRest
    · exact initBtreeOpen_free hu hRest
    · cases hRest
      exact hu
  intro a ha
  rw [hList] at ha
  cases ha

theorem filledPlaces_of_order {m : Nat} {order : Int} (h : 4 ≤ order) (places : List (BtreeNode κ × Int)) :
    filledPlaces m order places = true := by
  induction places with
  | nil => rfl
  | cons place places ih =>
    simp [filledPlaces, h, ih]

theorem along_filledSplits {L : FileLayout} {order keySize numTrees : Int} {allocsLeft : Option Nat}
    {t : Btree κ} (hCreate : Btree.create L order keySize numTrees allocsLeft = .ok () t) (h : 4 ≤ order)
    (calls : List (Call κ)) : (gxBtree K).Along (FilledSplits K) calls t := by
  obtain ⟨roots, hT, -⟩ := Btree.create_connected hCreate
  apply Machine.along_of_invariant (I := fun t => t.FreeKept ∧ 4 ≤ t.header.nodeOrder) (P := fun _ _ => True)
  · rintro c t ⟨hFree, hOrder⟩ -
    obtain ⟨hFixed, hNext⟩ := call_fixed K c hFree
    refine ⟨?_, hNext, hFixed.nodeOrder ▸ hOrder⟩
    cases c with
    | insert key flushdb => exact filledPlaces_of_order hOrder _
    | _ => trivial
  · exact ⟨Btree.create_freeKept hCreate, hT.nodeOrder ▸ h⟩
  · exact Machine.along_of_forall (fun _ _ => trivial) t

theorem StrictOrder.fills (hK : K.StrictOrder) {L : FileLayout} {order keySize numTrees : Int}
    {allocsLeft : Option Nat} {t : Btree κ}
    (hCreate : Btree.create L order keySize numTrees allocsLeft = .ok () t) {calls : List (Call κ)}
    (hInserts : ∀ c ∈ calls, c.IsInsert) (hAlloc : (gxBtree K).Along (NoAllocFailure K) calls t)
    (hSplits : 4 ≤ order ∨ (gxBtree K).Along (FilledSplits K) calls t) :
    K.Fills calls ((gxBtree K).run calls t).2 := by
  have hFilled : (gxBtree K).Along (FilledSplits K) calls t :=
    hSplits.elim (along_filledSplits hCreate · calls) id
  have hCalls : (gxBtree K).Along (FilledInsert K) calls t :=
    (((Machine.along_of_forall hInserts t).and hAlloc).and hFilled).mono
      fun _ _ _ h => ⟨h.1.1, h.1.2, h.2⟩
  obtain ⟨roots, hT, -⟩ := Btree.create_connected hCreate
  obtain ⟨O, hW, hKeys, -⟩ := hT.wellFormed (C := K.comparison) (n := t.slotOrder) (Int.le_max_left _ _) 1
  have hStart : RepresentsAt O t (KeySet.empty : KeySet K.comparison) := ⟨hW, hKeys⟩
  obtain ⟨-, hEnd⟩ := (inserts_simulates hK).run hStart hCalls
  obtain ⟨-, hFound, hInserted⟩ := KeySet.inserts_keys hK.strict hInserts KeySet.empty
  have hSame : ((gxBtree K).run calls t).2.keys =
      ((KeySet.machine hK.strict).run calls KeySet.empty).2.keys := hEnd.keys
  constructor
  · exact hEnd.enumerates hK
  · intro key flushdb h
    obtain ⟨x, hx, hEq⟩ := hFound key flushdb h
    refine ⟨x, hSame ▸ hx, hEq, ?_⟩
    rw [hEnd.find hK, (KeySet.mem_find_iff hK.strict _ _ _).mpr ⟨hx, hEq⟩, KeySet.answer]
  · intro x hx
    rw [hSame] at hx
    exact (hInserted x hx).resolve_left List.not_mem_nil

theorem StrictOrder.ordersKeys (hK : K.StrictOrder) {same : κ → κ → Prop}
    (hSame : ∀ a b, K.operatorEq a b = true ↔ same a b) : K.OrdersKeys same := by
  constructor
  · exact hK
  · exact hK.decidesAt
  · exact hSame
  · intro L order keySize numTrees allocsLeft t hCreate calls
    exact hK.fills hCreate

end KeyClass

/-! ## The two classes -/

variable {T : KeyType n} {useBinarySearch useSingleCompare : Bool}

/-- Keys in order by their names and then by their addresses. -/
def KeyType.nameThenAddress (T : KeyType n) (useBinarySearch useSingleCompare : Bool) :
    KeyClass (InfoHogKey n) where
  operatorGt a b := T.greater a.objectName b.objectName ||
    (T.equal a.objectName b.objectName && decide (b.objectId < a.objectId))
  operatorEq a b := T.equal a.objectName b.objectName && decide (a.objectId = b.objectId)
  compareKey := InfoHogKey.compareKey T true
  useBinarySearch := useBinarySearch
  useSingleCompare := useSingleCompare

theorem KeyType.nameThenAddress_strictOrder (hT : T.comparison.Strict)
    (useBinarySearch useSingleCompare : Bool) :
    (T.nameThenAddress useBinarySearch useSingleCompare).StrictOrder := by
  have hEqv {a b c : Buffer n} (h : T.equal a b = true) (h' : T.equal b c = true) : T.equal a c = true :=
    hT.eqv_trans h h'
  have hLtEq {a b c : Buffer n} (h : T.greater b a = true) (h' : T.equal b c = true) :
      T.greater c a = true := hT.lt_of_lt_eqv h h'
  have hEqLt {a b c : Buffer n} (h : T.equal a b = true) (h' : T.greater c b = true) :
      T.greater c a = true := hT.lt_of_eqv_lt h h'
  have hGtEq {a b : Buffer n} (h : T.greater b a = true) : T.equal b a = false := hT.gt_not_eqv h
  have hLtEqv {a b : Buffer n} (h : T.greater b a = true) : T.equal a b = false := hT.lt_not_eqv h
  have hSymm {a b : Buffer n} (h : T.equal a b = true) : T.equal b a = true := hT.eqv_symm h
  have hTrans {a b c : Buffer n} (h : T.greater b a = true) (h' : T.greater c b = true) :
      T.greater c a = true := hT.lt_trans h h'
  have hNot {a b : Buffer n} (h : T.greater b a = true) : T.greater a b = false := hT.lt_not_gt h
  have hSame {a b : Buffer n} (h : T.equal a b = true) : T.greater a b = false := hT.eqv_not_gt h
  have hTotal (a b : Buffer n) : T.greater b a = true ∨ T.equal a b = true ∨ T.greater a b = true :=
    hT.total a b
  constructor
  · constructor <;> simp only [KeyClass.comparison, KeyType.nameThenAddress]
    all_goals grind
  · intro a b
    simp only [KeyType.nameThenAddress, InfoHogKey.compareKey]
    grind
  · intro a b
    simp only [KeyType.nameThenAddress, InfoHogKey.compareKey]
    grind

theorem KeyType.infoHogKey_searchesAs (T : KeyType n) (useBinarySearch : Bool) :
    SearchesAs (T.infoHogKey true useBinarySearch true) (T.nameThenAddress useBinarySearch true) :=
  SearchesAs.of_comparesAs fun _ => ⟨rfl, fun _ => rfl, fun _ => rfl⟩

/-- Two keys are in order exactly if their addresses are ordered as their names. -/
theorem infoHogKey_decidesAt_iff (hT : T.comparison.Strict) (a b : InfoHogKey n) :
    (T.infoHogKey true useBinarySearch useSingleCompare).DecidesAt a b ↔
      T.greater a.objectName b.objectName = decide (b.objectId < a.objectId) ∧
      T.equal a.objectName b.objectName = decide (a.objectId = b.objectId) := by
  have hTotal : T.greater a.objectName b.objectName = true ∨ T.equal b.objectName a.objectName = true ∨
      T.greater b.objectName a.objectName = true := hT.total b.objectName a.objectName
  have hSymm : T.equal b.objectName a.objectName = T.equal a.objectName b.objectName :=
    Bool.eq_iff_iff.mpr ⟨hT.eqv_symm, hT.eqv_symm⟩
  have hGt (h : T.greater a.objectName b.objectName = true) : T.equal b.objectName a.objectName = false ∧
      T.greater b.objectName a.objectName = false := ⟨hT.lt_not_eqv h, hT.lt_not_gt h⟩
  have hEq (h : T.equal a.objectName b.objectName = true) : T.greater b.objectName a.objectName = false ∧
      T.greater a.objectName b.objectName = false := ⟨hT.eqv_not_lt h, hT.eqv_not_gt h⟩
  have hLt (h : T.greater b.objectName a.objectName = true) : T.equal a.objectName b.objectName = false :=
    hT.lt_not_eqv h
  rw [hSymm] at hTotal hGt
  constructor
  · rintro ⟨hOne, -, -, -⟩
    simp only [KeyType.infoHogKey, InfoHogKey.operatorGt, InfoHogKey.operatorEq] at hOne
    rcases Int.lt_trichotomy a.objectId b.objectId with hId | hId | hId <;> grind
  · rintro ⟨hGreater, hEqual⟩
    constructor <;> simp only [KeyType.infoHogKey, InfoHogKey.operatorGt, InfoHogKey.operatorEq,
      InfoHogKey.compareKey]
    all_goals
      rcases Int.lt_trichotomy a.objectId b.objectId with hId | hId | hId <;> grind

/-- The names, and with duplicate names the addresses, tell keys apart. -/
def InfoHogKey.Same (T : KeyType n) (allowDupNames : Bool) (a b : InfoHogKey n) : Prop :=
  T.equal a.objectName b.objectName = true ∧ (allowDupNames = true → a.objectId = b.objectId)

def RdbmsKey.Same (allowDupNames : Bool) (a b : RdbmsKey) : Prop :=
  a.k = b.k ∧ (allowDupNames = true → a.kid = b.kid)

theorem rdbmsKey_ordersKeys (dup useBinarySearch useSingleCompare : Bool) :
    (rdbmsKey dup useBinarySearch useSingleCompare).OrdersKeys (RdbmsKey.Same dup) := by
  apply (rdbmsKey_strictOrder dup useBinarySearch useSingleCompare).ordersKeys
  intro a b
  cases dup <;> simp [rdbmsKey, RdbmsKey.operatorEq, RdbmsKey.Same]

theorem infoHogKey_ordersKeys_iff (hT : T.comparison.Strict) (dup useBinarySearch useSingleCompare : Bool) :
    (T.infoHogKey dup useBinarySearch useSingleCompare).OrdersKeys (InfoHogKey.Same T dup) ↔ dup = false := by
  constructor
  · intro h
    cases dup with
    | false => rfl
    | true =>
      -- Two addresses under one name are neither equal nor in order.
      have hOne := (h.decides ⟨⟨List.replicate n 0, by simp⟩, 1, 0⟩ ⟨⟨List.replicate n 0, by simp⟩, 2, 0⟩)
      have hAlike := ((infoHogKey_decidesAt_iff hT _ _).mp hOne).2
      have hSelf : T.equal _ _ = true := hT.eqv_refl ⟨List.replicate n 0, by simp⟩
      rw [hSelf] at hAlike
      exact absurd hAlike (by simp)
  · rintro rfl
    rw [KeyType.infoHogKey_false]
    apply (KeyType.keyClass_strictOrder hT useBinarySearch useSingleCompare).ordersKeys
    intro a b
    simp [KeyType.keyClass, InfoHogKey.Same]

/-- The keys of a table are in order whatever the settings, those of objects exactly if duplicate names
are not allowed; then only names and addresses that agree are in order. A build that calls `CompareKey`
in its trees keeps them in order all the same. -/
theorem indexKeys_ordered_iff (hT : T.comparison.Strict) (dup useBinarySearch useSingleCompare : Bool) :
    ((T.infoHogKey dup useBinarySearch useSingleCompare).OrdersKeys (InfoHogKey.Same T dup) ↔
        dup = false) ∧
      (rdbmsKey dup useBinarySearch useSingleCompare).OrdersKeys (RdbmsKey.Same dup) ∧
      (∀ a b, (T.infoHogKey true useBinarySearch useSingleCompare).DecidesAt a b ↔
        T.greater a.objectName b.objectName = decide (b.objectId < a.objectId) ∧
        T.equal a.objectName b.objectName = decide (a.objectId = b.objectId)) ∧
      ∃ K : KeyClass (InfoHogKey n), K.OrdersKeys (InfoHogKey.Same T true) ∧
        gxBtree (T.infoHogKey true useBinarySearch true) = gxBtree K := by
  refine ⟨infoHogKey_ordersKeys_iff hT dup useBinarySearch useSingleCompare,
    rdbmsKey_ordersKeys dup useBinarySearch useSingleCompare, infoHogKey_decidesAt_iff hT,
    T.nameThenAddress useBinarySearch true, ?_, (T.infoHogKey_searchesAs useBinarySearch).gxBtree_eq⟩
  apply (KeyType.nameThenAddress_strictOrder hT useBinarySearch true).ordersKeys
  intro a b
  simp [KeyType.nameThenAddress, InfoHogKey.Same]

theorem indexKeys_ordered_iff_bytes :
    ¬ (byteKey.infoHogKey true true false).DecidesAt ⟨⟨[1], rfl⟩, 2, 0⟩ ⟨⟨[2], rfl⟩, 1, 0⟩ ∧
      (byteKey.infoHogKey true true false).DecidesAt ⟨⟨[1], rfl⟩, 1, 0⟩ ⟨⟨[2], rfl⟩, 2, 0⟩ := by
  have h := (indexKeys_ordered_iff byteKey_strict true true false).2.2.1
  exact ⟨mt (h _ _).mp (by decide), (h _ _).mpr (by decide)⟩

/-- Two keys with a greater name at a lower address: a tree of a build that calls the operators has the
greater name first and does not find the other. -/
theorem infoHogKey_loses :
    let K := byteKey.infoHogKey true true false
    let calls : List (Call (InfoHogKey 1)) :=
      [.insert ⟨0, ⟨⟨[1], rfl⟩, 2, 0⟩⟩ false, .insert ⟨0, ⟨⟨[2], rfl⟩, 1, 0⟩⟩ false]
    let t := ((gxBtree K).run calls byteTree).2
    [K.operatorGt ⟨⟨[1], rfl⟩, 2, 0⟩ ⟨⟨[2], rfl⟩, 1, 0⟩, K.operatorEq ⟨⟨[1], rfl⟩, 2, 0⟩ ⟨⟨[2], rfl⟩, 1, 0⟩,
        K.operatorGt ⟨⟨[2], rfl⟩, 1, 0⟩ ⟨⟨[1], rfl⟩, 2, 0⟩] = [false, false, false] ∧
      ((gxBtree K).run calls byteTree).1 = [.done, .done] ∧
      t.keys = [⟨⟨[2], rfl⟩, 1, 0⟩, ⟨⟨[1], rfl⟩, 2, 0⟩] ∧
      ((gxBtree K).step (.find ⟨⟨[1], rfl⟩, 2, 0⟩) t).1 = .zero ∧ ¬ K.Fills calls t := by
  intro K calls t
  have hFind : ((gxBtree K).step (.find ⟨⟨[1], rfl⟩, 2, 0⟩) t).1 = .zero := by decide +kernel
  refine ⟨by decide, by decide +kernel, by decide +kernel, hFind, ?_⟩
  intro h
  obtain ⟨x, -, -, hFound⟩ := h.found ⟨0, ⟨⟨[1], rfl⟩, 2, 0⟩⟩ false (by simp [calls])
  rw [hFind] at hFound
  cases hFound

end DataReel
