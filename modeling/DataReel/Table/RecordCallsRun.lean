import DataReel.Btree.Hints
import DataReel.Btree.OtherOrder
import DataReel.Table.RecordFiles
import DataReel.Table.SortOrder

/-! # Runs of calls on a table

A call that finds a record finds one with a key field of the same value, whatever the checksums of other
values are, and a call that adds, changes or deletes a record does so in the data file and in each index.
-/

namespace DataReel

open Record (Alike OfTable)

theorem Btree.Stores.partialFind {κ : Type} {K : KeyClass κ} {t : Btree κ} {A : KeySet K.comparison}
    (h : t.Stores K A) (hK : K.StrictOrder) (key : κ) :
    (searched (DataReel.partialFind K key) t).1 = KeySet.answer (A.atLeast key) := by
  obtain ⟨O, hR⟩ := h.represents
  have hW := hR.wellFormed
  have hHeight := hW.height_le
  have hMax : t.height + 1 ≤ gxBtreeMaxNodeReads := by
    rw [gxBtreeMaxNodeReads]
    omega
  have hRun := searched_of_answers (partialFind_run hK hW hMax key)
  rw [hR.keySet_eq] at hRun
  rw [hRun]

namespace RecordTable

variable (M : RecordTable)

/-- A key field has the same value in two records. -/
def Shares (field : Nat) (r s : Record) : Prop := Record.SameKey M.types M.compareCase field r s

/-- A record has the value of a key field. -/
def Taken (R : FAU → Option Record) (field : Nat) (r : Record) : Prop := ∃ a s, R a = some s ∧ M.Shares field r s

/-- What a search by some fields finds, one after the other: the address of a record or 0. -/
def FindsIn (R : FAU → Option Record) (r : Record) (a : FAU) : List Nat → Prop
  | [] => a = 0
  | field :: fields => (∃ s, R a = some s ∧ M.Shares field r s) ∨ (¬ M.Taken R field r ∧ FindsIn R r a fields)

/-- The files of a table hold the records. -/
structure InSync (R : FAU → Option Record) (F : TableFiles) : Prop where
  usingIndex : F.usingIndex = true
  data : M.InData R F.data
  keyed : ∀ a r, R a = some r → M.Keyed r
  indexes : M.AllIndexes R F

variable {M} {R : FAU → Option Record} {F : TableFiles} {t : Btree RdbmsKey} {r s : Record} {field i : Nat}
  {a : FAU} {key : RdbmsKey}

theorem InSync.setDataError (h : M.InSync R F) (err : TableError) : M.InSync R (F.setDataError err) :=
  ⟨h.usingIndex, h.data, h.keyed, h.indexes⟩

/-! ## The index of a field -/

theorem Ready.fieldIndex_eq (hM : M.Ready) (hField : field ∈ M.fields) :
    ∃ i, M.fieldIndex field = some i ∧ M.fields[i]? = some field := by
  rw [fieldIndex]
  by_cases hAll : M.primaryKey = -1
  · have hNone : ¬ M.HasSecKeys := by
      have hTrees := hM.numTrees
      rw [if_pos hAll] at hTrees
      rintro ⟨-, hMore⟩
      omega
    rw [fields, if_neg hNone, List.mem_singleton] at hField
    have hKey : M.keyField = 2 ^ 64 - 1 := by
      rw [Table.keyField, if_pos hAll]
      rfl
    rw [if_pos hAll, if_pos (hField.trans hKey)]
    exact ⟨0, rfl, by rw [fields, List.getElem?_cons_zero, hField]⟩
  · have hColumn := hM.columns hAll field hField
    have hMax := hM.table.wellFormed.numFields_max
    have hKey : M.keyField = fieldAt M.primaryKey := by rw [Table.keyField, if_neg hAll, fieldAt]
    have hNe : field ≠ 2 ^ 64 - 1 := by
      rw [recordMaxFields] at hMax
      omega
    rw [if_neg hAll, if_neg hNe]
    by_cases hFirst : field = fieldAt M.primaryKey
    · rw [if_pos hFirst]
      exact ⟨0, rfl, by rw [fields, List.getElem?_cons_zero, hKey, hFirst]⟩
    · have hMem := (List.mem_cons.mp hField).resolve_left fun hEq => hFirst (hEq.trans hKey)
      have hSec : M.HasSecKeys := by
        by_contra hNone
        rw [if_neg hNone] at hMem
        cases hMem
      rw [if_pos hSec] at hMem
      have hTrees : (M.numTrees - 1).toNat = M.secKeyFields.length := by
        rw [hM.numTrees, if_neg hAll]
        omega
      rw [if_neg hFirst, if_pos hSec, hTrees, List.take_length]
      obtain ⟨number, hNumber, hAt⟩ := List.mem_map.mp hMem
      have hFound := List.findIdx?_eq_some_of_exists (p := fun number => decide (field = fieldAt number))
        ⟨number, hNumber, decide_eq_true hAt.symm⟩
      obtain ⟨hIn, hIndex, -⟩ := List.findIdx?_eq_some_iff_getElem.mp hFound
      rw [hFound]
      refine ⟨_, rfl, ?_⟩
      rw [fields, if_pos hSec, List.getElem?_cons_succ, List.getElem?_map, List.getElem?_eq_getElem hIn,
        Option.map_some, ← of_decide_eq_true hIndex]

theorem AllIndexes.getElem? (h : M.AllIndexes R F) (hi : M.fields[i]? = some field) :
    ∃ t, F.indexes[i]? = some t ∧ M.Indexes R field t := by
  obtain ⟨hLength, hAt⟩ := List.forall₂_iff_get.mp h
  obtain ⟨hIn, hField⟩ := List.getElem?_eq_some_iff.mp hi
  have hIn' : i < F.indexes.length := hLength ▸ hIn
  have hHere : M.Indexes R M.fields[i] F.indexes[i] := hAt i hIn hIn'
  rw [hField] at hHere
  exact ⟨_, List.getElem?_eq_getElem hIn', hHere⟩

/-! ## Records that are found -/

theorem keyImages_of_keyValue (h : M.keyValue field r ≠ 0) :
    ∃ images, r.keyImages M.types M.compareCase field = some images := by
  rw [keyValue] at h
  split at h
  · exact absurd rfl h
  · exact ⟨_, ‹_›⟩

/-- A record that was read is compared with the one that is searched for. -/
theorem keyFieldsMatch_read (hM : M.Ready) (hr : M.Sound r) (hKey : M.keyValue field r ≠ 0)
    (hField : field ∈ M.fields) {r' : Record} (hr' : M.Sound r') (hs : M.Sound s)
    (hAlike : Alike M.types r' s) (hValue : M.keyValue field s = M.keyValue field r) :
    ∃ v, r'.keyFieldsMatch M.types r field M.compareCase = some v ∧ (v = true ↔ M.Shares field r s) := by
  have hValue' := (hM.keyValue_alike hField hr' hs hAlike).trans hValue
  obtain ⟨images, hImages⟩ := keyImages_of_keyValue hKey
  obtain ⟨images', hImages'⟩ := keyImages_of_keyValue (hValue'.trans_ne hKey)
  have hColumn : field = 2 ^ 64 - 1 ∨ field < r'.numFields := by
    rw [← hr'.ofTable.definition.numFields]
    exact hM.column hField
  obtain ⟨v, hRun, hv⟩ := Record.keyFieldsMatch_eq (hr'.numFields hr) (hr'.dbRecord_ne hM) (hr.dbRecord_ne hM)
    hColumn hImages' hImages
  refine ⟨v, hRun, hv.trans ⟨fun hSame => ?_, fun hSame => ?_⟩⟩
  · exact (hSame.symm (hr'.numFields hr)).trans (Record.SameKey.of_alike hAlike hColumn) (hr.numFields hr')
  · refine Record.SameKey.trans (Record.SameKey.of_alike hAlike hColumn) ?_ (hr'.numFields hs)
    exact hSame.symm (hr.numFields hs)

/-- What a search by one field finds: the address of a record with the same value of the field, or 0. -/
def FindsBy (M : RecordTable) (R : FAU → Option Record) (field : Nat) (r : Record) (a : FAU) : Prop :=
  (∃ s, R a = some s ∧ M.Shares field r s) ∨ (¬ M.Taken R field r ∧ a = 0)

theorem not_taken_of_keyValue (h : M.InData R F.data) (hr : M.Sound r)
    (hNone : ∀ a s, R a = some s → M.keyValue field r ≠ M.keyValue field s) : ¬ M.Taken R field r := by
  rintro ⟨a, s, hRecord, hShares⟩
  exact hNone a s hRecord (keyValue_of_same hr (h.sound a s hRecord) hShares)

section Find

variable (hM : M.Ready) (h : M.InSync R F) (position : Int) (hr : M.Sound r) (hKey : M.keyValue field r ≠ 0)
  (hField : field ∈ M.fields)

include hM h hr hKey hField

/-- The record of a key is read and compared. -/
theorem readAt_compared {found : Record} (hRecord : R a = some s)
    (hValue : M.keyValue field s = M.keyValue field r) (hFound : found.WellFormed M.types)
    (hOf : OfTable M.created.2 found) :
    ∃ found' v, M.readAt position found a F = some (.noError, found', F.setDataError .noError) ∧
      M.Sound found' ∧ found'.keyFieldsMatch M.types r field M.compareCase = some v ∧
      (v = true ↔ M.Shares field r s) := by
  obtain ⟨found', hRead, hAlike, hSound⟩ := h.data.readAt_eq hM position hRecord hFound hOf
  obtain ⟨v, hMatch, hv⟩ := keyFieldsMatch_read hM hr hKey hField hSound (h.data.sound a s hRecord) hAlike hValue
  exact ⟨found', v, hRead, hSound, hMatch, hv⟩

/-- Where values have one key each, the record with the key is compared. -/
theorem findByKey_single (hDup : M.dup = false) (hIndex : F.indexes[i]? = some t) (hKeys : M.Indexes R field t) :
    ∃ a err, M.findByKey position r field i F = some ⟨a, r, F.setDataError err⟩ ∧ M.FindsBy R field r a := by
  obtain ⟨A, hStores, hMem⟩ := hKeys
  have hC := M.keyClass_strictOrder.strict
  have hFind := hStores.find M.keyClass_strictOrder ⟨M.keyValue field r, M.tableId, 0⟩
  have hRun : M.findKey i ⟨M.keyValue field r, M.tableId, 0⟩ F = some (A.find ⟨M.keyValue field r, M.tableId, 0⟩) := by
    rw [findKey, hIndex, Option.bind_eq_bind, Option.bind_some, hFind]
    cases A.find ⟨M.keyValue field r, M.tableId, 0⟩ <;> rfl
  cases hFound : A.find ⟨M.keyValue field r, M.tableId, 0⟩ with
  | none =>
    refine ⟨0, F.dataError, ?_, .inr ⟨not_taken_of_keyValue h.data hr fun a s hRecord hValue => ?_, rfl⟩⟩
    · simp only [findByKey, hr.createKey hM, hKey, hDup, hRun, hFound, Option.bind_eq_bind, Option.bind_some,
        if_false, Bool.false_eq_true]
      rfl
    · have hNot := (A.find_eq_none_iff _).mp hFound _ ((hMem _).mpr ⟨a, s, hRecord, rfl⟩)
      rw [keyClass_eqv_iff.mpr ⟨hValue, fun hTrue => absurd hTrue (by rw [hDup]; exact Bool.false_ne_true)⟩] at hNot
      cases hNot
  | some key =>
    obtain ⟨hIn, hEq⟩ := (A.mem_find_iff hC _ _).mp hFound
    obtain ⟨a, s, hRecord, rfl⟩ := (hMem key).mp hIn
    have hValue : M.keyValue field s = M.keyValue field r := (keyClass_eqv_iff.mp hEq).1.symm
    obtain ⟨found, v, hRead, -, hMatch, hv⟩ := readAt_compared hM h position hr hKey hField hRecord hValue
      hM.table.wellFormed (OfTable.refl _)
    have hStart : M.findByKey position r field i F = if v then some ⟨a, r, F.setDataError .noError⟩
        else some ⟨0, r, F.setDataError .recordNotFound⟩ := by
      simp only [findByKey, hr.createKey hM, hKey, hDup, hRun, hFound, keyAt, hRead, hMatch, Option.bind_eq_bind,
        Option.bind_some, if_false, Bool.false_eq_true]
      rfl
    cases v with
    | true => exact ⟨a, .noError, hStart, .inl ⟨s, hRecord, hv.mp rfl⟩⟩
    | false =>
      refine ⟨0, .recordNotFound, hStart, .inr ⟨?_, rfl⟩⟩
      rintro ⟨b, s', hRecord', hShares⟩
      have hValue' := keyValue_of_same hr (h.data.sound b s' hRecord') hShares
      have hSame := Comparison.Sorted.eq_of_eqv hC A.sorted hIn ((hMem _).mpr ⟨b, s', hRecord', rfl⟩)
        (keyClass_eqv_iff.mpr ⟨hValue.trans hValue', fun hTrue =>
          absurd hTrue (by rw [hDup]; exact Bool.false_ne_true)⟩)
      obtain rfl : a = b := congrArg RdbmsKey.kid hSame
      obtain rfl := Option.some.inj (hRecord.symm.trans hRecord')
      exact Bool.false_ne_true (hv.mpr hShares)

section Dup

variable {A : KeySet M.keyClass.comparison} {l rest : List RdbmsKey}

omit hM hKey hField in
theorem not_taken_of_passed (hMem : ∀ key, key ∈ A.keys ↔ ∃ a s, R a = some s ∧ key = M.keyAt field a s)
    (hKeys : A.keys = l ++ rest)
    (hPassed : ∀ a s, R a = some s → M.keyAt field a s ∈ l → ¬ M.Shares field r s)
    (hRest : ∀ x ∈ rest, x.k ≠ M.keyValue field r) : ¬ M.Taken R field r := by
  rintro ⟨a, s, hRecord, hShares⟩
  have hIn : M.keyAt field a s ∈ A.keys := (hMem _).mpr ⟨a, s, hRecord, rfl⟩
  rw [hKeys, List.mem_append] at hIn
  rcases hIn with hIn | hIn
  · exact hPassed a s hRecord hIn hShares
  · exact hRest _ hIn (keyValue_of_same hr (h.data.sound a s hRecord) hShares).symm

/-- A turn of the loop ends it with what is found, or goes on to the next key. -/
theorem dupTurn_run (hStores : t.Stores M.keyClass A)
    (hMem : ∀ key, key ∈ A.keys ↔ ∃ a s, R a = some s ∧ key = M.keyAt field a s)
    (hKeys : A.keys = l ++ key :: rest) (hLe : M.keyValue field r ≤ key.k)
    (hPassed : ∀ a s, R a = some s → M.keyAt field a s ∈ l → ¬ M.Shares field r s) {found : Record}
    (hFound : found.WellFormed M.types) (hOf : OfTable M.created.2 found) (err : TableError) :
    (∃ a err', M.dupTurn position r field (M.keyValue field r) t (key, found, F.setDataError err) =
        .inl (some ⟨a, r, F.setDataError err'⟩) ∧ M.FindsBy R field r a) ∨
      ∃ y rest' found', rest = y :: rest' ∧ M.keyValue field r ≤ y.k ∧ M.Sound found' ∧
        (∀ a s, R a = some s → M.keyAt field a s ∈ l ++ [key] → ¬ M.Shares field r s) ∧
        M.dupTurn position r field (M.keyValue field r) t (key, found, F.setDataError err) =
          .inr (y, found', F.setDataError .noError) := by
  have hC := M.keyClass_strictOrder.strict
  have hAfter : ∀ y ∈ rest, key.k ≤ y.k := by
    intro y hy
    have hSorted := (Comparison.sorted_append.mp (hKeys ▸ A.sorted)).2.1
    rcases rdbmsKey_lt_cases ((Comparison.sorted_cons.mp hSorted).1 y hy) with hLt | ⟨hEq, -⟩
    · exact hLt.le
    · exact hEq.le
  by_cases hOther : key.k = M.keyValue field r
  · obtain ⟨a, s, hRecord, rfl⟩ := (hMem key).mp (by rw [hKeys]; simp)
    obtain ⟨found', v, hRead, hSound, hMatch, hv⟩ := readAt_compared (F := F.setDataError err) hM
      (h.setDataError err) position hr hKey hField hRecord hOther hFound hOf
    have hTurn : M.dupTurn position r field (M.keyValue field r) t (M.keyAt field a s, found, F.setDataError err) =
        if v then .inl (some ⟨a, r, F.setDataError .noError⟩)
        else M.dupNext r t (M.keyAt field a s, found', F.setDataError .noError) := by
      simp only [dupTurn, if_neg (not_not_intro hOther)]
      rw [keyAt, hRead]
      dsimp only
      rw [hMatch]
      cases v <;> rfl
    cases v with
    | true => exact .inl ⟨a, .noError, hTurn, .inl ⟨s, hRecord, hv.mp rfl⟩⟩
    | false =>
      have hNot : ¬ M.Shares field r s := fun hShares => Bool.false_ne_true (hv.mpr hShares)
      have hPassed' : ∀ b s', R b = some s' → M.keyAt field b s' ∈ l ++ [M.keyAt field a s] →
          ¬ M.Shares field r s' := by
        intro b s' hRecord' hIn
        rcases List.mem_append.mp hIn with hIn | hIn
        · exact hPassed b s' hRecord' hIn
        · obtain rfl : b = a := congrArg RdbmsKey.kid (List.mem_singleton.mp hIn)
          obtain rfl := Option.some.inj (hRecord.symm.trans hRecord')
          exact hNot
      rw [if_neg Bool.false_ne_true, dupNext, hStores.following M.keyClass_strictOrder,
        KeySet.following_of_split hC hKeys (hC.eqv_refl _)] at hTurn
      cases rest with
      | nil =>
        have hEnd : A.keys = l ++ [M.keyAt field a s] ++ [] := by rw [hKeys, List.append_nil]
        exact .inl ⟨0, .recordNotFound, hTurn, .inr ⟨not_taken_of_passed h hr hMem hEnd hPassed' fun x hx =>
          absurd hx List.not_mem_nil, rfl⟩⟩
      | cons y rest =>
        exact .inr ⟨y, rest, found', rfl, hLe.trans (hAfter y List.mem_cons_self), hSound, hPassed', hTurn⟩
  · refine .inl ⟨0, .recordNotFound, ?_, .inr ⟨?_, rfl⟩⟩
    · rw [dupTurn, if_pos hOther]
      rfl
    · refine not_taken_of_passed h hr hMem hKeys hPassed fun x hx => ?_
      rcases List.mem_cons.mp hx with rfl | hx
      · exact hOther
      · have hLater := hAfter x hx
        omega

/-- The loop over the keys with one value compares the records of all of them, if it does not find one. -/
theorem dupTurns_run (hStores : t.Stores M.keyClass A)
    (hMem : ∀ key, key ∈ A.keys ↔ ∃ a s, R a = some s ∧ key = M.keyAt field a s)
    (hKeys : A.keys = l ++ key :: rest) (hLe : M.keyValue field r ≤ key.k)
    (hPassed : ∀ a s, R a = some s → M.keyAt field a s ∈ l → ¬ M.Shares field r s) {found : Record}
    (hFound : found.WellFormed M.types) (hOf : OfTable M.created.2 found) (err : TableError) {n : Nat}
    (hn : rest.length < n) :
    ∃ a err', Loop.result (M.dupTurn position r field (M.keyValue field r) t) n (key, found, F.setDataError err) =
        some (some ⟨a, r, F.setDataError err'⟩) ∧ M.FindsBy R field r a := by
  obtain ⟨n, rfl⟩ : ∃ m, n = m + 1 := ⟨n - 1, by omega⟩
  induction rest generalizing l key found err n with
  | nil =>
    rcases dupTurn_run hM h position hr hKey hField hStores hMem hKeys hLe hPassed hFound hOf err with
      ⟨a, err', hTurn, hFinds⟩ | ⟨y, rest', found', hRest, -⟩
    · exact ⟨a, err', by rw [Loop.result, hTurn], hFinds⟩
    · cases hRest
  | cons y rest ih =>
    rcases dupTurn_run hM h position hr hKey hField hStores hMem hKeys hLe hPassed hFound hOf err with
      ⟨a, err', hTurn, hFinds⟩ | ⟨y', rest', found', hRest, hLe', hSound, hPassed', hTurn⟩
    · exact ⟨a, err', by rw [Loop.result, hTurn], hFinds⟩
    · obtain ⟨rfl, rfl⟩ := List.cons.inj hRest
      obtain ⟨m, rfl⟩ : ∃ m, n = m + 1 := ⟨n - 1, by rw [List.length_cons] at hn; omega⟩
      rw [Loop.result, hTurn]
      refine ih (l := l ++ [key]) (by rw [hKeys, List.append_cons]) hLe' hPassed' hSound.wellFormed
        hSound.ofTable .noError m ?_
      rw [List.length_cons] at hn
      omega

omit hKey hField hr in
/-- There are fewer keys than addresses. -/
theorem keys_length_lt (hMem : ∀ key, key ∈ A.keys ↔ ∃ a s, R a = some s ∧ key = M.keyAt field a s) :
    A.keys.length < findTurns := by
  have hPlace : ∀ a ∈ A.keys.map RdbmsKey.kid, a ∈ Finset.Ico (0 : Int) (2 ^ 63) := by
    intro a ha
    obtain ⟨key, hKey, rfl⟩ := List.mem_map.mp ha
    obtain ⟨a, s, hRecord, rfl⟩ := (hMem key).mp hKey
    obtain ⟨hPos, hLt⟩ := h.data.bounds hM hRecord
    exact Finset.mem_Ico.mpr ⟨hPos.le, hLt⟩
  have hNodup : (A.keys.map RdbmsKey.kid).Nodup := by
    refine List.Nodup.map_on (fun x hx y hy hSame => ?_) (A.sorted.imp fun {x y} hLt hEq => ?_)
    · obtain ⟨a, s, hRecord, rfl⟩ := (hMem x).mp hx
      obtain ⟨b, s', hRecord', rfl⟩ := (hMem y).mp hy
      obtain rfl : a = b := hSame
      rw [Option.some.inj (hRecord.symm.trans hRecord')]
    · subst hEq
      exact absurd hLt (by simp [M.keyClass_strictOrder.strict.lt_irrefl])
  have hCard := Finset.card_le_card (s := (A.keys.map RdbmsKey.kid).toFinset) fun a ha =>
    hPlace a (List.mem_toFinset.mp ha)
  rw [List.toFinset_card_of_nodup hNodup, List.length_map, Int.card_Ico] at hCard
  rw [findTurns]
  omega

/-- Where values may have several keys, the records with the value are compared. -/
theorem findByKey_dup (hDup : M.dup = true) (hIndex : F.indexes[i]? = some t) (hKeys : M.Indexes R field t) :
    ∃ a err, M.findByKey position r field i F = some ⟨a, r, F.setDataError err⟩ ∧ M.FindsBy R field r a := by
  obtain ⟨A, hStores, hMem⟩ := hKeys
  have hC := M.keyClass_strictOrder.strict
  have hBelow (x : RdbmsKey) (hx : x ∈ A.keys) :
      M.keyClass.comparison.lt x ⟨M.keyValue field r, M.tableId, 0⟩ = true ↔ x.k < M.keyValue field r := by
    obtain ⟨a, s, hRecord, rfl⟩ := (hMem x).mp hx
    have hPos := (h.data.bounds hM hRecord).1
    constructor
    · intro hLt
      rcases rdbmsKey_lt_cases hLt with hLt | ⟨-, hLt⟩
      · exact hLt
      · exact absurd hLt (Int.not_lt.mpr hPos.le)
    · intro hLt
      simp [keyClass, rdbmsKey, KeyClass.comparison, RdbmsKey.operatorGt, hDup, hLt]
  have hFirst := hStores.partialFind M.keyClass_strictOrder ⟨M.keyValue field r, M.tableId, 0⟩
  cases hLeast : A.atLeast ⟨M.keyValue field r, M.tableId, 0⟩ with
  | none =>
    refine ⟨0, .recordNotFound, ?_, .inr ⟨?_, rfl⟩⟩
    · simp only [findByKey, hr.createKey hM, Option.bind_eq_bind, Option.bind_some, if_neg hKey, hDup, if_true,
        hIndex, hFirst, hLeast]
      rfl
    · refine not_taken_of_passed (l := []) h hr hMem rfl (fun a s _ hIn => absurd hIn List.not_mem_nil) ?_
      exact fun x hx => ((hBelow x hx).mp ((A.atLeast_eq_none_iff hC _).mp hLeast x hx)).ne
  | some key =>
    have hStart : M.findByKey position r field i F = (Loop.result (M.dupTurn position r field (M.keyValue field r) t)
        findTurns (key, M.created.2, F.setDataError F.dataError)).join := by
      simp only [findByKey, hr.createKey hM, Option.bind_eq_bind, Option.bind_some, if_neg hKey, hDup, if_true,
        hIndex, hFirst, hLeast]
      rfl
    rw [A.atLeast_eq_find hC] at hLeast
    obtain ⟨hNot, l, rest, hSplit, hPassed⟩ := List.find?_eq_some_iff_append.mp hLeast
    have hIn : key ∈ A.keys := by
      rw [hSplit]
      exact List.mem_append_right l List.mem_cons_self
    have hCount := keys_length_lt hM h hMem
    have hLe : M.keyValue field r ≤ key.k := by
      have hGe := (hBelow key hIn).not.mp (by simpa using hNot)
      omega
    have hFront : ∀ a s, R a = some s → M.keyAt field a s ∈ l → ¬ M.Shares field r s := by
      intro a s hRecord hMemL hShares
      have hLess := (hBelow _ (by rw [hSplit]; exact List.mem_append_left _ hMemL)).mp (by
        simpa using hPassed _ hMemL)
      exact hLess.ne (keyValue_of_same hr (h.data.sound a s hRecord) hShares).symm
    obtain ⟨a, err, hRun, hFinds⟩ := dupTurns_run hM h position hr hKey hField hStores hMem hSplit hLe hFront
      hM.table.wellFormed (OfTable.refl _) F.dataError (n := findTurns) (by
        rw [hSplit, List.length_append, List.length_cons] at hCount
        omega)
    exact ⟨a, err, by rw [hStart, hRun]; rfl, hFinds⟩

end Dup

/-- A search finds a record with the same value of the field if there is one. -/
theorem find_run (caseCmp alphaCmp : Bool) :
    ∃ a err, M.find position r field caseCmp alphaCmp F = some ⟨a, r, F.setDataError err⟩ ∧
      M.FindsBy R field r a := by
  obtain ⟨i, hAt, hi⟩ := hM.fieldIndex_eq hField
  obtain ⟨t, hIndex, hKeys⟩ := h.indexes.getElem? hi
  rw [find, hr.ofTable_eq hM]
  simp only [hAt, h.usingIndex, if_true]
  cases hDup : M.dup with
  | false => exact findByKey_single hM h position hr hKey hField hDup hIndex hKeys
  | true => exact findByKey_dup hM h position hr hKey hField hDup hIndex hKeys


end Find

section FindKey

variable (hM : M.Ready) (position : Int) (hr : M.Sound r)

include hM hr

theorem findSecKeys_run {numbers : List Int} (h : M.InSync R F)
    (hNumbers : ∀ number ∈ numbers, fieldAt number ∈ M.fields) (hKeyed : M.Keyed r) :
    ∃ a err, M.findSecKeys position numbers r F = some ⟨a, r, F.setDataError err⟩ ∧
      M.FindsIn R r a (numbers.map fieldAt) := by
  induction numbers generalizing F with
  | nil => exact ⟨0, F.dataError, rfl, rfl⟩
  | cons number numbers ih =>
    obtain ⟨hField, hNumbers⟩ := List.forall_mem_cons.mp hNumbers
    obtain ⟨a, err, hFind, hFinds⟩ := find_run hM h position hr (hKeyed _ hField) hField M.compareCase
      M.compareAlpha
    rw [findSecKeys, hFind, Option.bind_eq_bind, Option.bind_some]
    dsimp only
    rcases hFinds with ⟨s, hRecord, hShares⟩ | ⟨hNone, rfl⟩
    · rw [if_pos (h.data.bounds hM hRecord).1.ne']
      exact ⟨a, err, rfl, .inl ⟨s, hRecord, hShares⟩⟩
    · rw [if_neg (not_not_intro rfl)]
      obtain ⟨a, err', hRest, hFinds⟩ := ih (h.setDataError err) hNumbers
      exact ⟨a, err', hRest, .inr ⟨hNone, hFinds⟩⟩

/-- `FindKey` goes through the key fields until a record has the value of one of them. -/
theorem findRecordKey_run (h : M.InSync R F) (hKeyed : M.Keyed r) :
    ∃ a err, M.findRecordKey position r F = some ⟨a, r, F.setDataError err⟩ ∧ M.FindsIn R r a M.fields := by
  have hFirst : M.keyField ∈ M.fields := List.mem_cons_self
  obtain ⟨a, err, hFind, hFinds⟩ := find_run hM h position hr (hKeyed _ hFirst) hFirst M.compareCase
    M.compareAlpha
  rw [findRecordKey, hFind, Option.bind_eq_bind, Option.bind_some, fields]
  dsimp only
  rcases hFinds with ⟨s, hRecord, hShares⟩ | ⟨hNone, rfl⟩
  · rw [if_pos (h.data.bounds hM hRecord).1.ne']
    exact ⟨a, err, rfl, .inl ⟨s, hRecord, hShares⟩⟩
  · rw [if_neg (not_not_intro rfl)]
    by_cases hSec : M.HasSecKeys
    · have hNumbers : ∀ number ∈ M.secKeyFields, fieldAt number ∈ M.fields := fun number hMem => by
        rw [fields, if_pos hSec]
        exact List.mem_cons_of_mem _ (List.mem_map_of_mem hMem)
      obtain ⟨a, err', hRest, hFinds⟩ := findSecKeys_run hM position hr (h.setDataError err) hNumbers hKeyed
      rw [if_pos hSec, if_pos hSec]
      exact ⟨a, err', hRest, .inr ⟨hNone, hFinds⟩⟩
    · rw [if_neg hSec, if_neg hSec]
      exact ⟨0, err, rfl, .inr ⟨hNone, rfl⟩⟩

omit hr in
/-- The record that is found has a key field in common with the one that is searched for, and none has if
there is none. -/
theorem FindsIn.cases {fields : List Nat} (h : M.InData R F.data) (hFinds : M.FindsIn R r a fields) :
    (a = 0 ∧ ∀ field ∈ fields, ¬ M.Taken R field r) ∨
      a ≠ 0 ∧ ∃ s, R a = some s ∧ ∃ field ∈ fields, M.Shares field r s := by
  induction fields with
  | nil => exact .inl ⟨hFinds, fun field hMem => absurd hMem List.not_mem_nil⟩
  | cons field fields ih =>
    rcases hFinds with ⟨s, hRecord, hShares⟩ | ⟨hNone, hFinds⟩
    · exact .inr ⟨(h.bounds hM hRecord).1.ne', s, hRecord, field, List.mem_cons_self, hShares⟩
    · rcases ih hFinds with ⟨hZero, hAll⟩ | ⟨hNe, s, hRecord, field', hMem, hShares⟩
      · exact .inl ⟨hZero, List.forall_mem_cons.mpr ⟨hNone, hAll⟩⟩
      · exact .inr ⟨hNe, s, hRecord, field', List.mem_cons_of_mem _ hMem, hShares⟩

end FindKey

/-! ## Writing -/

/-- The files have room for another record. -/
structure Room (M : RecordTable) (r : Record) (F : TableFiles) : Prop where
  data : F.data.fileHeader.gxdEof + (r.diskLength M.types + F.data.overhead) < 2 ^ 63
  indexes : ∀ t ∈ F.indexes, t.f.Room maxLevels

section Write

variable (hM : M.Ready) (h : M.InSync R F) (position : Int) (hr : M.Sound r) (hKeyed : M.Keyed r)

include hM h hr hKeyed

theorem write_run (hNew : ∀ field ∈ M.fields, ∀ b s, R b = some s → M.keyValue field s = M.keyValue field r →
    M.dup = true) (hRoom : M.Room r F) (b : FAU) :
    ∃ a F', M.write position r b F = some (.noError, a, F') ∧ R a = none ∧
      M.InSync (Function.update R a (some r)) F' := by
  obtain ⟨disk, hCreate, hLength⟩ := hr.createDiskRecord hM
  obtain ⟨a, d, hAlloc, hSize, hFree, -, hData⟩ := h.data.alloc_eq hM position hr hCreate
    (hLength ▸ hRoom.data) M.method
  have hUnused : ∀ field ∈ M.fields, M.Unused R field (M.keyAt field a r) := by
    intro field hField b s hRecord hValue
    refine ⟨hNew field hField b s hRecord hValue, ?_⟩
    rintro rfl
    rw [hRecord] at hFree
    cases hFree
  obtain ⟨ts, hAdd, hIndexes⟩ := AllIndexes.addKeys_run
    (F := { F with data := d.writeBytes (a + F.data.blockHeaderSize) disk, dataError := .noError })
    h.indexes hM h.usingIndex hr hKeyed hFree hUnused hRoom.indexes
  have hBack : a + (F.data.blockHeaderSize : Int) - d.blockHeaderSize = a := by
    rw [hSize, Int.add_sub_cancel]
  refine ⟨a, ⟨d.writeBytes (a + F.data.blockHeaderSize) disk, .noError, F.usingIndex, ts⟩, ?_, hFree, ?_⟩
  · rw [write, if_neg (not_not_intro (hr.recordDef hM)), hCreate, Option.bind_eq_bind, Option.bind_some]
    dsimp only
    rw [hAlloc, Option.bind_eq_bind, Option.bind_some]
    dsimp only
    rw [hBack, hAdd, Option.bind_eq_bind, Option.bind_some]
    dsimp only
    rw [if_pos rfl]
    rfl
  · refine ⟨h.usingIndex, hData, fun b s hRecord => ?_, hIndexes⟩
    by_cases hb : b = a
    · rw [hb, Function.update_self] at hRecord
      exact Option.some.inj hRecord ▸ hKeyed
    · rw [Function.update_of_ne hb] at hRecord
      exact h.keyed b s hRecord

end Write

/-! ## Deleting -/

section Remove

variable (hM : M.Ready) (h : M.InSync R F) (position : Int)

include hM h

/-- The keys and the block of a record are deleted by a record with the same keys. -/
theorem remove_run (hRecord : R a = some s) (hr : M.Sound r) (hKeyed : M.Keyed r)
    (hSame : ∀ field ∈ M.fields, M.keyValue field r = M.keyValue field s) :
    ∃ F₁ F', M.deleteKeys r a F = some (.noError, a, F₁) ∧ F₁.data = F.data ∧
      F₁.delete position (a + F.data.blockHeaderSize) = (true, F') ∧
      M.InSync (Function.update R a none) F' ∧ ∀ r', M.Room r' F → M.Room r' F' := by
  obtain ⟨ts, hKeys, hIndexes, hRooms⟩ := h.indexes.deleteKeys_run hM h.usingIndex hr hKeyed hRecord hSame
  obtain ⟨hTrue, hData, hEof, hRev⟩ := h.data.delete hM position hRecord
  refine ⟨{ F with indexes := ts }, ⟨(F.data.delete position (a + F.data.blockHeaderSize) false).2, .noError,
    F.usingIndex, ts⟩, hKeys, rfl, ?_, ⟨h.usingIndex, hData, fun b t hOther => ?_, hIndexes⟩, fun r' hRoom => ?_⟩
  · simp only [TableFiles.delete, hTrue, true_or, if_true]
  · by_cases hb : b = a
    · rw [hb, Function.update_self] at hOther
      cases hOther
    · rw [Function.update_of_ne hb] at hOther
      exact h.keyed b t hOther
  · refine ⟨?_, hRooms hRoom.indexes⟩
    have hFit := hRoom.data
    change (F.data.delete position (a + F.data.blockHeaderSize) false).2.fileHeader.gxdEof +
      (r'.diskLength M.types + (F.data.delete position (a + F.data.blockHeaderSize) false).2.overhead) < 2 ^ 63
    rwa [hEof, Database.overhead, hRev]

end Remove

/-! ## What calls do -/

/-- No record has a key field in common with this one. -/
def Missing (M : RecordTable) (R : FAU → Option Record) (r : Record) : Prop :=
  ∀ field ∈ M.fields, ¬ M.Taken R field r

/-- What a call on a table with some records replies, and what records there are after it. -/
inductive Serves (M : RecordTable) (R : FAU → Option Record) :
    TableCall → TableReply → (FAU → Option Record) → Prop
  | taken {r : Record} {a : FAU} (hDup : M.dup = false) (hNe : a ≠ 0) (hFinds : M.FindsIn R r a M.fields) :
      Serves M R (.add r) ⟨false, r, a⟩ R
  | added {r : Record} {a : FAU} (hNew : M.dup = false → M.Missing R r) (hFree : R a = none) :
      Serves M R (.add r) ⟨true, r, a⟩ (Function.update R a (some r))
  | notFound {r : Record} {loadRecord : Bool} (hNone : M.Missing R r) :
      Serves M R (.find r loadRecord) ⟨false, r, 0⟩ R
  | found {r : Record} {a : FAU} (hNe : a ≠ 0) (hFinds : M.FindsIn R r a M.fields) :
      Serves M R (.find r false) ⟨true, r, a⟩ R
  | loaded {r s r' : Record} {a : FAU} (hFinds : M.FindsIn R r a M.fields) (hRecord : R a = some s)
      (hAlike : Alike M.types r' s) : Serves M R (.find r true) ⟨true, r', a⟩ R
  | notDeleted {r : Record} (hNone : M.Missing R r) : Serves M R (.delete r) ⟨false, r, 0⟩ R
  | deleted {r s r' : Record} {a : FAU} (hFinds : M.FindsIn R r a M.fields) (hRecord : R a = some s)
      (hAlike : Alike M.types r' s) : Serves M R (.delete r) ⟨true, r', a⟩ (Function.update R a none)
  | notChanged {old new : Record} (hNone : M.Missing R old) : Serves M R (.change old new false) ⟨false, old, 0⟩ R
  | addedInstead {old new : Record} {a : FAU} (hNone : M.Missing R old) (hFree : R a = none) :
      Serves M R (.change old new true) ⟨true, old, a⟩ (Function.update R a (some new))
  | changed {old new s old' : Record} {orAdd : Bool} {a b : FAU} (hFinds : M.FindsIn R old a M.fields)
      (hRecord : R a = some s) (hAlike : Alike M.types old' s) (hFree : b = a ∨ R b = none)
      (hPlace : s.diskLength M.types = new.diskLength M.types → b = a) :
      Serves M R (.change old new orAdd) ⟨true, old', b⟩
        (Function.update (Function.update R a none) b (some new))
  | fieldMissing {data : List UInt8} {col : Nat} {s : Record} {a : FAU} (hRecord : R a = some s)
      (hCol : s.numFields - 1 < col) : Serves M R (.changeField data col a) ⟨false, noRecord, a⟩ R
  | fieldSet {data : List UInt8} {col : Nat} {s prev new : Record} {a b : FAU} (hRecord : R a = some s)
      (hAlike : Alike M.types prev s) (hSet : prev.setField M.types data col = some (.noError, new))
      (hFree : b = a ∨ R b = none) (hPlace : s.diskLength M.types = new.diskLength M.types → b = a) :
      Serves M R (.changeField data col a) ⟨true, noRecord, b⟩
        (Function.update (Function.update R a none) b (some new))

/-- A record of the table with a key for each index. -/
structure Proper (M : RecordTable) (r : Record) : Prop where
  sound : M.Sound r
  keyed : M.Keyed r

/-- Records with the same checksum of a key field have the same value of it. -/
def Apart (M : RecordTable) (R : FAU → Option Record) (r : Record) : Prop :=
  M.dup = false → ∀ field ∈ M.fields, ∀ b s, R b = some s → M.keyValue field s = M.keyValue field r →
    M.Shares field r s

/-- Of some records, those with the same checksum of a key field have the same value of it. -/
def Separates (M : RecordTable) (U : Record → Prop) : Prop :=
  M.dup = false → ∀ r s, U r → U s → ∀ field ∈ M.fields, M.keyValue field s = M.keyValue field r →
    M.Shares field r s

theorem Separates.apart {U : Record → Prop} (hU : M.Separates U) (hAll : ∀ a r, R a = some r → U r)
    (hr : U r) : M.Apart R r :=
  fun hDup field hField b s hRecord hValue => hU hDup r s hr (hAll b s hRecord) field hField hValue

theorem Separates.of_list {l : List Record} (hAll : ∀ r ∈ l, ∀ s ∈ l, ∀ field ∈ M.fields,
    M.keyValue field s = M.keyValue field r → M.Shares field r s) : M.Separates (· ∈ l) :=
  fun _ r s hr hs => hAll r hr s hs

/-- The call returns what it should and leaves the files in sync. -/
def Settles (M : RecordTable) (R : FAU → Option Record) (c : TableCall) (o? : Option RecordOutcome) : Prop :=
  ∃ o R', o? = some o ∧ M.Serves R c ⟨o.result, o.record, o.address⟩ R' ∧ M.InSync R' o.files

section Calls

variable (hM : M.Ready) (h : M.InSync R F) (position : Int) (hr : M.Proper r)

include hM h hr

/-- What a search for a record by its keys finds. -/
theorem findRecordKey_cases : ∃ a err, M.findRecordKey position r F = some ⟨a, r, F.setDataError err⟩ ∧
    M.FindsIn R r a M.fields ∧ ((a = 0 ∧ M.Missing R r) ∨ a ≠ 0 ∧ ∃ s, R a = some s) := by
  obtain ⟨a, err, hFind, hFinds⟩ := findRecordKey_run hM position hr.sound h hr.keyed
  refine ⟨a, err, hFind, hFinds, ?_⟩
  rcases FindsIn.cases (F := F) hM h.data hFinds with hNone | ⟨hNe, s, hRecord, -⟩
  · exact .inl hNone
  · exact .inr ⟨hNe, s, hRecord⟩

theorem addRecord_run (hApart : M.Apart R r) (hRoom : M.Room r F) :
    M.Settles R (.add r) (M.addRecord position r F) := by
  have hWrite (F : TableFiles) (h : M.InSync R F) (hRoom : M.Room r F) (hNew : M.dup = false → M.Missing R r) :
      ∃ a F', M.write position r 0 F = some (.noError, a, F') ∧ R a = none ∧
        M.InSync (Function.update R a (some r)) F' := by
    refine write_run hM h position hr.sound hr.keyed (fun field hField b s hRecord hValue => ?_) hRoom 0
    by_contra hDup
    have hFalse := Bool.eq_false_iff.mpr hDup
    exact hNew hFalse field hField ⟨b, s, hRecord, hApart hFalse field hField b s hRecord hValue⟩
  rw [addRecord]
  cases hDup : M.dup with
  | true =>
    obtain ⟨a, F', hRun, hFree, hSync⟩ := hWrite F h hRoom fun hFalse => by rw [hDup] at hFalse; cases hFalse
    refine ⟨⟨true, r, a, F'⟩, _, ?_, .added (fun hFalse => by rw [hDup] at hFalse; cases hFalse) hFree, hSync⟩
    simp only [if_true, Option.bind_eq_bind, Option.bind_some, ne_eq, not_true_eq_false, if_false, hRun]
    rfl
  | false =>
    obtain ⟨a, err, hFind, hFinds, ⟨rfl, hNone⟩ | ⟨hNe, -⟩⟩ := findRecordKey_cases hM h position hr
    · obtain ⟨a, F', hRun, hFree, hSync⟩ := hWrite (F.setDataError err) (h.setDataError err)
        ⟨hRoom.data, hRoom.indexes⟩ fun _ => hNone
      refine ⟨⟨true, r, a, F'⟩, _, ?_, .added (fun _ => hNone) hFree, hSync⟩
      simp only [Bool.false_eq_true, if_false, hFind, Option.bind_eq_bind, Option.bind_some, ne_eq,
        not_true_eq_false, hRun]
      rfl
    · refine ⟨⟨false, r, a, F.setDataError .recordExists⟩, R, ?_, .taken hDup hNe hFinds,
        h.setDataError .recordExists⟩
      simp only [Bool.false_eq_true, if_false, hFind, Option.bind_eq_bind, Option.bind_some, ne_eq, hNe,
        not_false_eq_true, if_true]
      rfl

/-- What a search that loads the record leaves. -/
theorem findRecord_load :
    (M.FindsIn R r 0 M.fields ∧ M.Missing R r ∧
        M.findRecord position r true F = some ⟨false, r, 0, F.setDataError .recordNotFound⟩) ∨
      ∃ a s r', M.FindsIn R r a M.fields ∧ R a = some s ∧ Alike M.types r' s ∧ M.Sound r' ∧
        M.findRecord position r true F = some ⟨true, r', a, F.setDataError .noError⟩ := by
  obtain ⟨a, err, hFind, hFinds, ⟨rfl, hNone⟩ | ⟨hNe, s, hRecord⟩⟩ := findRecordKey_cases hM h position hr
  · refine .inl ⟨hFinds, hNone, ?_⟩
    simp only [findRecord, hFind, Option.bind_eq_bind, Option.bind_some, if_true]
    rfl
  · obtain ⟨r', hRead, hAlike, hSound⟩ := (h.setDataError err).data.readAt_eq (F := F.setDataError err) hM position
      hRecord hr.sound.wellFormed hr.sound.ofTable
    refine .inr ⟨a, s, r', hFinds, hRecord, hAlike, hSound, ?_⟩
    simp only [findRecord, readRecord, hFind, Option.bind_eq_bind, Option.bind_some, hNe, if_false, if_true, hRead]
    rfl

theorem findRecord_run (loadRecord : Bool) :
    M.Settles R (.find r loadRecord) (M.findRecord position r loadRecord F) := by
  cases loadRecord with
  | false =>
    obtain ⟨a, err, hFind, hFinds, ⟨rfl, hNone⟩ | ⟨hNe, -⟩⟩ := findRecordKey_cases hM h position hr
    · refine ⟨⟨false, r, 0, F.setDataError .recordNotFound⟩, R, ?_, .notFound hNone,
        h.setDataError .recordNotFound⟩
      simp only [findRecord, hFind, Option.bind_eq_bind, Option.bind_some, if_true]
      rfl
    · refine ⟨⟨true, r, a, F.setDataError err⟩, R, ?_, .found hNe hFinds, h.setDataError err⟩
      simp only [findRecord, hFind, Option.bind_eq_bind, Option.bind_some, hNe, Bool.false_eq_true, if_false]
      rfl
  | true =>
    rcases findRecord_load hM h position hr with ⟨-, hNone, hRun⟩ | ⟨a, s, r', hFinds, hRecord, hAlike, -, hRun⟩
    · exact ⟨_, R, hRun, .notFound hNone, h.setDataError .recordNotFound⟩
    · exact ⟨_, R, hRun, .loaded hFinds hRecord hAlike, h.setDataError .noError⟩

theorem deleteRecord_run : M.Settles R (.delete r) (M.deleteRecord position r F) := by
  obtain ⟨a, err, hFind, hFinds, ⟨rfl, hNone⟩ | ⟨hNe, s, hRecord⟩⟩ := findRecordKey_cases hM h position hr
  · refine ⟨⟨false, r, 0, F.setDataError .recordNotFound⟩, R, ?_, .notDeleted hNone,
      h.setDataError .recordNotFound⟩
    simp only [deleteRecord, hr.sound.recordDef hM, h.usingIndex, hFind, Option.bind_eq_bind, Option.bind_some,
      ne_eq, not_true_eq_false, if_false, if_true]
    rfl
  · obtain ⟨r', hRead, hAlike, hSound⟩ := (h.setDataError err).data.readAt_eq (F := F.setDataError err) hM
      position hRecord hr.sound.wellFormed hr.sound.ofTable
    have hSame : ∀ field ∈ M.fields, M.keyValue field r' = M.keyValue field s := fun field hField =>
      hM.keyValue_alike hField hSound (h.data.sound a s hRecord) hAlike
    have hKeyed : M.Keyed r' := fun field hField => hSame field hField ▸ h.keyed a s hRecord field hField
    obtain ⟨F₁, F', hKeys, hData, hDelete, hSync, -⟩ := remove_run hM (h.setDataError .noError) position hRecord
      hSound hKeyed hSame
    refine ⟨⟨true, r', a, F'⟩, _, ?_, .deleted hFinds hRecord hAlike, hSync⟩
    have hRead' : M.readAt position r a (F.setDataError err) = some (.noError, r', F.setDataError .noError) := hRead
    have hDelete' : F₁.delete position (a + F₁.data.blockHeaderSize) = (true, F') := by rw [hData]; exact hDelete
    simp only [deleteRecord, hr.sound.recordDef hM, h.usingIndex, hFind, Option.bind_eq_bind, Option.bind_some,
      ne_eq, not_true_eq_false, if_false, if_true, hNe, hRead', hKeys, hDelete']
    rfl

end Calls

/-! ## Changes -/

theorem Sound.sizeOf (h : M.Sound r) (hM : M.Ready) : ∃ n, r.sizeOf M.types = some n ∧
    r.diskLength M.types = n + Record.headerSizeOf M.types ∧ r.diskLength M.types < 2 ^ 64 := by
  have hMax := h.diskLength
  have hWord : vectorMax < 2 ^ 64 := by decide
  rw [Record.diskLength] at hMax ⊢
  refine ⟨_, Record.sizeOf_eq h.wellFormed (h.dbRecord_ne hM), ?_, by omega⟩
  rw [Nat.mod_eq_of_lt (by omega)]

/-- No other record has a key of this one, but where keys may be equal. -/
def Free (M : RecordTable) (R : FAU → Option Record) (a : FAU) (r : Record) : Prop :=
  M.dup = false → ∀ field ∈ M.fields, ∀ b s, R b = some s → M.keyValue field s = M.keyValue field r → b = a

theorem Free.dup (h : M.Free R a r) {b : FAU} (hField : field ∈ M.fields)
    (hRecord : Function.update R a none b = some s) (hValue : M.keyValue field s = M.keyValue field r) :
    M.dup = true ∧ b ≠ a := by
  have hNe : b ≠ a := by
    rintro rfl
    rw [Function.update_self] at hRecord
    cases hRecord
  rw [Function.update_of_ne hNe] at hRecord
  refine ⟨?_, hNe⟩
  by_contra hDup
  exact hNe (h (Bool.eq_false_iff.mpr hDup) field hField b s hRecord hValue)

theorem keysDiffer_go (hM : M.Ready) (hr : M.Proper r) (hs : M.Proper s) {fields : List Nat}
    (hFields : ∀ field ∈ fields, field ∈ M.fields) :
    ∃ v, keysDiffer.go M r s fields = some (some v) ∧
      (v = false → ∀ field ∈ fields, M.keyValue field r = M.keyValue field s) := by
  induction fields with
  | nil => exact ⟨false, rfl, fun _ field hMem => absurd hMem List.not_mem_nil⟩
  | cons field fields ih =>
    obtain ⟨hField, hFields⟩ := List.forall_mem_cons.mp hFields
    have hKeys : ¬ (M.keyValue field r = 0 ∨ M.keyValue field s = 0) :=
      not_or.mpr ⟨hr.keyed field hField, hs.keyed field hField⟩
    rw [keysDiffer.go, hr.sound.createKey hM, hs.sound.createKey hM]
    simp only [Option.bind_eq_bind, Option.bind_some, if_neg hKeys]
    by_cases hSame : M.keyValue field r = M.keyValue field s
    · obtain ⟨v, hRun, hv⟩ := ih hFields
      rw [if_neg (not_not_intro hSame)]
      exact ⟨v, hRun, fun hFalse => List.forall_mem_cons.mpr ⟨hSame, hv hFalse⟩⟩
    · rw [if_pos hSame]
      exact ⟨true, rfl, fun hFalse => by cases hFalse⟩

/-- A record with the same keys takes the place of another one. -/
theorem Indexes.replace (h : M.Indexes R field t) (hRecord : R a = some s)
    (hValue : M.keyValue field r = M.keyValue field s) : M.Indexes (Function.update R a (some r)) field t := by
  obtain ⟨A, hStores, hKeys⟩ := h
  refine ⟨A, hStores, fun key => ?_⟩
  rw [hKeys]
  constructor
  · rintro ⟨b, t, hOther, rfl⟩
    by_cases hb : b = a
    · subst hb
      obtain rfl := Option.some.inj (hRecord.symm.trans hOther)
      exact ⟨b, r, Function.update_self .., by rw [keyAt, keyAt, hValue]⟩
    · exact ⟨b, t, by rw [Function.update_of_ne hb, hOther], rfl⟩
  · rintro ⟨b, t, hOther, rfl⟩
    by_cases hb : b = a
    · subst hb
      rw [Function.update_self] at hOther
      obtain rfl := Option.some.inj hOther
      exact ⟨b, s, hRecord, by rw [keyAt, keyAt, hValue]⟩
    · rw [Function.update_of_ne hb] at hOther
      exact ⟨b, t, hOther, rfl⟩

/-- The keys of a record are deleted and those of another one are added at its address. -/
theorem AllIndexes.swapKeys_run (hM : M.Ready) (hIndex : F.usingIndex = true) (h : M.AllIndexes R F)
    (hRecord : R a = some s) {old : Record} (hOld : M.Proper old)
    (hSame : ∀ field ∈ M.fields, M.keyValue field old = M.keyValue field s) (hr : M.Proper r)
    (hFree : M.Free R a r) (hRoom : ∀ t ∈ F.indexes, t.f.Room maxLevels) :
    ∃ ts ts', M.deleteKeys old a F = some (.noError, a, { F with indexes := ts }) ∧
      M.addKeys r a { F with indexes := ts } = some (.noError, { F with indexes := ts' }) ∧
      M.AllIndexes (Function.update R a (some r)) { F with indexes := ts' } := by
  obtain ⟨ts, hDelete, hIndexes, hRooms⟩ := h.deleteKeys_run hM hIndex hOld.sound hOld.keyed hRecord hSame
  obtain ⟨ts', hAdd, hIndexes'⟩ := AllIndexes.addKeys_run (a := a) (F := { F with indexes := ts }) hIndexes hM
    hIndex hr.sound hr.keyed (Function.update_self ..) (fun field hField b t hOther hValue =>
      hFree.dup hField hOther hValue) (hRooms hRoom)
  rw [Function.update_idem] at hIndexes'
  exact ⟨ts, ts', hDelete, hAdd, hIndexes'⟩

/-- A record with the same keys at an address needs no other keys. -/
theorem AllIndexes.replace (h : M.AllIndexes R F) (hRecord : R a = some s)
    (hValue : ∀ field ∈ M.fields, M.keyValue field r = M.keyValue field s) :
    M.AllIndexes (Function.update R a (some r)) F :=
  ((List.forall₂_and_left _ _).mpr ⟨hValue, h⟩).imp fun _ _ hBoth => hBoth.2.replace hRecord hBoth.1

section Rekey

variable (hM : M.Ready) (hIndex : F.usingIndex = true) (h : M.AllIndexes R F) (hRecord : R a = some s)
  {old : Record} (hOld : M.Proper old) (hSame : ∀ field ∈ M.fields, M.keyValue field old = M.keyValue field s)
  (hr : M.Proper r) (hFree : M.Free R a r) (hRoom : ∀ t ∈ F.indexes, t.f.Room maxLevels)

include hM hIndex h hRecord hOld hSame hr hFree hRoom

theorem rekey_run :
    ∃ err ts, M.rekey old r a F = some (.noError, ⟨F.data, err, F.usingIndex, ts⟩) ∧
      M.AllIndexes (Function.update R a (some r)) ⟨F.data, err, F.usingIndex, ts⟩ := by
  obtain ⟨v, hDiffer, hv⟩ := keysDiffer_go hM hOld hr fun field (hField : field ∈ M.fields) => hField
  have hStart : M.keysDiffer old r = some (some v) := hDiffer
  rw [rekey, if_pos hIndex, hStart, Option.bind_eq_bind, Option.bind_some]
  cases v with
  | false =>
    exact ⟨.noError, F.indexes, rfl, h.replace hRecord fun field hField =>
      (hv rfl field hField).symm.trans (hSame field hField)⟩
  | true =>
    obtain ⟨ts, ts', hDelete, hAdd, hIndexes⟩ := h.swapKeys_run hM hIndex hRecord hOld hSame hr hFree hRoom
    refine ⟨F.dataError, ts', ?_, hIndexes⟩
    dsimp only
    rw [hDelete, Option.bind_eq_bind, Option.bind_some]
    dsimp only
    rw [if_neg (not_not_intro rfl), hAdd]

theorem rekeyField_run :
    ∃ err ts, M.rekeyField old r a F = some (true, ⟨F.data, err, F.usingIndex, ts⟩) ∧
      M.AllIndexes (Function.update R a (some r)) ⟨F.data, err, F.usingIndex, ts⟩ := by
  obtain ⟨v, hDiffer, hv⟩ := keysDiffer_go hM hr hOld fun field (hField : field ∈ M.fields) => hField
  have hStart : M.keysDiffer r old = some (some v) := hDiffer
  rw [rekeyField, if_pos hIndex, hStart, Option.bind_eq_bind, Option.bind_some]
  cases v with
  | false =>
    exact ⟨.noError, F.indexes, rfl, h.replace hRecord fun field hField =>
      (hv rfl field hField).trans (hSame field hField)⟩
  | true =>
    obtain ⟨ts, ts', hDelete, hAdd, hIndexes⟩ := h.swapKeys_run hM hIndex hRecord hOld hSame hr hFree hRoom
    refine ⟨F.dataError, ts', ?_, hIndexes⟩
    dsimp only
    rw [hDelete, Option.bind_eq_bind, Option.bind_some]
    dsimp only
    rw [if_neg (not_not_intro rfl), hAdd]
    rfl

end Rekey

section Change

variable (hM : M.Ready) (position : Int) {old new : Record} (hNew : M.Proper new)

include hM hNew

/-- The keys and the block of a record are deleted, and another record is written. -/
theorem reinsert_run (h : M.InSync R F) (hRecord : R a = some s) (hOld : M.Proper old)
    (hSame : ∀ field ∈ M.fields, M.keyValue field old = M.keyValue field s) (hFree : M.Free R a new)
    (hRoom : M.Room new F) :
    ∃ b F', M.reinsert position old new a F = some (true, b, F') ∧ (b = a ∨ R b = none) ∧
      M.InSync (Function.update (Function.update R a none) b (some new)) F' := by
  obtain ⟨F₁, F₂, hKeys, hData, hDelete, hSync, hRooms⟩ := remove_run hM h position hRecord hOld.sound hOld.keyed
    hSame
  obtain ⟨b, F', hWrite, hUnused, hSync'⟩ := write_run hM hSync position hNew.sound hNew.keyed
    (fun field hField b t hOther hValue => (hFree.dup hField hOther hValue).1) (hRooms new hRoom) a
  have hBlock : deleteBlock position a F₁ = (true, F₂) := by
    rw [deleteBlock, if_neg (h.data.bounds hM hRecord).1.ne', hData, hDelete]
  refine ⟨b, F', ?_, ?_, hSync'⟩
  · simp only [reinsert, hKeys, Option.bind_eq_bind, Option.bind_some, ne_eq, not_true_eq_false, if_false, hBlock,
      if_true, hWrite]
    rfl
  · by_cases hb : b = a
    · exact .inl hb
    · rw [Function.update_of_ne hb] at hUnused
      exact .inr hUnused

/-- A record of the same size is overwritten in its block. -/
theorem overWriteRecord_run (h : M.InSync R F) (hRecord : R a = some s)
    (hSize : s.diskLength M.types = new.diskLength M.types) :
    ∃ d, M.overWriteRecord position new a F = some (true, a, ⟨d, .noError, F.usingIndex, F.indexes⟩) ∧
      M.InData (Function.update R a (some new)) d := by
  obtain ⟨disk, hDisk, hLength, hBlock⟩ := h.data.object_eq hM hRecord
  obtain ⟨hPlace, hdr, hHdr, hRecordLength⟩ := h.data.undamaged.readBlockHdr hBlock position
  obtain ⟨disk', hCreate, hLength'⟩ := hNew.sound.createDiskRecord hM
  obtain ⟨n, hSizeOf, hCount, hLimit⟩ := hNew.sound.sizeOf hM
  have hWord : (F.data.recordLength hdr + 2 ^ 64 - Record.headerSizeOf M.types) % 2 ^ 64 = n := by omega
  have hAll : s.createDiskRecord M.types = some (.ok ([] ++ (disk ++ []))) := by rwa [List.append_nil]
  have hAll' : new.createDiskRecord M.types = some (.ok ([] ++ (disk' ++ []))) := by rwa [List.append_nil]
  have hData := h.data.overwrite hRecord hNew.sound hAll hAll' (by omega)
  rw [List.length_nil, Int.natCast_zero, Int.add_zero] at hData
  refine ⟨_, ?_, hData⟩
  simp only [overWriteRecord, if_neg (not_not_intro (hNew.sound.recordDef hM)), hHdr, hSizeOf, hWord,
    Option.bind_eq_bind, Option.bind_some, ne_eq, not_true_eq_false, if_false, hCreate, hPlace]
  rfl

/-- A record that is found gives way to the new one. -/
theorem changeRecord_run (h : M.InSync R F) (hOld : M.Proper old)
    (hFree : ∀ a, M.FindsIn R old a M.fields → M.Free R a new) (hRoom : M.Room new F) (orAdd : Bool) :
    M.Settles R (.change old new orAdd) (M.changeRecord position old new orAdd 0 F) := by
  have hDefs : ¬ (M.recordDef ≠ old.recordDef ∨ M.recordDef ≠ new.recordDef) := by
    rintro (hNe | hNe)
    · exact hNe (hOld.sound.recordDef hM)
    · exact hNe (hNew.sound.recordDef hM)
  rcases findRecord_load hM h position hOld with
    ⟨hFinds, hNone, hFind⟩ | ⟨a, s, old', hFinds, hRecord, hAlike, hSound, hFind⟩
  · cases orAdd with
    | false =>
      refine ⟨⟨false, old, 0, F.setDataError .recordNotFound⟩, R, ?_, .notChanged hNone,
        h.setDataError .recordNotFound⟩
      simp only [changeRecord, changeOrAddRecord, if_neg hDefs, if_true, hFind, Option.bind_eq_bind,
        Option.bind_some, Bool.not_false, Bool.false_eq_true, if_false]
      rfl
    | true =>
      obtain ⟨b, F', hWrite, hUnused, hSync⟩ := write_run hM (h.setDataError .recordNotFound) position hNew.sound
        hNew.keyed (fun field hField b t hOther hValue => by
          by_contra hDup
          have hZero := hFree 0 hFinds (Bool.eq_false_iff.mpr hDup) field hField b t hOther hValue
          exact (h.data.bounds hM hOther).1.ne' hZero) ⟨hRoom.data, hRoom.indexes⟩ 0
      refine ⟨⟨true, old, b, F'⟩, _, ?_, .addedInstead hNone hUnused, hSync⟩
      simp only [changeRecord, changeOrAddRecord, if_neg hDefs, if_true, hFind, Option.bind_eq_bind,
        Option.bind_some, Bool.not_false, hWrite]
      rfl
  · have hSync := h.setDataError .noError
    have hRoom' : M.Room new (F.setDataError .noError) := ⟨hRoom.data, hRoom.indexes⟩
    have hSame : ∀ field ∈ M.fields, M.keyValue field old' = M.keyValue field s := fun field hField =>
      hM.keyValue_alike hField hSound (h.data.sound a s hRecord) hAlike
    have hProper : M.Proper old' :=
      ⟨hSound, fun field hField => hSame field hField ▸ h.keyed a s hRecord field hField⟩
    have hPlace : Database.readPosition position a = a :=
      Database.readPosition_pos position (h.data.bounds hM hRecord).1
    obtain ⟨m, hOldSize, hOldDisk, -⟩ := hSound.sizeOf hM
    obtain ⟨n, hNewSize, hNewDisk, -⟩ := hNew.sound.sizeOf hM
    have hLength := Record.diskLength_alike hAlike
    by_cases hSize : m = n
    · have hEqual : s.diskLength M.types = new.diskLength M.types := by omega
      obtain ⟨d, hOver, hData⟩ := overWriteRecord_run hM position hNew hSync hRecord hEqual
      obtain ⟨err, ts, hRekey, hIndexes⟩ := rekey_run (F := ⟨d, .noError, F.usingIndex, F.indexes⟩) hM h.usingIndex
        h.indexes hRecord hProper hSame hNew (hFree a hFinds) hRoom.indexes
      refine ⟨⟨true, old', a, ⟨d, err, F.usingIndex, ts⟩⟩, _, ?_,
        .changed hFinds hRecord hAlike (.inl rfl) fun _ => rfl, ?_⟩
      · simp only [changeRecord, changeOrAddRecord, if_neg hDefs, if_true, hFind, Option.bind_eq_bind,
          Option.bind_some, Bool.not_true, Bool.false_eq_true, if_false, TableFiles.setDataError_dataError, ne_eq,
          not_true_eq_false, and_false, hPlace, hOldSize, hNewSize, hSize, hOver]
        change ((M.rekey old' new a ⟨d, .noError, F.usingIndex, F.indexes⟩).bind _).bind _ = _
        rw [hRekey]
        rfl
      · rw [Function.update_idem]
        refine ⟨h.usingIndex, hData, fun b t hOther => ?_, hIndexes⟩
        by_cases hb : b = a
        · rw [hb, Function.update_self] at hOther
          exact Option.some.inj hOther ▸ hNew.keyed
        · rw [Function.update_of_ne hb] at hOther
          exact h.keyed b t hOther
    · obtain ⟨b, F', hRun, hUnused, hSync'⟩ := reinsert_run hM position hNew hSync hRecord hProper hSame
        (hFree a hFinds) hRoom'
      refine ⟨⟨true, old', b, F'.setDataError .noError⟩, _, ?_, .changed hFinds hRecord hAlike hUnused
        fun hEqual => absurd hEqual (by omega), hSync'.setDataError .noError⟩
      simp only [changeRecord, changeOrAddRecord, if_neg hDefs, if_true, hFind, Option.bind_eq_bind,
        Option.bind_some, Bool.not_true, Bool.false_eq_true, if_false, TableFiles.setDataError_dataError, ne_eq,
        not_true_eq_false, and_false, hPlace, hOldSize, hNewSize, hSize, not_false_eq_true, hRun]
      rfl

end Change

/-- The record that `ChangeRecordField` makes of the one at an address. -/
def fieldRecord (M : RecordTable) (position : Int) (data : List UInt8) (col : Nat) (a : FAU) (F : TableFiles) :
    Option Record := do
  let (_, prev, _) ← M.readAt position M.created.2 a F
  let (err, new) ← prev.setField M.types data col
  if err = .noError then some new else none

section ChangeField

variable (hM : M.Ready) (position : Int) (h : M.InSync R F) (hRecord : R a = some s) {old new : Record}
  {data : List UInt8} {col : Nat} (hOld : M.Sound old) (hAlike : Alike M.types old s)
  (hSet : old.setField M.types data col = some (.noError, new)) (hNew : M.Proper new)

include hM h hRecord hOld hAlike hSet hNew

/-- A field of the same size is overwritten in the block of its record. -/
theorem writeField_run (hBytes : data.length < 256 ^ M.types.wordSize)
    (hSize : s.diskLength M.types = new.diskLength M.types) :
    ∃ offset, new.fieldDataDiskOffset M.types col = some (.ok offset) ∧
      M.InData (Function.update R a (some new))
        (F.data.writeBytes (a + F.data.blockHeaderSize + Record.headerSizeOf M.types + offset) data) := by
  have hLength := Record.diskLength_alike hAlike
  have hs := h.data.sound a s hRecord
  have hAll {t : Record} (ht : M.Sound t) : t.excludeFields = [] :=
    ht.ofTable.excludeFields.symm.trans hM.table.excludeFields
  obtain ⟨front, bytes, rest, offset, hDisk, hDisk', hCount, hOffset, hFront⟩ := Record.setField_disk
    hOld.wellFormed (hAll hOld) (hOld.dbRecord_ne hM) hOld.diskLength hSet hBytes
    (hSize.symm.trans hLength.symm)
  rw [Record.createDiskRecord_alike hAlike (hAll hOld) (hAll hs) (hOld.dbRecord_ne hM) (hs.dbRecord_ne hM)
    hOld.diskLength hs.diskLength] at hDisk
  refine ⟨offset, hOffset, ?_⟩
  have hData := h.data.overwrite hRecord hNew.sound hDisk hDisk' hCount
  rwa [hFront, Nat.cast_add, ← Int.add_assoc] at hData

end ChangeField

/-- A field that the record of an address has is set, in its block or in a new one. -/
theorem changeRecordField_run (hM : M.Ready) (position : Int) (h : M.InSync R F) (hRecord : R a = some s)
    {data : List UInt8} (hMax : data.length + Field.overhead M.types ≤ vectorMax)
    (hBytes : data.length < 256 ^ M.types.wordSize) (col : Nat)
    (hMade : ∀ new ∈ M.fieldRecord position data col a F, M.Proper new ∧ M.Free R a new ∧ M.Room new F) :
    ∃ o R', (TableCall.changeField data col a).perform M position F = some o ∧
      M.Serves R (.changeField data col a) ⟨o.result, o.record, o.address⟩ R' ∧ M.InSync R' o.files ∧
      (R' = R ∨ ∃ new ∈ M.fieldRecord position data col a F, ∃ b,
        R' = Function.update (Function.update R a none) b (some new)) := by
  have hPos := (h.data.bounds hM hRecord).1
  have hPlace : a ≠ gxCurrAddress := by
    rintro rfl
    exact absurd hPos (by decide)
  obtain ⟨old, hRead, hAlike, hSound⟩ := h.data.readAt_eq hM position hRecord hM.table.wellFormed (OfTable.refl _)
  have hNum := hAlike.definition.numFields
  have hSync := h.setDataError .noError
  by_cases hCol : old.numFields - 1 < col
  · refine ⟨⟨false, noRecord, a, F.setDataError (.record .bufferOverflow)⟩, R, ?_,
      .fieldMissing hRecord (hNum ▸ hCol), h.setDataError _, .inl rfl⟩
    have hSet : old.setField M.types data col = some (.bufferOverflow, old) := by
      rw [Record.setField, if_neg (hSound.dbRecord_ne hM), if_pos hCol]
    simp only [TableCall.perform, changeRecordField, if_neg hPos.ne', hM.table.created, ne_eq, not_true_eq_false,
      if_false, hRead, hSet, Option.bind_eq_bind, Option.bind_some]
    rfl
  · have hNumPos := hSound.wellFormed.numFields_pos (hSound.dbRecord_ne hM)
    obtain ⟨buf, hBuf⟩ := Field.setData_some (hSound.wellFormed.field col (by omega)) hMax
    obtain ⟨new, hSet⟩ : ∃ new, old.setField M.types data col = some (.noError, new) := by
      refine ⟨{ old with dbRecord := old.dbRecord.set col buf }, ?_⟩
      rw [Record.setField, if_neg (hSound.dbRecord_ne hM), if_neg hCol, hBuf]
      rfl
    have hThis : M.fieldRecord position data col a F = some new := by
      simp only [fieldRecord, hRead, hSet, Option.bind_eq_bind, Option.bind_some, if_true]
    obtain ⟨hNew, hFree, hRoom⟩ := hMade new hThis
    have hSame : ∀ field ∈ M.fields, M.keyValue field old = M.keyValue field s := fun field hField =>
      hM.keyValue_alike hField hSound (h.data.sound a s hRecord) hAlike
    have hOld : M.Proper old :=
      ⟨hSound, fun field hField => hSame field hField ▸ h.keyed a s hRecord field hField⟩
    obtain ⟨m, hOldSize, hOldDisk, -⟩ := hSound.sizeOf hM
    obtain ⟨n, hNewSize, hNewDisk, -⟩ := hNew.sound.sizeOf hM
    have hLength := Record.diskLength_alike hAlike
    by_cases hSize : n = m
    · have hEqual : s.diskLength M.types = new.diskLength M.types := by omega
      obtain ⟨offset, hOffset, hData⟩ := writeField_run hM h hRecord hSound hAlike hSet hNew hBytes hEqual
      generalize hd : F.data.writeBytes _ data = d at hData
      obtain ⟨err, ts, hRekey, hIndexes⟩ := rekeyField_run (F := ⟨d, .noError, F.usingIndex, F.indexes⟩) hM
        h.usingIndex h.indexes hRecord hOld hSame hNew hFree hRoom.indexes
      refine ⟨⟨true, noRecord, a, ⟨d, err, F.usingIndex, ts⟩⟩, _, ?_,
        .fieldSet hRecord hAlike hSet (.inl rfl) fun _ => rfl, ?_, .inr ⟨new, hThis, a, rfl⟩⟩
      · simp only [TableCall.perform, changeRecordField, if_neg hPos.ne', hM.table.created, ne_eq, not_true_eq_false,
          if_false, hRead, hSet, Option.bind_eq_bind, Option.bind_some, hPlace, not_false_eq_true, if_true, putField,
          hOldSize, hNewSize, hSize, hOffset, TableFiles.setDataError, hd, hRekey]
        rfl
      · rw [Function.update_idem]
        refine ⟨h.usingIndex, hData, fun b t hOther => ?_, hIndexes⟩
        by_cases hb : b = a
        · rw [hb, Function.update_self] at hOther
          exact Option.some.inj hOther ▸ hNew.keyed
        · rw [Function.update_of_ne hb] at hOther
          exact h.keyed b t hOther
    · obtain ⟨b, F', hRun, hUnused, hSync'⟩ := reinsert_run hM position hNew hSync hRecord hOld hSame hFree
        ⟨hRoom.data, hRoom.indexes⟩
      refine ⟨⟨true, noRecord, b, F'⟩, _, ?_, .fieldSet hRecord hAlike hSet hUnused fun hEqual =>
        absurd hEqual (by omega), hSync', .inr ⟨new, hThis, b, rfl⟩⟩
      simp only [TableCall.perform, changeRecordField, if_neg hPos.ne', hM.table.created, ne_eq, not_true_eq_false,
        if_false, hRead, hSet, Option.bind_eq_bind, Option.bind_some, hPlace, not_false_eq_true, if_true, putField,
        hOldSize, hNewSize, hSize, hRun]
      rfl

/-! ## Runs -/

section Unique

variable (hDup : M.dup = false) (h : M.AllIndexes R F)

include hDup h

theorem AllIndexes.unique (hField : field ∈ M.fields) {b : FAU} {s' : Record} (hRecord : R a = some s)
    (hOther : R b = some s') (hValue : M.keyValue field s = M.keyValue field s') : a = b := by
  obtain ⟨i, hi⟩ := List.getElem?_of_mem hField
  obtain ⟨t, -, hKeys⟩ := h.getElem? hi
  exact hKeys.unique hDup hRecord hOther hValue

theorem FindsIn.unique (hData : M.InData R F.data) (hr : M.Sound r) {fields : List Nat} {b : FAU}
    (hFields : ∀ field ∈ fields, field ∈ M.fields) (hFinds : M.FindsIn R r a fields)
    (hFinds' : M.FindsIn R r b fields) : a = b := by
  induction fields with
  | nil => exact hFinds.trans hFinds'.symm
  | cons field fields ih =>
    obtain ⟨hField, hFields⟩ := List.forall_mem_cons.mp hFields
    rcases hFinds with ⟨s, hRecord, hShares⟩ | ⟨hNone, hFinds⟩
    · rcases hFinds' with ⟨s', hOther, hShares'⟩ | ⟨hNone, -⟩
      · refine h.unique hDup hField hRecord hOther ?_
        rw [← keyValue_of_same hr (hData.sound a s hRecord) hShares,
          keyValue_of_same hr (hData.sound b s' hOther) hShares']
      · exact absurd ⟨a, s, hRecord, hShares⟩ hNone
    · rcases hFinds' with ⟨s', hOther, hShares'⟩ | ⟨-, hFinds'⟩
      · exact absurd ⟨b, s', hOther, hShares'⟩ hNone
      · exact ih hFields hFinds hFinds'

end Unique

end RecordTable

namespace TableCall

open RecordTable

variable {M : RecordTable} {R R' : FAU → Option Record} {F : TableFiles} {position : Int} {c : TableCall}

/-- The record that a call writes is one of these. For a change of a field it depends on the files. -/
def Writes (U : Record → Prop) : TableCall → Prop
  | add r => U r
  | find _ _ | delete _ => True
  | change _ new _ => U new
  | changeField _ _ _ => False

/-- No search by a key field of the record leads to another address. -/
def PlaceFree (M : RecordTable) (position : Int) (r : Record) (a : FAU) (F : TableFiles) : Prop :=
  M.dup = false → ∀ field ∈ M.fields, ∀ s ∈ M.find position r field M.compareCase M.compareAlpha F,
    s.address = 0 ∨ s.address = a

/-- The records of a call are proper, it writes one of some records, the files have room for it, and a record
is not changed to one that has a key of a third. A field is changed in a record that there is, to data that a
field can hold. -/
def Safe (M : RecordTable) (U : Record → Prop) (position : Int) : TableCall → TableFiles → Prop
  | add r, F => U r ∧ M.Proper r ∧ M.Room r F
  | find r _, _ | delete r, _ => M.Proper r
  | change old new _, F => M.Proper old ∧ U new ∧ M.Proper new ∧ M.Room new F ∧
      ∀ found ∈ M.findRecordKey position old F, PlaceFree M position new found.address F
  | changeField data col a, F => (F.data.object (a + F.data.blockHeaderSize)).isSome ∧
      data.length + Field.overhead M.types ≤ vectorMax ∧ data.length < 256 ^ M.types.wordSize ∧
      ∀ new ∈ M.fieldRecord position data col a F,
        U new ∧ M.Proper new ∧ M.Room new F ∧ PlaceFree M position new a F

theorem PlaceFree.free (hM : M.Ready) (h : M.InSync R F) {r : Record} {a : FAU}
    (hPlace : PlaceFree M position r a F) (hr : M.Proper r) (hApart : M.Apart R r) : M.Free R a r := by
  intro hDup field hField b s hRecord hValue
  obtain ⟨c, err, hSearch, hBy⟩ := RecordTable.find_run hM h position hr.sound (hr.keyed field hField) hField
    M.compareCase M.compareAlpha
  rcases hBy with ⟨s', hOther, hShares⟩ | ⟨hNone, -⟩
  · have hAddress := hPlace hDup field hField _ hSearch
    obtain rfl : c = a := hAddress.resolve_left (h.data.bounds hM hOther).1.ne'
    refine h.indexes.unique hDup hField hRecord hOther ?_
    rw [hValue, keyValue_of_same hr.sound (h.data.sound c s' hOther) hShares]
  · exact absurd ⟨b, s, hRecord, hApart hDup field hField b s hRecord hValue⟩ hNone

section Within

variable {U : Record → Prop} (hAll : ∀ a r, R a = some r → U r)

include hAll

theorem within_update {b : FAU} {s : Record} (hs : U s) :
    ∀ a r, Function.update R b (some s) a = some r → U r := by
  intro a r hRecord
  by_cases hab : a = b
  · rw [hab, Function.update_self] at hRecord
    exact Option.some.inj hRecord ▸ hs
  · rw [Function.update_of_ne hab] at hRecord
    exact hAll a r hRecord

theorem within_erase (b : FAU) : ∀ a r, Function.update R b none a = some r → U r := by
  intro a r hRecord
  by_cases hab : a = b
  · rw [hab, Function.update_self] at hRecord
    cases hRecord
  · rw [Function.update_of_ne hab] at hRecord
    exact hAll a r hRecord

/-- The records after a call are those before and the one that it writes. -/
theorem within_of_serves {reply : TableReply} (h : M.Serves R c reply R') (hc : c.Writes U) :
    ∀ a r, R' a = some r → U r := by
  cases h with
  | taken | notFound | found | loaded | notDeleted | notChanged => exact hAll
  | added | addedInstead => exact within_update hAll hc
  | deleted => exact within_erase hAll _
  | changed => exact within_update (within_erase hAll _) hc
  | fieldMissing | fieldSet => exact absurd hc id

end Within

/-- A safe call returns, does to the records what it should, and leaves the files in sync. -/
theorem perform_run {U : Record → Prop} (hM : M.Ready) (hU : M.Separates U) (h : M.InSync R F)
    (hAll : ∀ a r, R a = some r → U r) (hSafe : c.Safe M U position F) :
    ∃ o R', c.perform M position F = some o ∧ M.Serves R c ⟨o.result, o.record, o.address⟩ R' ∧
      M.InSync R' o.files ∧ ∀ a r, R' a = some r → U r := by
  have hApart {r : Record} (hr : U r) : M.Apart R r := hU.apart hAll hr
  have hWithin (hc : c.Writes U) (hSettles : M.Settles R c (c.perform M position F)) :
      ∃ o R', c.perform M position F = some o ∧ M.Serves R c ⟨o.result, o.record, o.address⟩ R' ∧
        M.InSync R' o.files ∧ ∀ a r, R' a = some r → U r := by
    obtain ⟨o, R', hRun, hServes, hSync⟩ := hSettles
    exact ⟨o, R', hRun, hServes, hSync, within_of_serves hAll hServes hc⟩
  cases c with
  | add r =>
    obtain ⟨hr, hProper, hRoom⟩ := hSafe
    exact hWithin hr (addRecord_run hM h position hProper (hApart hr) hRoom)
  | find r loadRecord => exact hWithin trivial (findRecord_run hM h position hSafe loadRecord)
  | delete r => exact hWithin trivial (deleteRecord_run hM h position hSafe)
  | change old new orAdd =>
    obtain ⟨hOld, hIn, hNew, hRoom, hPlace⟩ := hSafe
    refine hWithin hIn (changeRecord_run hM position hNew h hOld (fun a hFinds => ?_) hRoom orAdd)
    obtain ⟨b, err, hFind, hFinds'⟩ := findRecordKey_run hM position hOld.sound h hOld.keyed
    intro hDup
    obtain rfl := FindsIn.unique hDup h.indexes h.data hOld.sound (fun _ => id) hFinds hFinds'
    exact (hPlace _ hFind).free hM h hNew (hApart hIn) hDup
  | changeField data col a =>
    obtain ⟨hBlock, hMax, hBytes, hMade⟩ := hSafe
    obtain ⟨disk, hDisk⟩ := Option.isSome_iff_exists.mp hBlock
    obtain ⟨s, hRecord, -⟩ := (h.data.blocks a disk).mp hDisk
    obtain ⟨o, R', hRun, hServes, hSync, hAfter⟩ := changeRecordField_run hM position h hRecord hMax hBytes col
      fun new hThis => by
        obtain ⟨hIn, hNew, hRoom, hPlace⟩ := hMade new hThis
        exact ⟨hNew, hPlace.free hM h hNew (hApart hIn), hRoom⟩
    refine ⟨o, R', hRun, hServes, hSync, ?_⟩
    rcases hAfter with rfl | ⟨new, hThis, b, rfl⟩
    · exact hAll
    · exact within_update (within_erase hAll a) (hMade new hThis).1

end TableCall

namespace RecordTable

variable {M : RecordTable} {F : TableFiles}

/-- The files of a new table. -/
structure New (M : RecordTable) (F : TableFiles) : Prop where
  usingIndex : F.usingIndex = true
  data : ∃ rev staticSize, staticSize + Revision.fileHeaderSize rev < 2 ^ 63 ∧
    F.data = Database.create rev staticSize
  length : F.indexes.length = M.fields.length
  indexes : ∀ t ∈ F.indexes, ∃ (L : FileLayout) (order keySize numTrees : Int) (allocsLeft : Option Nat),
    5 ≤ order ∧ 1 ≤ numTrees ∧ Btree.create L order keySize numTrees allocsLeft = .ok () t

theorem New.inSync (h : M.New F) : M.InSync (fun _ => none) F := by
  obtain ⟨rev, staticSize, hStatic, hData⟩ := h.data
  have hIntact := Database.create_intact rev hStatic
  have hNone : ∀ (a : FAU) (r : Record), (none : Option Record) ≠ some r := fun a r hSome => by cases hSome
  refine ⟨h.usingIndex, ⟨?_, fun a r hSome => absurd hSome (hNone a r), fun a l => ?_⟩,
    fun a r hSome => absurd hSome (hNone a r), ?_⟩
  · rw [hData]
    exact ⟨_, _, hIntact⟩
  · rw [hData, hIntact.holds.object_eq_none_iff.mpr fun b hb => absurd hb List.not_mem_nil]
    constructor
    · intro hSome
      cases hSome
    · rintro ⟨r, hSome, -⟩
      cases hSome
  · refine List.forall₂_iff_get.mpr ⟨h.length.symm, fun i hi hi' => ?_⟩
    obtain ⟨L, order, keySize, numTrees, allocsLeft, hOrder, hTrees, hCreate⟩ := h.indexes _ (List.get_mem _ ⟨i, hi'⟩)
    refine ⟨KeySet.empty, Btree.create_stores hOrder hTrees hCreate, fun key => ?_⟩
    constructor
    · exact fun hMem => absurd hMem List.not_mem_nil
    · rintro ⟨a, r, hSome, -⟩
      cases hSome

instance (n : Nat) (f : IndexFile RdbmsKey) : Decidable (f.Room n) :=
  decidable_of_iff ((∀ k ∈ f.allocsLeft, n ≤ k) ∧ 0 ≤ f.blockLength ∧ f.eof + n * f.blockLength ≤ maxFAU)
    ⟨fun h => ⟨h.1, h.2.1, h.2.2⟩, fun h => ⟨h.allocsLeft, h.blockLength, h.eof⟩⟩

instance (r : Record) : Decidable (M.Room r F) :=
  decidable_of_iff (F.data.fileHeader.gxdEof + (r.diskLength M.types + F.data.overhead) < 2 ^ 63 ∧
      ∀ t ∈ F.indexes, t.f.Room maxLevels) ⟨fun h => ⟨h.1, h.2⟩, fun h => ⟨h.data, h.indexes⟩⟩

instance (r : Record) : Decidable (M.Keyed r) := inferInstanceAs (Decidable (∀ field ∈ M.fields, _))

instance (field : Nat) (r s : Record) : Decidable (M.Shares field r s) :=
  inferInstanceAs (Decidable (Record.SameKey M.types M.compareCase field r s))

instance (position : Int) (r : Record) (a : FAU) : Decidable (TableCall.PlaceFree M position r a F) :=
  inferInstanceAs (Decidable (M.dup = false → ∀ field ∈ M.fields, ∀ s ∈ (_ : Option Found), _))

/-- A record of two fields of one byte. -/
def pairRecord (a b : UInt8) : Record := Record.ofFields .portable [(.bool, [a]), (.bool, [b])]

/-- A table with a key for each of the two fields. -/
def pairTable : RecordTable where
  types := .portable
  created := (.noError, pairRecord 0 0)
  numTrees := 2
  primaryKey := 1
  compareCase := true
  compareAlpha := true
  tableName := [116]
  recordDef := [116]
  secKeyFields := [2]
  dup := false
  method := .none
  useBinarySearch := true
  useSingleCompare := true

def pairFiles : TableFiles := ⟨Database.create .E 0, .noError, true, [boolTree, boolTree]⟩

theorem pairRecord_wellFormed (a b : UInt8) : (pairRecord a b).WellFormed .portable := by
  have hMax : 2 ≤ recordMaxFields := by decide
  have hField : Field.overhead .portable + 1 ≤ vectorMax := by decide
  refine Record.ofFields_wellFormed hMax fun f hf => ?_
  rcases List.mem_pair.mp hf with rfl | rfl <;> exact hField

theorem pairRecord_proper {a b : UInt8} (hLength : (pairRecord a b).diskLength .portable ≤ vectorMax)
    (hKeyed : pairTable.Keyed (pairRecord a b)) : pairTable.Proper (pairRecord a b) :=
  ⟨⟨pairRecord_wellFormed a b, ⟨⟨rfl, rfl, rfl⟩, rfl⟩, hLength, fun _ _ _ _ _ => rfl⟩, hKeyed⟩

theorem pairTable_ready : pairTable.Ready where
  table := ⟨rfl, pairRecord_wellFormed 0 0, by decide, rfl⟩
  recordDef := rfl
  numTrees := by decide
  columns := by decide
  dup := by decide

theorem pairFiles_new : pairTable.New pairFiles where
  usingIndex := rfl
  data := ⟨.E, 0, by decide, rfl⟩
  length := by decide
  indexes := by
    intro t ht
    obtain rfl : t = boolTree := by
      rcases List.mem_pair.mp ht with rfl | rfl <;> rfl
    exact ⟨.ofRevision .E 11 24, 11, 24, 1, none, by decide, by decide, rfl⟩

end RecordTable

end DataReel
