import DataReel.Btree.Room
import DataReel.Btree.TreesRun

/-! # The keys of an index file

An index with room for what a call inserts is a set of keys. A refused call
leaves the object as it was.
-/

namespace DataReel

variable {κ : Type} {K : KeyClass κ}

/-- A tree that a call may start from has the keys of the set, and no `Alloc` has failed so far. -/
structure Btree.Stores (K : KeyClass κ) (t : Btree κ) (A : KeySet K.comparison) : Prop where
  represents : ∃ O : OtherTrees κ, Represents O K.comparison 1 t A
  free : t.FreeKept
  allocFailed : t.f.allocFailed = false

theorem KeySet.erase_congr {C : Comparison κ} (hC : C.Strict) (A : KeySet C) {j k : κ}
    (hEq : C.eqv j k = true) : A.erase j = A.erase k := by
  refine KeySet.ext (List.filter_congr fun a _ => congrArg (!·) ?_)
  rw [Bool.eq_iff_iff]
  exact ⟨hC.eqv_trans (hC.eqv_symm hEq), hC.eqv_trans hEq⟩

namespace Btree.Stores

variable {t : Btree κ} {A : KeySet K.comparison} (h : t.Stores K A) (hK : K.StrictOrder)

include h

theorem keys : t.keys = A.keys := by
  obtain ⟨O, hR⟩ := h.represents
  exact hR.keys

include hK

theorem find (key : κ) : (gxBtree K).step (.find key) t = (KeySet.answer (A.find key), t) := by
  obtain ⟨O, hR⟩ := h.represents
  have hW := hR.wellFormed
  have hHeight := hW.height_le
  have hMax : t.height ≤ gxBtreeMaxNodeReads := by
    rw [gxBtreeMaxNodeReads]
    omega
  have hRun := find_run key hK hW hMax (CurrNode.live_new (C := K.comparison) 1 t)
  rw [hR.keySet_eq] at hRun
  refine Prod.ext (search_agrees hR hRun).1 ?_
  exact call_state K (c := .find key) id h.free

theorem insert {key : κ} (hNew : A.find key = none) (hRoom : t.f.Room maxLevels) (c : FAU) :
    ∃ t', (gxBtree K).step (.insert ⟨c, key⟩ false) t = (.done, t') ∧
      t'.Stores K (A.insert hK.strict key) ∧ ∀ n, t.f.Room (maxLevels + n) → t'.f.Room n := by
  obtain ⟨O, hR⟩ := h.represents
  have hAlloc := insertDatabaseKey_room hK hR.wellFormed ⟨hRoom, h.allocFailed⟩ ⟨c, key⟩
  obtain ⟨hAnswer, hNext⟩ := insert_agrees hK hR hR.wellFormed.reads_le ⟨c, key⟩
    (splitsKeep_of_few (Nat.le_refl 1) hR.wellFormed key) false hAlloc
  rw [KeySet.insertKey, hNew] at hAnswer hNext
  refine ⟨_, Prod.ext hAnswer rfl, ⟨⟨O, hNext⟩, ?_, hAlloc⟩, fun n hMore => ?_⟩
  · exact (call_fixed K (.insert ⟨c, key⟩ false) h.free).2
  · exact ((insertDatabaseKey_roomy hK hR.wellFormed ⟨hMore, h.allocFailed⟩ ⟨c, key⟩).2 hAnswer).1

theorem insert_refused {key k : κ} (hOld : A.find key = some k) (c : FAU) :
    (gxBtree K).step (.insert ⟨c, key⟩ false) t = (.zero, t) := by
  obtain ⟨O, hR⟩ := h.represents
  rcases insertDatabaseKey_run hK hR.wellFormed hR.wellFormed.reads_le c key
    (splitsKeep_of_few (Nat.le_refl 1) hR.wellFormed key) with
    ⟨l, x, r, -, -, hRun⟩ | ⟨l, r, hKeys, hl, hr, -⟩
  · exact updated_error hRun false
  · rw [hR.keys] at hKeys
    rw [KeySet.find_of_miss hK.strict hKeys hl hr] at hOld
    cases hOld

theorem delete {key k : κ} (hOld : A.find key = some k) (c : FAU) :
    ∃ t', (gxBtree K).step (.delete ⟨c, key⟩ false) t = (.done, t') ∧ t'.Stores K (A.erase k) ∧
      ∀ n, t.f.Room n → t'.f.Room n := by
  obtain ⟨O, hR⟩ := h.represents
  have hW := hR.wellFormed
  have hHeight := hW.height_le
  have hRun := deleteDatabaseKey_run hK (few_le_half (Nat.le_refl 1) t) hW (by rw [gxBtreeMaxNodeReads]; omega)
    (deleteSafe_of_keys hW key) c
  obtain ⟨hAnswer, hNext⟩ := delete_agrees_of_run hK hR false hRun
  rw [KeySet.deleteKey, hOld] at hAnswer hNext
  rw [KeySet.erase_congr hK.strict A ((A.mem_find_iff hK.strict key k).mp hOld).2] at hNext
  have hFailed : (updated false (deleteDatabaseKey K ⟨c, key⟩) t).2.f.allocFailed = false := by
    rcases hRun with ⟨_, _, _, -, -, _, t', hRun, -, -, hSame⟩ | ⟨_, _, -, -, -, hRun⟩
    · rw [updated_ok hRun]
      exact hSame.trans h.allocFailed
    · rw [updated_error hRun]
      exact h.allocFailed
  refine ⟨_, Prod.ext hAnswer rfl, ⟨⟨O, hNext⟩, ?_, hFailed⟩, fun n hRoom => ?_⟩
  · exact (call_fixed K (.delete ⟨c, key⟩ false) h.free).2
  · exact (deleteDatabaseKey_room h.free ⟨hRoom, h.allocFailed⟩ ⟨c, key⟩).1

theorem delete_missing {key : κ} (hNone : A.find key = none) (c : FAU) :
    (gxBtree K).step (.delete ⟨c, key⟩ false) t = (.zero, t) := by
  obtain ⟨O, hR⟩ := h.represents
  have hW := hR.wellFormed
  have hHeight := hW.height_le
  rcases deleteDatabaseKey_run hK (few_le_half (Nat.le_refl 1) t) hW (by rw [gxBtreeMaxNodeReads]; omega)
    (deleteSafe_of_keys hW key) c with ⟨l, x, r, hKeys, hEq, -⟩ | ⟨l, r, -, -, -, hRun⟩
  · rw [hR.keys] at hKeys
    rw [KeySet.find_of_split hK.strict hKeys hEq] at hNone
    cases hNone
  · exact updated_error hRun false

end Btree.Stores

theorem Btree.create_stores {L : FileLayout} {order keySize numTrees : Int} {allocsLeft : Option Nat}
    {t : Btree κ} (hOrder : 5 ≤ order) (hTrees : 1 ≤ numTrees)
    (hCreate : Btree.create L order keySize numTrees allocsLeft = .ok () t) :
    t.Stores K KeySet.empty := by
  obtain ⟨O, hW, hKeys, hFailed, -⟩ := Btree.create_run (C := K.comparison) hOrder hCreate 1
  obtain ⟨H, hForest⟩ := create_forest (C := K.comparison) hOrder hTrees hCreate
  exact ⟨⟨O, hW, hKeys⟩, hForest.free, hFailed⟩

end DataReel
