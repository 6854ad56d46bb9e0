import DataReel.Btree.Calls
import DataReel.Btree.FastDeleteRun
import DataReel.Btree.Full
import DataReel.Btree.InsertRun
import DataReel.Btree.Searches

/-! # Trees behave as finite sets

Each call answers as the set does and leaves a tree that represents the set
after the call. Runs follow by simulation.
-/

namespace DataReel

variable {κ : Type} {O : OtherTrees κ} {K : KeyClass κ} {C : Comparison κ} {lo : Nat}

/-- The keys of the tree are those of the set. -/
structure Represents (O : OtherTrees κ) (C : Comparison κ) (lo : Nat) (t : Btree κ) (A : KeySet C) : Prop where
  wellFormed : t.WellFormed O C lo
  keys : t.keys = A.keys

namespace Represents

variable {t : Btree κ} {A : KeySet C} (hR : Represents O C lo t A)

include hR

theorem keySet_eq : hR.wellFormed.keySet = A := KeySet.ext hR.keys

theorem nKeys : t.header.nKeys = A.keys.length := by rw [hR.wellFormed.nKeys, hR.keys]

theorem flush (flushdb : Bool) : Represents O C lo (if flushdb then t.flush else t) A := by
  split
  · obtain ⟨hOrder, hPos, hSub, hSorted, hBlocks, hKeys, hNodes⟩ := hR.wellFormed
    exact ⟨⟨hOrder, hPos, hSub, hSorted, hBlocks.setHeader _ _, hKeys, hNodes⟩, hR.keys⟩
  · exact hR

end Represents

/-! ## Updates -/

section Update

variable {t t' : Btree κ} {x : BtreeM κ (DatabaseKey κ)}

theorem updated_ok {k : DatabaseKey κ} (hRun : x t = .ok k t') (flushdb : Bool) :
    updated flushdb x t = (.done, if flushdb then t'.flush else t') := by
  rw [updated, flushed, Exec.bind_ok hRun]
  cases flushdb <;> rfl

theorem updated_error {e : DatabaseError} (hRun : x t = .error (.error e) t') (flushdb : Bool) :
    updated flushdb x t = (.zero, t') := by
  rw [updated, flushed, Exec.bind_error hRun]
  rfl

theorem updated_undefined (hRun : x t = .error .badEntry t') (flushdb : Bool) :
    updated flushdb x t = (.undefined, t') := by
  rw [updated, flushed, Exec.bind_error hRun]
  rfl

theorem flush_allocFailed (flushdb : Bool) (t : Btree κ) :
    (if flushdb then t.flush else t).f.allocFailed = t.f.allocFailed := by
  cases flushdb <;> rfl

end Update

/-- A call on a tree answers as the call on the set does and the results correspond. -/
def Agree (O : OtherTrees κ) (lo : Nat) (p : Reply κ × Btree κ) (q : Reply κ × KeySet C) : Prop :=
  p.1 = q.1 ∧ Represents O C lo p.2 q.2

section Steps

variable {t : Btree κ} (hK : K.StrictOrder) {A : KeySet K.comparison}
  (hR : Represents O K.comparison lo t A)

include hK hR

theorem insert_agrees (hReads : 2 * t.height ≤ gxBtreeMaxNodeReads) (key : DatabaseKey κ)
    (hKeep : SplitsKeep K lo t key.dbKey) (flushdb : Bool)
    (hAlloc : (updated flushdb (insertDatabaseKey K key) t).2.f.allocFailed = false) :
    Agree O lo (updated flushdb (insertDatabaseKey K key) t) (KeySet.insertKey hK.strict key.dbKey A) := by
  obtain ⟨c, key⟩ := key
  have hC := hK.strict
  rcases insertDatabaseKey_run hK hR.wellFormed hReads c key hKeep with
    ⟨l, x, r, hKeys, hEq, hRun⟩ | ⟨l, r, hKeys, hl, hr, hOutcome⟩
  · rw [hR.keys] at hKeys
    rw [updated_error hRun, KeySet.insertKey, KeySet.find_of_split hC hKeys hEq]
    exact ⟨rfl, hR⟩
  · rw [hR.keys] at hKeys
    rw [KeySet.insertKey, KeySet.find_of_miss hC hKeys hl hr]
    have hInsert := KeySet.insert_of_miss hC hKeys hl hr
    generalize hRun : insertDatabaseKey K ⟨c, key⟩ t = res at hOutcome
    cases hOutcome with
    | inserted hW hNew _ =>
      rw [updated_ok hRun]
      exact ⟨rfl, Represents.flush ⟨hW, hNew.trans hInsert.symm⟩ flushdb⟩
    | unharmed _ _ =>
      rw [updated_error hRun] at hAlloc
      cases hAlloc
    | keysLost _ hFailed _ =>
      rw [updated_error hRun, hFailed] at hAlloc
      cases hAlloc
    | rootLost _ hFailed _ =>
      rw [updated_ok hRun, flush_allocFailed, hFailed] at hAlloc
      cases hAlloc

/-- What both kinds of deletion have in common. -/
theorem delete_agrees_of_run {key : κ} {x : BtreeM κ (DatabaseKey κ)} (flushdb : Bool)
    (hRun : (∃ l y r, t.keys = l ++ y :: r ∧ K.comparison.eqv key y = true ∧
        ∃ k t', x t = .ok k t' ∧ t'.WellFormed O K.comparison lo ∧ t'.keys = l ++ r ∧
          t'.f.allocFailed = t.f.allocFailed) ∨
      ∃ l r, t.keys = l ++ r ∧ (∀ y ∈ l, K.comparison.lt y key = true) ∧
        (∀ y ∈ r, K.comparison.lt key y = true) ∧ x t = .error (.error .entryNotFound) t) :
    Agree O lo (updated flushdb x t) (KeySet.deleteKey key A) := by
  have hC := hK.strict
  rcases hRun with ⟨l, y, r, hKeys, hEq, k, t', hRun, hW, hNew, -⟩ | ⟨l, r, hKeys, hl, hr, hRun⟩
  · rw [hR.keys] at hKeys
    rw [updated_ok hRun, KeySet.deleteKey, KeySet.find_of_split hC hKeys hEq]
    refine ⟨rfl, Represents.flush ⟨hW, ?_⟩ flushdb⟩
    exact hNew.trans (KeySet.erase_of_split hC hKeys hEq).symm
  · rw [hR.keys] at hKeys
    rw [updated_error hRun, KeySet.deleteKey, KeySet.find_of_miss hC hKeys hl hr]
    exact ⟨rfl, hR⟩

omit hK in
theorem search_agrees {x : BtreeM κ (DatabaseKey κ × CurrNode κ)} {o : Option κ}
    (hAnswers : Answers K.comparison lo t (x t) o) : Agree O lo (searched x t) (KeySet.answer o, A) := by
  cases o with
  | none =>
    obtain ⟨e, hRun⟩ := hAnswers
    rw [searched, hRun]
    exact ⟨rfl, hR⟩
  | some k =>
    obtain ⟨y, curr, hRun, rfl, -⟩ := hAnswers
    rw [searched, hRun]
    exact ⟨rfl, hR⟩

end Steps

/-! ## Insertion, balanced deletion and searches -/

/-- Every call but the unbalanced deletion. -/
def Call.Balanced : Call κ → Prop
  | .fastDelete _ _ => False
  | _ => True

/-- The call meets no failure of the engine's `Alloc`. -/
def NoAllocFailure (K : KeyClass κ) (c : Call κ) (t : Btree κ) : Prop :=
  ((gxBtree K).step c t).2.f.allocFailed = false

instance (K : KeyClass κ) (c : Call κ) (t : Btree κ) : Decidable (NoAllocFailure K c t) :=
  inferInstanceAs (Decidable (_ = false))

theorem balanced_simulates (hK : K.StrictOrder) :
    (gxBtree K).Simulates (KeySet.machine hK.strict)
      (fun c t => c.Balanced ∧ NoAllocFailure K c t) (Represents O K.comparison 1) := by
  have hAgree : ∀ {c : Call κ} {t : Btree κ} {A : KeySet K.comparison},
      Represents O K.comparison 1 t A → c.Balanced ∧ NoAllocFailure K c t →
      Agree O 1 ((gxBtree K).step c t) ((KeySet.machine hK.strict).step c A) := by
    intro c t A hR hCall
    have hW := hR.wellFormed
    have hReads := hW.reads_le
    have hHeight := hW.height_le
    have hReady := ready_of_keys hW
    have hMax : t.height + 1 ≤ gxBtreeMaxNodeReads := by
      rw [gxBtreeMaxNodeReads]
      omega
    have hLive := CurrNode.live_new (C := K.comparison) 1 t
    obtain ⟨hBalanced, hAlloc⟩ := hCall
    cases c with
    | insert key flushdb =>
      exact insert_agrees hK hR hReads key (splitsKeep_of_few (Nat.le_refl 1) hW _) flushdb hAlloc
    | delete key flushdb =>
      exact delete_agrees_of_run hK hR flushdb (deleteDatabaseKey_run hK (few_le_half (Nat.le_refl 1) t) hW (by omega)
        (deleteSafe_of_keys hW key.dbKey) key.rightChild)
    | fastDelete key flushdb => exact absurd hBalanced id
    | find key =>
      have hRun := find_run key hK hW (by omega) hLive
      exact search_agrees hR (hR.keySet_eq ▸ hRun)
    | findFirst =>
      have hRun := (findFirst_run hW (by omega)).1 hReady.first
      exact search_agrees hR (hR.keySet_eq ▸ hRun)
    | findLast =>
      have hRun := (findLast_run hW (by omega)).1 hReady.last
      exact search_agrees hR (hR.keySet_eq ▸ hRun)
    | findNext key =>
      have hRun := findNext_run key hK hW hReady hMax hLive
      exact search_agrees hR (hR.keySet_eq ▸ hRun)
    | findPrev key =>
      have hRun := findPrev_run key hK hW hReady hReads hLive
      exact search_agrees hR (hR.keySet_eq ▸ hRun)
  exact ⟨fun hR hCall => (hAgree hR hCall).1, fun hR hCall => (hAgree hR hCall).2⟩

end DataReel
