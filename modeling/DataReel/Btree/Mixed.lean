import DataReel.Btree.Reachable

/-! # Both kinds of deletion on one tree

Unbalanced deletion leaves nodes without keys. Insertion and unbalanced
deletion take them into account. Balanced deletion does not: it needs a key in
the leaf that gives one to an inner node and in every parent of a node that is
to be balanced.
-/

namespace DataReel

variable {κ : Type} {O : OtherTrees κ} {K : KeyClass κ}

def Call.Update : Call κ → Prop
  | .insert _ _ | .delete _ _ | .fastDelete _ _ => True
  | _ => False

/-- The call finds space and reads enough, and balanced deletion does not rely on a node that an
unbalanced deletion has emptied. -/
structure MixedSafe (K : KeyClass κ) (c : Call κ) (t : Btree κ) : Prop where
  reads : 2 * t.height ≤ gxBtreeMaxNodeReads
  alloc : NoAllocFailure K c t
  delete : ∀ key flushdb, c = .delete key flushdb → DeleteSafe K t key.dbKey

theorem mixed_simulates (hK : K.StrictOrder) :
    (gxBtree K).Simulates (KeySet.machine hK.strict) (fun c t => c.Update ∧ MixedSafe K c t)
      (Represents O K.comparison 0) := by
  have hAgree : ∀ {c : Call κ} {t : Btree κ} {A : KeySet K.comparison},
      Represents O K.comparison 0 t A → c.Update ∧ MixedSafe K c t →
      Agree O 0 ((gxBtree K).step c t) ((KeySet.machine hK.strict).step c A) := by
    rintro c t A hR ⟨hUpdate, hReads, hAlloc, hDelete⟩
    have hW := hR.wellFormed
    cases c with
    | insert key flushdb =>
      exact insert_agrees hK hR hReads key (splitsKeep_of_few (Nat.zero_le 1) hW _) flushdb hAlloc
    | delete key flushdb =>
      exact delete_agrees_of_run hK hR flushdb (deleteDatabaseKey_run hK (few_le_half (Nat.zero_le 1) t) hW
        (by omega) (hDelete key flushdb rfl) key.rightChild)
    | fastDelete key flushdb =>
      exact delete_agrees_of_run hK hR flushdb (fastDeleteDatabaseKey_run hK hW hReads key.rightChild)
    | _ => exact absurd hUpdate id
  exact ⟨fun hR hCall => (hAgree hR hCall).1, fun hR hCall => (hAgree hR hCall).2⟩

theorem KeySet.machine_defined {C : Comparison κ} (hC : C.Strict) (c : Call κ) (A : KeySet C) :
    ((KeySet.machine hC).step c A).1 ≠ .undefined := by
  have hAnswer (o : Option κ) : KeySet.answer o ≠ .undefined := by
    cases o <;> simp [KeySet.answer]
  cases c with
  | insert key flushdb =>
    change (KeySet.insertKey hC key.dbKey A).1 ≠ _
    rw [KeySet.insertKey]
    split <;> simp
  | delete key flushdb =>
    change (KeySet.deleteKey key.dbKey A).1 ≠ _
    rw [KeySet.deleteKey]
    split <;> simp
  | fastDelete key flushdb =>
    change (KeySet.deleteKey key.dbKey A).1 ≠ _
    rw [KeySet.deleteKey]
    split <;> simp
  | _ => exact hAnswer _

theorem KeySet.run_defined {C : Comparison κ} (hC : C.Strict) (calls : List (Call κ)) (A : KeySet C) :
    Reply.undefined ∉ ((KeySet.machine hC).run calls A).1 := by
  induction calls generalizing A with
  | nil => exact List.not_mem_nil
  | cons c calls ih =>
    intro hMem
    rcases List.mem_cons.mp hMem with hFirst | hRest
    · exact KeySet.machine_defined hC c A hFirst.symm
    · exact ih _ hRest

/-- Runs that mix both deletions behave as a set where every call is safe. -/
theorem mixed_refines_keySet (hK : K.StrictOrder) {L : FileLayout} {order keySize numTrees : Int}
    {allocsLeft : Option Nat} {t : Btree κ} (hOrder : 5 ≤ order)
    (hCreate : Btree.create L order keySize numTrees allocsLeft = .ok () t) {calls : List (Call κ)}
    (hCalls : ∀ c ∈ calls, c.Update) (hSafe : (gxBtree K).Along (MixedSafe K) calls t) :
    ((gxBtree K).run calls t).1 = ((KeySet.machine hK.strict).run calls KeySet.empty).1 ∧
      ((gxBtree K).run calls t).2.keys = ((KeySet.machine hK.strict).run calls KeySet.empty).2.keys ∧
      Reply.undefined ∉ ((gxBtree K).run calls t).1 := by
  obtain ⟨O, hW, hKeys, -⟩ := Btree.create_run (C := K.comparison) hOrder hCreate 0
  have hAlong : (gxBtree K).Along (fun c t => c.Update ∧ MixedSafe K c t) calls t :=
    (Machine.along_of_forall hCalls t).and hSafe
  obtain ⟨hReplies, hLast⟩ := (mixed_simulates hK).run (t := KeySet.empty) ⟨hW, hKeys⟩ hAlong
  exact ⟨hReplies, hLast.keys, hReplies ▸ KeySet.run_defined hK.strict calls KeySet.empty⟩

/-- The balanced deletion may come before the unbalanced one. -/
theorem mixed_refines_keySet_int :
    ((gxBtree KeyClass.int).run [.insert ⟨0, 1⟩ false, .insert ⟨0, 2⟩ false, .delete ⟨0, 1⟩ false,
      .fastDelete ⟨0, 2⟩ false] (intTree 5 none)).1 = [.done, .done, .done, .done] := by
  have hT : Reachable KeyClass.int (BalancedUpdate KeyClass.int)
      ((gxBtree KeyClass.int).run [.insert ⟨0, 1⟩ false, .insert ⟨0, 2⟩ false] (intTree 5 none)).2 :=
    (Reachable.created (by decide) create_intTree).run
      ⟨⟨trivial, by decide⟩, ⟨trivial, by decide⟩, trivial⟩
  obtain ⟨O, hW, -⟩ := hT.balanced KeyClass.int_strictOrder
  have hDelete : DeleteSafe KeyClass.int _ 1 := deleteSafe_of_keys hW 1
  refine (mixed_refines_keySet KeyClass.int_strictOrder (by decide) create_intTree
    (by simp [Call.Update]) ?_).1.trans (by decide)
  refine ⟨⟨by decide, by decide, nofun⟩, ⟨by decide, by decide, nofun⟩, ⟨by decide, by decide, ?_⟩,
    ⟨by decide, by decide, nofun⟩, trivial⟩
  intro key flushdb hCall
  cases hCall
  exact hDelete

/-- A leaf that two unbalanced deletions emptied is asked for its first key by the balanced one. -/
theorem mixed_undefined_int :
    let calls : List (Call Int) := [.insert ⟨0, 1⟩ false, .insert ⟨0, 2⟩ false, .insert ⟨0, 3⟩ false,
      .insert ⟨0, 4⟩ false, .insert ⟨0, 5⟩ false, .fastDelete ⟨0, 4⟩ false, .fastDelete ⟨0, 5⟩ false,
      .delete ⟨0, 3⟩ false]
    ((gxBtree KeyClass.int).run calls (intTree 5 none)).1 =
        [.done, .done, .done, .done, .done, .done, .done, .undefined] ∧
      ((KeySet.machine KeyClass.int_strictOrder.strict).run calls KeySet.empty).1 =
        [.done, .done, .done, .done, .done, .done, .done, .done] := by
  decide

end DataReel
