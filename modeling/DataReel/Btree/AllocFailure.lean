import DataReel.Btree.Mixed

/-! # Insertion without space

An insertion allocates one block for each node it splits and one for a new
root. It has written both halves of a node before it learns that a block is
missing further up, and the result of the allocation for a new root is not
looked at. So only the first allocation of a call may fail without harm.
-/

namespace DataReel

variable {κ : Type} {K : KeyClass κ}

/-- Updates that find space and do not take away what another one needs. -/
def MixedUpdate (K : KeyClass κ) (c : Call κ) (t : Btree κ) : Prop := c.Update ∧ MixedSafe K c t

theorem Reachable.mixed (hK : K.StrictOrder) {t : Btree κ} (hT : Reachable K (MixedUpdate K) t) :
    ∃ O : OtherTrees κ, t.WellFormed O K.comparison 0 ∧ t.f.allocFailed = false := by
  induction hT with
  | created hOrder hCreate =>
    obtain ⟨O, hW, -, hFailed, -⟩ := Btree.create_run (C := K.comparison) hOrder hCreate 0
    exact ⟨O, hW, hFailed⟩
  | called c _ hCall ih =>
    obtain ⟨O, hW, -⟩ := ih
    have hNext := (mixed_simulates hK).next (t := hW.keySet) ⟨hW, rfl⟩ hCall
    exact ⟨O, hNext.wellFormed, hCall.2.alloc⟩

/-- The call returns 0 and leaves the tree as it was: its keys, a root, counters that describe it,
and nothing written at address 0. -/
structure Unharmed (t : Btree κ) (result : Reply κ × Btree κ) : Prop where
  zero : result.1 = .zero
  keys : result.2.keys = t.keys
  root : result.2.header.root ≠ 0
  subtree : Subtree result.2.f.node 0 result.2.order 0 result.2.height result.2.header.root
  nKeys : result.2.header.nKeys = result.2.keys.length
  nNodes : result.2.header.nNodes = result.2.nodes.length
  noWrite : result.2.f.node 0 = t.f.node 0

theorem Btree.WellFormed.root_ne_zero {C : Comparison κ} {lo : Nat} {O : OtherTrees κ} {t : Btree κ}
    (hW : t.WellFormed O C lo) : t.header.root ≠ 0 := by
  intro hZero
  have hHeight := (Subtree.eq_zero_iff hW.subtree).mp hZero
  have hPos := hW.height_pos
  have hEq := hW.height_eq
  omega

/-- An insertion that runs out of space does no harm exactly if the first block it asks for is the
one that is missing. -/
theorem insert_unharmed_iff (hK : K.StrictOrder) {t : Btree κ} (hT : Reachable K (MixedUpdate K) t)
    (hReads : 2 * t.height ≤ gxBtreeMaxNodeReads) (key : DatabaseKey κ) (flushdb : Bool)
    (hFailure : ¬ NoAllocFailure K (.insert key flushdb) t) :
    Unharmed t ((gxBtree K).step (.insert key flushdb) t) ↔ t.f.alloc.1 = 0 := by
  obtain ⟨O, hW, hNotFailed⟩ := hT.mixed hK
  obtain ⟨c, key⟩ := key
  change ¬ (updated flushdb (insertDatabaseKey K ⟨c, key⟩) t).2.f.allocFailed = false at hFailure
  change Unharmed t (updated flushdb (insertDatabaseKey K ⟨c, key⟩) t) ↔ _
  rcases insertDatabaseKey_run hK hW hReads c key (splitsKeep_of_few (Nat.zero_le 1) hW key) with
    ⟨l, x, r, -, -, hRun⟩ | ⟨l, r, hKeys, -, -, hOutcome⟩
  · rw [updated_error hRun] at hFailure
    exact absurd hNotFailed hFailure
  · generalize hRun : insertDatabaseKey K ⟨c, key⟩ t = res at hOutcome
    cases hOutcome with
    | inserted _ _ hSame =>
      rw [updated_ok hRun, flush_allocFailed, hSame] at hFailure
      exact absurd hNotFailed hFailure
    | unharmed _ hAlloc =>
      rw [updated_error hRun]
      exact iff_of_true ⟨rfl, rfl, hW.root_ne_zero, hW.subtree.mono (Nat.zero_le _), hW.nKeys,
        hW.nNodes, rfl⟩ hAlloc
    | keysLost hFirst _ hLost =>
      rw [updated_error hRun]
      refine iff_of_false (fun hUnharmed => ?_) (hFirst rfl)
      have hSame := congrArg List.length hUnharmed.keys
      have hLength := congrArg List.length hKeys
      simp only [List.length_append, List.length_cons] at hLost hLength hSame
      omega
    | rootLost hFirst _ _ =>
      rw [updated_ok hRun]
      exact iff_of_false (fun hUnharmed => nomatch hUnharmed.zero) (hFirst rfl)

/-- The leaf of a tree with four keys is full and there is no block to split it. -/
theorem insert_unharmed_iff_int :
    let t := ((gxBtree KeyClass.int).run [.insert ⟨0, 1⟩ false, .insert ⟨0, 2⟩ false,
      .insert ⟨0, 3⟩ false, .insert ⟨0, 4⟩ false] (intTree 5 (some 1))).2
    (Unharmed t ((gxBtree KeyClass.int).step (.insert ⟨0, 5⟩ false) t) ↔
      t.f.alloc.1 = 0) ∧ t.f.alloc.1 = 0 := by
  intro t
  have hT : Reachable KeyClass.int (MixedUpdate KeyClass.int) t :=
    (Reachable.created (by decide)
        (show Btree.create (.ofRevision .E 5 16) 5 16 1 (some 1) = .ok () (intTree 5 (some 1)) from
          rfl)).run
      ⟨⟨trivial, by decide, by decide, nofun⟩, ⟨trivial, by decide, by decide, nofun⟩,
        ⟨trivial, by decide, by decide, nofun⟩, ⟨trivial, by decide, by decide, nofun⟩, trivial⟩
  exact ⟨insert_unharmed_iff KeyClass.int_strictOrder hT (by decide) ⟨0, 5⟩ false (by decide),
    by decide⟩

/-- There is one block more, for the new leaf, and none for the root above it: the call returns 1
and the tree is gone. -/
theorem insert_root_lost_int :
    let t := ((gxBtree KeyClass.int).run [.insert ⟨0, 1⟩ false, .insert ⟨0, 2⟩ false,
      .insert ⟨0, 3⟩ false, .insert ⟨0, 4⟩ false] (intTree 5 (some 2))).2
    let result := (gxBtree KeyClass.int).step (.insert ⟨0, 5⟩ false) t
    Reachable KeyClass.int (MixedUpdate KeyClass.int) t ∧ result.2.f.allocFailed = true ∧
      result.1 = .done ∧ result.2.header.root = 0 ∧ t.f.node 0 = none ∧
      (result.2.f.node 0).isSome ∧ ¬ Unharmed t result := by
  intro t result
  have hT : Reachable KeyClass.int (MixedUpdate KeyClass.int) t :=
    (Reachable.created (by decide)
        (show Btree.create (.ofRevision .E 5 16) 5 16 1 (some 2) = .ok () (intTree 5 (some 2)) from
          rfl)).run
      ⟨⟨trivial, by decide, by decide, nofun⟩, ⟨trivial, by decide, by decide, nofun⟩,
        ⟨trivial, by decide, by decide, nofun⟩, ⟨trivial, by decide, by decide, nofun⟩, trivial⟩
  refine ⟨hT, by decide, by decide, by decide, by decide, by decide, fun hUnharmed => ?_⟩
  have hRoot : result.2.header.root = 0 := by decide
  exact hUnharmed.root hRoot

end DataReel
