import DataReel.Database.HeapRun

/-! # A block that is deleted and undeleted

Calls on other objects change the link in the header of a deleted block and
nothing else of it, so that `UnDelete` finds it wherever it is on the list.
-/

namespace DataReel

namespace Database

/-- The addresses on the free space list from one on. -/
def freeListFrom (d : Database) : Nat → Int → List Int
  | 0, _ => []
  | n + 1, a =>
    if a = 0 then []
    else
      match d.nextFptr a with
      | none => [a]
      | some next => a :: freeListFrom d n next

def freeList (d : Database) : List Int :=
  d.freeListFrom (d.fileSize.toNat + 1) d.fileHeader.gxdFsFptr

end Database

namespace HeapCall

/-- An allocation takes no block off the list. -/
def Extends (c : Int × HeapCall) (d : Database) : Prop :=
  match c.2 with
  | .alloc bytes method =>
    (d.reclaim (d.fileSize.toNat + 1) c.1 ((bytes + d.overhead) % 2 ^ 64) method).map Prod.fst = some 0
  | .delete _ | .remove _ | .unDelete _ => True

instance (d : Database) : ∀ c, Decidable (Extends c d)
  | (position, .alloc bytes method) =>
    inferInstanceAs (Decidable ((d.reclaim (d.fileSize.toNat + 1) position
      ((bytes + d.overhead) % 2 ^ 64) method).map Prod.fst = some 0))
  | (_, .delete _) | (_, .remove _) | (_, .unDelete _) => .isTrue trivial

/-- Calls that do not reclaim, and not on the object `o`. -/
def Spares (o : Int) (c : Int × HeapCall) (d : Database) : Prop :=
  Allowed c d ∧ c.2.target ≠ some o ∧ Extends c d

instance (o : Int) (c : Int × HeapCall) (d : Database) : Decidable (Spares o c d) :=
  inferInstanceAs (Decidable (_ ∧ _ ∧ _))

end HeapCall

namespace Database

open HeapCall

variable {d d' e : Database} {blocks l l' : List (Int × BlockHeader)} {free pre post : List Int}
  {a : Int} {hdr : BlockHeader} {b : Int × BlockHeader} {prev : Option (Int × BlockHeader)} {n : Nat}

theorem freeListFrom_eq (hChain : Segment d.nextFptr a free 0) (hPos : ∀ x ∈ free, x ≠ 0)
    (hn : free.length < n) : d.freeListFrom n a = free := by
  induction free generalizing a n with
  | nil =>
    obtain ⟨n, rfl⟩ := Nat.exists_eq_succ_of_ne_zero (Nat.ne_of_gt hn)
    rw [freeListFrom, if_pos (show a = 0 from hChain)]
  | cons x post ih =>
    obtain ⟨n, rfl⟩ := Nat.exists_eq_succ_of_ne_zero (Nat.ne_of_gt (Nat.zero_lt_of_lt hn))
    obtain ⟨rfl, c, hNext, hRest⟩ := hChain
    rw [freeListFrom, if_neg (hPos x List.mem_cons_self), hNext]
    dsimp only
    rw [ih hRest (fun y hy => hPos y (List.mem_cons_of_mem x hy)) (Nat.lt_of_succ_lt_succ hn)]

theorem Holds.freeList_eq (h : d.Holds blocks free) : d.freeList = free := by
  have hLength := h.free_length_le
  refine freeListFrom_eq h.chain (fun x hx => ?_) (by omega)
  obtain ⟨hdr, hb, -⟩ := (h.free_iff x).mp hx
  exact (h.bounds hb).1.ne'

/-- A call changes the link of a block and nothing else of it. -/
structure Spared (d d' : Database) (b : Int × BlockHeader) : Prop where
  header : ∃ next, d'.readAt b.1 = some { b.2 with blockNdFptr := next }
  bytes : ∀ x, b.1 + sizeOfBlockHeader ≤ x → x < b.1 + b.2.blockLength → d'.file x = d.file x

theorem Holds.spared_of_touches (h : d.Holds blocks free) {places : List (Int × Nat)}
    (hTouches : Touches places d d') (hb : b ∈ blocks)
    (hInside : ∀ p ∈ places, ∃ c ∈ blocks, c.1 ≠ b.1 ∧ c.1 ≤ p.1 ∧
      p.1 + p.2 ≤ c.1 + c.2.blockLength) : Spared d d' b where
  header := ⟨_, h.readAt_of_touches hTouches hb hInside⟩
  bytes x hx hx' := h.file_of_touches hTouches hb hInside (by omega) hx'

theorem Holds.freed_touches (h : d.Holds blocks free) (hb : (a, hdr) ∈ blocks) (removeObject : Bool)
    (new : BlockHeader) : Touches [(a, sizeOfBlockHeader)] d
      ((((d.countFreed removeObject).writeBlockHdr new a).setFsFptr a).writeFileHdr) := by
  have hBounds := h.bounds hb
  have hRoom := (h.header_le hb).1
  dsimp only at hBounds hRoom
  have hCount : Touches [] d (d.countFreed removeObject) := Touches.of_file_eq rfl rfl rfl
  have hWrite := Touches.writeBlockHdr (d := d.countFreed removeObject) (a := a) new
    (by rw [hCount.fileSize]; omega)
  have hBoth := hCount.trans (hWrite.trans (Touches.setFsFptr _ a))
  have hAll := hBoth.trans (Touches.writeFileHdr (by
    rw [hBoth.rev, hBoth.fileSize]
    exact h.fileHeaderSize_le))
  exact hAll.mono fun p hp => ⟨p, by simpa using hp, Int.le_refl _, Int.le_refl _⟩

theorem Holds.spared_delete (h : d.Holds blocks free) {position o : Int} (removeObject : Bool)
    (hAddress : ∀ hdr, d.readBlockHdr position (o - d.blockHeaderSize) = some hdr →
      ∃ hdr', (o - d.blockHeaderSize, hdr') ∈ blocks)
    (hb : b ∈ blocks) (hne : o ≠ b.1 + d.blockHeaderSize) :
    Spared d (d.delete position o removeObject).2 b := by
  rcases h.delete_cases position o removeObject hAddress with
    ⟨hSame, -⟩ | ⟨l, l', hdr, rfl, -, hDelete⟩
  · rw [hSame]
    exact ⟨⟨_, h.stored b hb⟩, fun _ _ _ => rfl⟩
  · rw [hDelete]
    generalize hBlock : o - (d.blockHeaderSize : Int) = a at *
    have hSelf : (a, hdr) ∈ l ++ (a, hdr) :: l' := List.mem_append_cons_self
    have hRoom := (h.header_le hSelf).1
    dsimp only at hRoom
    refine h.spared_of_touches (h.freed_touches hSelf removeObject _) hb fun p hp => ⟨(a, hdr), hSelf, ?_, ?_⟩
    · dsimp only
      omega
    · obtain rfl := List.mem_singleton.mp hp
      dsimp only
      omega

theorem Located.unDelete_touches (h : d.Located l l' pre post a hdr prev) :
    Touches ((prev.toList.map fun p => (p.1, sizeOfBlockHeader)) ++ [(a, sizeOfBlockHeader)]) d
      ((d.unlink hdr prev).writeBlockHdr (.normal hdr.blockLength) a) := by
  have hTouches := h.unlink_spec.1
  have hBounds := h.holds.bounds List.mem_append_cons_self
  have hRoom := (h.holds.header_le List.mem_append_cons_self).1
  dsimp only at hBounds hRoom
  exact hTouches.trans (Touches.writeBlockHdr _ (by rw [hTouches.fileSize]; omega))

theorem Located.spared_unDelete (h : d.Located l l' pre post a hdr prev) (hb : b ∈ l ++ l')
    (hDeleted : hdr.blockStatus = gxDeletedBlock) :
    Spared d ((d.unlink hdr prev).writeBlockHdr (.normal hdr.blockLength) a) b := by
  have hChanges := h.changes_unDelete hDeleted
  constructor
  · have hMem : relinked prev hdr.blockNdFptr b ∈
        l.map (relinked prev hdr.blockNdFptr) ++ ([(a, .normal hdr.blockLength)] ++
          l'.map (relinked prev hdr.blockNdFptr)) := by
      rcases List.mem_append.mp hb with hb | hb
      · exact List.mem_append_left _ (List.mem_map_of_mem hb)
      · exact List.mem_append_right _ (List.mem_append_right _ (List.mem_map_of_mem hb))
    have hRead := hChanges.holds.stored _ hMem
    rw [relinked] at hRead
    dsimp only at hRead
    split at hRead
    · exact ⟨_, hRead⟩
    · exact ⟨b.2.blockNdFptr, hRead⟩
  · intro x hx hx'
    have hBounds := h.holds.bounds (mem_others hb)
    have hHeader := h.holds.header_le List.mem_append_cons_self
    have hApart := h.holds.tiles.apart hb
    dsimp only at hApart hHeader
    refine h.unDelete_touches.file x (by omega) fun p hp => ?_
    rcases List.mem_append.mp hp with hp | hp
    · obtain ⟨q, hq, rfl⟩ := List.mem_map.mp hp
      have hq' := h.prev_mem_blocks q (Option.mem_toList.mp hq)
      have hRoom := (h.holds.header_le hq').1
      by_cases hSame : q.1 = b.1
      · exact .inr (by dsimp only; omega)
      · have hOther := h.holds.tiles.apart_of_ne hq' (mem_others hb) hSame
        dsimp only
        omega
    · obtain rfl := List.mem_singleton.mp hp
      dsimp only
      omega

theorem Holds.spared_unDelete (h : d.Holds blocks free) (hn : d.fileSize.toNat < n) {position o : Int}
    (hAddress : ∀ hdr, d.readBlockHdr position (o - d.blockHeaderSize) = some hdr →
      ∃ hdr', (o - d.blockHeaderSize, hdr') ∈ blocks)
    (hb : b ∈ blocks) (hne : o ≠ b.1 + d.blockHeaderSize) :
    ∃ r, d.unDelete n position o = some r ∧ Spared d r.2 b := by
  rcases h.unDelete_cases hn position o hAddress with
    ⟨hSame, -⟩ | ⟨l, l', pre, post, hdr, prev, rfl, rfl, hLocated, hDeleted, hUnDelete⟩
  · exact ⟨_, hSame, ⟨_, h.stored b hb⟩, fun _ _ _ => rfl⟩
  · refine ⟨_, hUnDelete, hLocated.spared_unDelete (mem_others_of_ne hb ?_) hDeleted⟩
    dsimp only
    omega

theorem Holds.spared_extend (h : d.Holds blocks free) {bytes : Nat} (hOverhead : d.overhead ≤ bytes)
    (hFit : d.fileHeader.gxdEof + bytes < 2 ^ 63) (hb : b ∈ blocks) :
    Spared d ((d.extend bytes).mark bytes d.fileHeader.gxdEof) b := by
  have hBounds := h.bounds hb
  rw [h.fileSize] at hBounds
  refine ⟨⟨_, (h.changes_extend hOverhead hFit).holds.stored b (List.mem_append_left _ hb)⟩, ?_⟩
  exact fun x hx hx' => h.extend_file_eq hOverhead (by omega) (by omega)

/-! ## From the deletion to `UnDelete` -/

/-- The block is as it was when it was deleted, but for its link. -/
structure Waits (d e : Database) (a : Int) (hdr : BlockHeader) : Prop where
  kept : e.Kept
  rev : e.rev = d.rev
  block : ∃ next, (a, { hdr with blockNdFptr := next }) ∈ e.blocks
  bytes : ∀ x, a + sizeOfBlockHeader ≤ x → x < a + hdr.blockLength → e.file x = d.file x

theorem Holds.spared_step (h : e.Holds blocks free) {c : Int × HeapCall} (hb : b ∈ blocks)
    (hSpares : Spares (b.1 + e.blockHeaderSize) c e) : Spared e (heapCalls.step c e).2 b := by
  obtain ⟨position, call⟩ := c
  obtain ⟨hAllowed, hTarget, hExtends⟩ := hSpares
  have hTurns : e.fileSize.toNat < e.fileSize.toNat + 1 := Nat.lt_succ_self _
  cases call with
  | alloc bytes method =>
    change e.fileHeader.gxdEof + (bytes + e.overhead) < 2 ^ 63 at hAllowed
    change (e.reclaim _ position _ method).map Prod.fst = some 0 at hExtends
    have hPos : 0 < e.fileHeader.gxdEof := by
      have hBounds := h.bounds hb
      rw [h.fileSize] at hBounds
      omega
    have hMod : (bytes + e.overhead) % 2 ^ 64 = bytes + e.overhead := Nat.mod_eq_of_lt (by omega)
    rw [hMod] at hExtends
    have hNone : e.reclaim (e.fileSize.toNat + 1) position (bytes + e.overhead) method =
        some (0, e) := by
      rcases h.reclaim_eq hTurns position (by omega : bytes + e.overhead < 2 ^ 63) method with
        hNone | ⟨l, l', pre, post, a, hdr, prev, rfl, -, ⟨-, hFound⟩ | ⟨-, hFound⟩⟩
      · exact hNone
      · rw [hFound] at hExtends
        exact absurd (Option.some.inj hExtends) (h.bounds List.mem_append_cons_self).1.ne'
      · rw [hFound] at hExtends
        exact absurd (Option.some.inj hExtends) (h.bounds List.mem_append_cons_self).1.ne'
    have hStep : (heapCalls.step (position, .alloc bytes method) e).2 =
        (e.extend (bytes + e.overhead)).mark (bytes + e.overhead) e.fileHeader.gxdEof := by
      simp only [heapCalls, alloc, hMod, hNone, Option.map_some, if_true]
    rw [hStep]
    exact h.spared_extend (Nat.le_add_left _ _) (by omega) hb
  | delete o =>
    exact h.spared_delete false (block_of_allowed h hAllowed) hb fun hSame =>
      hTarget (congrArg some hSame)
  | remove o =>
    exact h.spared_delete true (block_of_allowed h hAllowed) hb fun hSame =>
      hTarget (congrArg some hSame)
  | unDelete o =>
    obtain ⟨r, hUnDelete, hSpared⟩ := h.spared_unDelete hTurns (block_of_allowed h hAllowed) hb
      fun hSame => hTarget (congrArg some hSame)
    have hStep : (heapCalls.step (position, .unDelete o) e).2 = r.2 := by
      simp only [heapCalls, hUnDelete]
    rw [hStep]
    exact hSpared

theorem Waits.step (h : Waits d e a hdr) {c : Int × HeapCall}
    (hSpares : Spares (a + d.blockHeaderSize) c e) : Waits d (heapCalls.step c e).2 a hdr := by
  obtain ⟨⟨blocks, free, hHolds, hCounts⟩, hRev, ⟨next, hb⟩, hBytes⟩ := h
  rw [hHolds.blocks_eq] at hb
  have hSize : d.blockHeaderSize = e.blockHeaderSize := by rw [blockHeaderSize, blockHeaderSize, hRev]
  rw [hSize] at hSpares
  obtain ⟨a', blocks', free', hChanges, -⟩ := step_effect c hHolds hSpares.1
  obtain ⟨⟨next', hRead⟩, hSame⟩ := hHolds.spared_step hb hSpares
  have hBlock : ∃ next, (a, { hdr with blockNdFptr := next }) ∈ (heapCalls.step c e).2.blocks := by
    obtain ⟨hdr', hb'⟩ := hChanges.starts _ hb
    have hEq := Option.some.inj ((hChanges.holds.stored _ hb').symm.trans hRead)
    rw [hChanges.holds.blocks_eq]
    exact ⟨next', hEq ▸ hb'⟩
  refine ⟨⟨blocks', free', hChanges.holds, hChanges.counts hCounts⟩, hChanges.rev.trans hRev, hBlock, ?_⟩
  exact fun x hx hx' => (hSame x hx hx').trans (hBytes x hx hx')

/-- The block is in use again, the list is without it, and the statistics count one less. -/
structure Restored (d e r : Database) (a : Int) (length : Nat) : Prop where
  block : (a, .normal length) ∈ r.blocks
  payload : ∀ x, a + d.blockHeaderSize ≤ x → x < a + length → r.file x = d.file x
  list : r.freeList = e.freeList.erase a
  counted : r.fileStats.deletedBlocks = e.fileStats.deletedBlocks - 1

theorem Waits.restored (h : Waits d e a hdr) (hDeleted : hdr.blockStatus = gxDeletedBlock)
    (position : Int) : ∃ r, e.unDelete (e.fileSize.toNat + 1) position (a + d.blockHeaderSize) =
      some (true, r) ∧ Restored d e r a hdr.blockLength := by
  obtain ⟨⟨blocks, free, hHolds, hCounts⟩, hRev, ⟨next, hb⟩, hBytes⟩ := h
  rw [hHolds.blocks_eq] at hb
  have hSize : d.blockHeaderSize = e.blockHeaderSize := by rw [blockHeaderSize, blockHeaderSize, hRev]
  have hPlace : a + (e.blockHeaderSize : Int) - e.blockHeaderSize = a := Int.add_sub_cancel _ _
  have hSound := hHolds.sound _ hb
  have hStatus : BlockHeader.status { hdr with blockNdFptr := next } = gxDeletedBlock :=
    hSound.status_eq.trans hDeleted
  have hCases := hHolds.unDelete_cases (Nat.lt_succ_self _) position (a + e.blockHeaderSize)
    fun hdr' _ => ⟨_, by rw [hPlace]; exact hb⟩
  rw [hPlace] at hCases
  rcases hCases with ⟨-, hOther⟩ | ⟨l, l', pre, post, hdr', prev, rfl, rfl, hLocated, -, hUnDelete⟩
  · exact absurd hStatus (hOther _ hb)
  · obtain rfl := hHolds.header_unique hb List.mem_append_cons_self
    have hChanges := hLocated.changes_unDelete hDeleted
    have hBounds := hHolds.bounds hb
    dsimp only at hBounds
    rw [hSize]
    refine ⟨_, hUnDelete, ?_, fun x hx hx' => ?_, ?_, ?_⟩
    · rw [hChanges.holds.blocks_eq]
      exact List.mem_append_right _ List.mem_cons_self
    · have hLe := e.rev.sizeOfBlockHeader_le
      rw [hSize, blockHeaderSize] at hx
      rw [hLocated.unDelete_touches.file x (by omega) fun p hp => ?_, hBytes x (by omega) hx']
      rcases List.mem_append.mp hp with hp | hp
      · obtain ⟨q, hq, rfl⟩ := List.mem_map.mp hp
        have hq' := hLocated.prev_mem q (Option.mem_toList.mp hq)
        have hApart := hHolds.tiles.apart hq'
        have hRoom := (hHolds.header_le (mem_others hq')).1
        dsimp only at hApart ⊢
        omega
      · obtain rfl := List.mem_singleton.mp hp
        exact .inr (by dsimp only; omega)
    · rw [hChanges.holds.freeList_eq, hHolds.freeList_eq,
        List.erase_append_right _ hLocated.self_not_mem.1, List.erase_cons_head]
    · have hPos := hCounts.pos.1 hDeleted
      rw [writeBlockHdr_fileStats, unlink_fileStats, if_pos hPos]

theorem Holds.waits_delete (h : d.Holds blocks free) (hCounts : Counts d.fileStats blocks)
    (hb : (a, hdr) ∈ blocks) (hUse : hdr.status = gxNormalBlock) (position : Int) :
    ∃ e, d.delete position (a + d.blockHeaderSize) false = (true, e) ∧
      Waits d e a { hdr with blockStatus := gxDeletedBlock } := by
  have hPlace : a + (d.blockHeaderSize : Int) - d.blockHeaderSize = a := Int.add_sub_cancel _ _
  have hCases := h.delete_cases position (a + d.blockHeaderSize) false
    fun hdr' _ => ⟨hdr, by rwa [hPlace]⟩
  rw [hPlace] at hCases
  rcases hCases with ⟨-, hOther⟩ | ⟨l, l', hdr', rfl, hNotFree, hDelete⟩
  · have hFree := hOther hdr hb
    rw [(h.sound _ hb).status_iff.mp hUse] at hFree
    cases hFree
  · obtain rfl := h.header_unique hb List.mem_append_cons_self
    have hChanges := h.changes_delete hNotFree (freed_status false) (e := d.countFreed false)
      (Touches.of_file_eq rfl rfl rfl) rfl (countFreed_fileStats d false rfl)
    refine ⟨_, hDelete, ⟨_, _, hChanges.holds, hChanges.counts hCounts⟩, hChanges.rev, ?_, ?_⟩
    · rw [hChanges.holds.blocks_eq]
      exact ⟨_, List.mem_append_right _ List.mem_cons_self⟩
    · refine fun x hx hx' => (h.freed_touches hb false _).file x ?_ fun p hp => ?_
      · have hBounds := h.bounds hb
        dsimp only at hBounds
        omega
      · obtain rfl := List.mem_singleton.mp hp
        exact .inr hx

/-- A block is deleted, others are deleted, removed, undeleted and added, and it is undeleted. -/
theorem Holds.delete_unDelete (h : d.Holds blocks free) (hCounts : Counts d.fileStats blocks)
    (hb : (a, hdr) ∈ blocks) (hUse : hdr.status = gxNormalBlock) (position : Int) :
    ∃ e, d.delete position (a + d.blockHeaderSize) false = (true, e) ∧
      ∀ others, heapCalls.Along (HeapCall.Spares (a + d.blockHeaderSize)) others e →
        ∀ position', ∃ r, (heapCalls.run others e).2.unDelete
            ((heapCalls.run others e).2.fileSize.toNat + 1) position' (a + d.blockHeaderSize) =
          some (true, r) ∧ Restored d (heapCalls.run others e).2 r a hdr.blockLength := by
  obtain ⟨e, hDelete, hWaits⟩ := h.waits_delete hCounts hb hUse position
  refine ⟨e, hDelete, fun others hOthers position' => ?_⟩
  have hLast : Waits d (heapCalls.run others e).2 a { hdr with blockStatus := gxDeletedBlock } :=
    Machine.run_invariant (I := fun e => Waits d e a { hdr with blockStatus := gxDeletedBlock })
      (fun c e hWaits hSpares => hWaits.step hSpares) hWaits hOthers
  generalize (heapCalls.run others e).2 = e' at hLast ⊢
  exact hLast.restored rfl position'

/-- `UnDelete` refuses a block that is not marked deleted. -/
theorem Holds.unDelete_refused (h : d.Holds blocks free) (hb : b ∈ blocks)
    (hStatus : b.2.status ≠ gxDeletedBlock) (position : Int) :
    d.unDelete (d.fileSize.toNat + 1) position (b.1 + d.blockHeaderSize) = some (false, d) := by
  have hPlace := Int.add_sub_cancel b.1 (d.blockHeaderSize : Int)
  have hCases := h.unDelete_cases (Nat.lt_succ_self _) position (b.1 + d.blockHeaderSize)
    fun hdr' _ => ⟨b.2, by rwa [hPlace]⟩
  rw [hPlace] at hCases
  rcases hCases with ⟨hSame, -⟩ | ⟨l, l', pre, post, hdr, prev, hBlocks, -, hLocated, hDeleted, -⟩
  · exact hSame
  · have hSelf : (b.1, hdr) ∈ blocks := hBlocks ▸ List.mem_append_cons_self
    obtain rfl := h.header_unique hb hSelf
    exact absurd ((h.sound _ hb).status_eq.trans hDeleted) hStatus

end Database

end DataReel
