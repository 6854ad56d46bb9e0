import DataReel.Database.HeapAlloc

/-! # Allocation, deletion and `UnDelete` on a heap -/

namespace DataReel.Database

variable {d d' : Database} {blocks l l' : List (Int × BlockHeader)} {free pre post : List Int}
  {a position : Int} {hdr : BlockHeader} {b : Int × BlockHeader} {bytes n : Nat}

theorem seekTo_pos (position : Int) {a : Int} (ha : 0 < a) : seekTo position a = a := by
  rw [seekTo, if_neg (by omega)]

theorem readPosition_pos (position : Int) {a : Int} (ha : 0 < a) : readPosition position a = a := by
  rw [readPosition, if_neg (by rw [gxCurrAddress]; omega)]

theorem Holds.located (h : d.Holds blocks free) {passed : List (Int × BlockHeader)}
    (hPassed : ∀ b ∈ passed, b ∈ blocks) (hFree : free = passed.map Prod.fst ++ a :: post)
    (hb : (a, hdr) ∈ blocks) : ∃ l l', blocks = l ++ (a, hdr) :: l' ∧
      d.Located l l' (passed.map Prod.fst) post a hdr passed.getLast? := by
  obtain ⟨l, l', rfl⟩ := List.mem_iff_append.mp hb
  subst hFree
  refine ⟨l, l', rfl, h, List.getLast?_map.symm, fun p hp => ?_⟩
  have hLast := List.mem_of_getLast? hp
  refine mem_others_of_ne (hPassed p hLast) fun hSame => ?_
  obtain ⟨-, -, hApart⟩ := List.nodup_append.mp h.nodup
  exact hApart p.1 (List.mem_map_of_mem hLast) a List.mem_cons_self hSame

theorem Holds.gxdFsFptr_ne (h : d.Holds blocks free) : d.fileHeader.gxdFsFptr ≠ gxFSListCorrupt := by
  have hChain := h.chain
  intro hCorrupt
  cases free with
  | nil => exact absurd (hCorrupt.symm.trans hChain) (by decide)
  | cons x post =>
    obtain ⟨hdr, hb, -⟩ := (h.free_iff x).mp List.mem_cons_self
    have hPos := (h.bounds hb).1
    have hHead : x = gxFSListCorrupt := hChain.1.trans hCorrupt
    rw [gxFSListCorrupt] at hHead
    dsimp only at hPos
    omega

theorem bestFit_eq {best : BestFit} (hBest : best.unusedLen = 0)
    (prev : Option (Int × BlockHeader)) (l : List (Int × BlockHeader)) :
    d.bestFit bytes prev best l = best := by
  have hOffer (new : BestFit) : best.offer bytes new = best := by
    rw [BestFit.offer]
    generalize List.range 10 = is
    induction is with
    | nil => rfl
    | cons i is ih =>
      rw [List.foldl_cons, if_neg (by omega), ih]
  induction l generalizing prev with
  | nil => rfl
  | cons b l ih =>
    simp only [bestFit, hOffer, ite_self, ih]

theorem overhead_le (d : Database) : d.overhead ≤ 64 := by
  rw [overhead]
  cases d.rev <;> decide

theorem unusedLen_eq (hBytes : bytes < 2 ^ 63) (hLength : hdr.blockLength < 2 ^ 63) :
    d.unusedLen bytes hdr =
      if bytes + d.overhead < hdr.blockLength then hdr.blockLength - bytes else 0 := by
  have hOverhead := overhead_le d
  rw [unusedLen, Nat.mod_eq_of_lt (by omega)]
  split
  · omega
  · rfl

/-- A block is reused as it is, or its first bytes. -/
def Reused (d : Database) (bytes : Nat) (blocks : List (Int × BlockHeader))
    (r : Option (Int × Database)) : Prop :=
  ∃ l l' pre post a hdr prev, blocks = l ++ (a, hdr) :: l' ∧ d.Located l l' pre post a hdr prev ∧
    ((hdr.blockLength = bytes ∧ r = some (a, d.reclaimExact hdr prev)) ∨
      (bytes + d.overhead < hdr.blockLength ∧
        r = some (a, d.reclaimSplit bytes a hdr (hdr.blockLength - bytes) hdr.status prev)))

theorem Holds.blockLength_lt (h : d.Holds blocks free) (hb : b ∈ blocks) :
    b.2.blockLength < 2 ^ 63 := by
  have hBounds := h.bounds hb
  have hLimit := h.limit
  rw [h.fileSize] at hBounds
  omega

theorem Holds.reclaimFirstFit_eq (h : d.Holds blocks free) (hn : d.fileSize.toNat < n)
    (position : Int) (hBytes : bytes < 2 ^ 63) : d.reclaimFirstFit n position bytes = some (0, d) ∨
      d.Reused bytes blocks (d.reclaimFirstFit n position bytes) := by
  rw [reclaimFirstFit, if_neg h.gxdFsFptr_ne]
  obtain ⟨r, hWalk, hPassed, hEnd⟩ := h.walk_eq (fun _ hdr => d.fits bytes hdr)
    (fun position a => seekTo_pos position) hn position
  rw [hWalk, Option.map_some]
  rcases hEnd with ⟨hNone, -⟩ | ⟨a, hdr, post, hFound, hFree, hb, hAccept⟩
  · rw [hNone]
    exact .inl rfl
  · obtain ⟨l, l', hBlocks, hLocated⟩ := h.located (fun b hb => (hPassed b hb).1) hFree hb
    refine .inr ⟨l, l', _, post, a, hdr, r.1.getLast?, hBlocks, hLocated, ?_⟩
    rw [hFound]
    rw [Database.fits, unusedLen_eq hBytes (h.blockLength_lt hb), Bool.or_eq_true, decide_eq_true_iff,
      decide_eq_true_iff] at hAccept
    dsimp only
    rw [unusedLen_eq hBytes (h.blockLength_lt hb)]
    by_cases hExact : hdr.blockLength = bytes
    · rw [if_pos hExact]
      exact .inl ⟨hExact, rfl⟩
    · have hRest := hAccept.resolve_left hExact
      split at hRest
      · rename_i hRoom
        rw [if_neg hExact, if_pos hRoom]
        exact .inr ⟨hRoom, rfl⟩
      · exact absurd hRest (Nat.lt_irrefl 0)

/-- An exact fit is found if the list has one, and nothing else ever is. -/
theorem Holds.reclaimBestFit_cases (h : d.Holds blocks free) (hn : d.fileSize.toNat < n)
    (position : Int) (bytes : Nat) :
    (d.reclaimBestFit n position bytes = some (0, d) ∧
        ∀ b ∈ blocks, b.2.isFree = true → b.2.blockLength ≠ bytes) ∨
      ∃ l l' pre post a hdr prev, blocks = l ++ (a, hdr) :: l' ∧
        d.Located l l' pre post a hdr prev ∧ hdr.blockLength = bytes ∧
        d.reclaimBestFit n position bytes = some (a, d.reclaimExact hdr prev) := by
  rw [reclaimBestFit, if_neg h.gxdFsFptr_ne]
  obtain ⟨r, hWalk, hPassed, hEnd⟩ := h.walk_eq (fun _ hdr => hdr.blockLength = bytes)
    (fun position a => seekTo_pos position) hn position
  rw [hWalk, Option.map_some]
  rcases hEnd with ⟨hNone, hAll⟩ | ⟨a, hdr, post, hFound, hFree, hb, hAccept⟩
  · rw [hNone]
    dsimp only
    rw [bestFit_eq rfl]
    refine .inl ⟨rfl, fun b hb hIsFree => ?_⟩
    have hListed := (h.mem_free_iff hb).mpr hIsFree
    rw [← hAll] at hListed
    obtain ⟨c, hc, hAddr⟩ := List.mem_map.mp hListed
    obtain rfl := h.tiles.unique (fun c => h.blockLength_pos) (hPassed c hc).1 hb hAddr
    exact of_decide_eq_false (hPassed c hc).2
  · obtain ⟨l, l', hBlocks, hLocated⟩ := h.located (fun b hb => (hPassed b hb).1) hFree hb
    refine .inr ⟨l, l', _, post, a, hdr, r.1.getLast?, hBlocks, hLocated, of_decide_eq_true hAccept, ?_⟩
    rw [hFound]

theorem Holds.reclaimBestFit_eq (h : d.Holds blocks free) (hn : d.fileSize.toNat < n)
    (position : Int) :
    d.reclaimBestFit n position bytes = some (0, d) ∨
      d.Reused bytes blocks (d.reclaimBestFit n position bytes) := by
  rcases h.reclaimBestFit_cases hn position bytes with
    ⟨hNone, -⟩ | ⟨l, l', pre, post, a, hdr, prev, hBlocks, hLocated, hExact, hFound⟩
  · exact .inl hNone
  · exact .inr ⟨l, l', pre, post, a, hdr, prev, hBlocks, hLocated, .inl ⟨hExact, hFound⟩⟩

theorem Holds.reclaim_eq (h : d.Holds blocks free) (hn : d.fileSize.toNat < n) (position : Int)
    (hBytes : bytes < 2 ^ 63) (method : ReclaimMethod) :
    d.reclaim n position bytes method = some (0, d) ∨
      d.Reused bytes blocks (d.reclaim n position bytes method) := by
  rw [reclaim.eq_def]
  split
  · exact .inl rfl
  · cases method with
    | none => exact .inl rfl
    | bestFit => exact h.reclaimBestFit_eq hn position
    | firstFit => exact h.reclaimFirstFit_eq hn position hBytes

/-- `Alloc` returns the address of a block that was free or, if there is none to reclaim, is new. -/
theorem Holds.alloc_room (h : d.Holds blocks free) (hn : d.fileSize.toNat < n) (position : Int)
    (method : ReclaimMethod) (hBytes : bytes + d.overhead < 2 ^ 63)
    (hFit : d.reclaim n position (bytes + d.overhead) method = some (0, d) →
      d.fileHeader.gxdEof + (bytes + d.overhead : Nat) < 2 ^ 63) :
    ∃ (a : Int) (d' : Database) (blocks' : List (Int × BlockHeader)) (free' : List Int),
      d.alloc n position bytes method = some (a + d.rev.blockHeaderSize, d') ∧
      Changes d d' a blocks blocks' free' ∧ (a, .normal (bytes + d.overhead)) ∈ blocks' ∧
      ∀ hdr, (a, hdr) ∈ blocks → hdr.isFree = true := by
  have hMod : (bytes + d.overhead) % 2 ^ 64 = bytes + d.overhead := Nat.mod_eq_of_lt (by omega)
  rw [alloc, hMod]
  rcases h.reclaim_eq hn position hBytes method with
    hNone | ⟨l, l', pre, post, a, hdr, prev, rfl, hLocated, hHow⟩
  · rw [hNone]
    refine ⟨_, _, _, _, rfl, h.changes_extend (Nat.le_add_left _ _) (hFit hNone), ?_, ?_⟩
    · exact List.mem_append_right _ List.mem_cons_self
    · intro hdr hb
      have hBounds := h.bounds hb
      have hLength := h.blockLength_pos hb
      rw [h.fileSize] at hBounds
      dsimp only at hBounds hLength
      omega
  · have hPos := (h.bounds List.mem_append_cons_self).1
    have hFree (hdr' : BlockHeader) (hb : (a, hdr') ∈ l ++ (a, hdr) :: l') :
        hdr'.isFree = true := by
      rw [h.header_unique hb List.mem_append_cons_self]
      exact hLocated.isFree
    rcases hHow with ⟨hExact, hReclaim⟩ | ⟨hRoom, hReclaim⟩
    · rw [hReclaim, Option.map_some, if_neg hPos.ne']
      refine ⟨_, _, _, _, ?_, hLocated.changes_exact hExact, ?_, hFree⟩
      · simp [reclaimExact, blockHeaderSize]
      · exact List.mem_append_right _ List.mem_cons_self
    · rw [hReclaim, Option.map_some, if_neg hPos.ne']
      refine ⟨_, _, _, _, ?_, hLocated.changes_split (Nat.le_add_left _ _) hRoom, ?_, hFree⟩
      · simp [reclaimSplit, blockHeaderSize, countRest]
      · exact List.mem_append_right _ List.mem_cons_self

theorem Holds.alloc_eq (h : d.Holds blocks free) (hn : d.fileSize.toNat < n) (position : Int)
    (hFit : d.fileHeader.gxdEof + (bytes + d.overhead) < 2 ^ 63) (method : ReclaimMethod) :
    ∃ (a : Int) (d' : Database) (blocks' : List (Int × BlockHeader)) (free' : List Int),
      d.alloc n position bytes method = some (a + d.rev.blockHeaderSize, d') ∧
      Changes d d' a blocks blocks' free' ∧ (a, .normal (bytes + d.overhead)) ∈ blocks' ∧
      ∀ hdr, (a, hdr) ∈ blocks → hdr.isFree = true := by
  have hPos : 0 ≤ d.fileHeader.gxdEof := by
    have hSize := h.fileHeaderSize_le
    rw [h.fileSize] at hSize
    omega
  exact h.alloc_room hn position method (by omega) fun _ => by omega

/-! ## Deletion -/

theorem Changes.refl (h : d.Holds blocks free) : Changes d d a blocks blocks free :=
  ⟨h, rfl, id, fun b hb => ⟨b.2, hb⟩, fun _ hb _ _ => hb, fun _ hb _ _ => hb,
    fun _ _ _ _ _ _ _ => rfl, rfl, rfl,
    fun _ => .inr ⟨rfl, rfl⟩⟩

theorem Holds.gxdFsFptr_bounds (h : d.Holds blocks free) :
    0 ≤ d.fileHeader.gxdFsFptr ∧ d.fileHeader.gxdFsFptr < 2 ^ 63 := by
  have hChain := h.chain
  cases free with
  | nil =>
    rw [show d.fileHeader.gxdFsFptr = 0 from hChain]
    decide
  | cons x post =>
    obtain ⟨hdr, hb, -⟩ := (h.free_iff x).mp List.mem_cons_self
    have hBounds := h.bounds hb
    have hLimit := h.limit
    rw [h.fileSize] at hBounds
    rw [← hChain.1]
    dsimp only at hBounds
    omega

theorem setStatus_eq {overhead : Nat} (h : hdr.Sound overhead) (status : Nat) :
    hdr.setStatus status = status := by
  rw [BlockHeader.setStatus]
  rcases h.status with hStatus | hStatus | hStatus <;> rw [hStatus] <;> simp [gxNormalBlock,
    gxDeletedBlock, gxRemovedBlock]

/-- The header of a block that is put on the list. -/
def freed (hdr : BlockHeader) (status : Nat) (next : Int) : BlockHeader :=
  { hdr with blockStatus := status, blockNdFptr := next }

theorem freed_isFree {status : Nat} (hStatus : status = gxDeletedBlock ∨ status = gxRemovedBlock)
    (next : Int) : (freed hdr status next).isFree = true := by
  rw [BlockHeader.isFree, BlockHeader.status, decide_eq_true_iff]
  rcases hStatus with rfl | rfl
  · exact .inl rfl
  · exact .inr rfl

theorem Holds.changes_delete (h : d.Holds (l ++ (a, hdr) :: l') free) (hUse : hdr.isFree = false)
    {status : Nat} (hStatus : status = gxDeletedBlock ∨ status = gxRemovedBlock) {e : Database}
    (hTouches : Touches [] d e) (hHeader : e.fileHeader = d.fileHeader)
    (hStats : e.fileStats = {
      numBlocks := d.fileStats.numBlocks
      deletedBlocks := d.fileStats.deletedBlocks + if status = gxDeletedBlock then 1 else 0
      removedBlocks := d.fileStats.removedBlocks + if status = gxRemovedBlock then 1 else 0 }) :
    Changes d (((e.writeBlockHdr (freed hdr status d.fileHeader.gxdFsFptr) a).setFsFptr
        a).writeFileHdr) a (l ++ (a, hdr) :: l')
      (l.map (relinked none 0) ++ ([(a, freed hdr status d.fileHeader.gxdFsFptr)] ++
        l'.map (relinked none 0))) (a :: free) := by
  have hSelf : (a, hdr) ∈ l ++ (a, hdr) :: l' := List.mem_append_cons_self
  have hBounds := h.bounds hSelf
  have hRoom := (h.header_le hSelf).1
  have hOld := h.sound _ hSelf
  have hSound : (freed hdr status d.fileHeader.gxdFsFptr).Sound d.overhead :=
    ⟨hOld.check, hOld.overhead, .inr hStatus, h.gxdFsFptr_bounds⟩
  have hFits := hSound.fits (h.fits hSelf).length
  dsimp only at hBounds hRoom
  have hWrite := hTouches.trans (Touches.writeBlockHdr (freed hdr status d.fileHeader.gxdFsFptr)
    (a := a) (by rw [hTouches.fileSize]; omega))
  have hSet := hWrite.trans (Touches.setFsFptr _ a)
  have hHdr := Touches.writeFileHdr (d := (e.writeBlockHdr
    (freed hdr status d.fileHeader.gxdFsFptr) a).setFsFptr a)
    (by rw [hSet.rev, hSet.fileSize]; exact h.fileHeaderSize_le)
  have hAll := hSet.trans hHdr
  have hRead := hHdr.readAt (a := a) (by rw [hSet.rev]; exact hBounds.2.1) nofun
  rw [show ((e.writeBlockHdr (freed hdr status d.fileHeader.gxdFsFptr) a).setFsFptr a).readAt a =
    _ from readAt_writeBlockHdr hFits hBounds.1.le] at hRead
  have hPlaces (b : Int × BlockHeader) (hne : b.1 ≠ a) : ∀ p ∈ [(a, sizeOfBlockHeader)],
      ∃ c ∈ l ++ (a, hdr) :: l', c.1 ≠ b.1 ∧ c.1 ≤ p.1 ∧ p.1 + p.2 ≤ c.1 + c.2.blockLength := by
    intro p hp
    obtain rfl := List.mem_singleton.mp hp
    exact ⟨(a, hdr), hSelf, hne.symm, Int.le_refl _, by dsimp only; omega⟩
  have hKept (b) (hb : b ∈ l ++ l') := h.readAt_of_touches hAll (mem_others hb)
    (hPlaces b (h.others_ne hb))
  have hNotFree : a ∉ free := by
    rw [h.mem_free_iff hSelf, hUse]
    exact Bool.false_ne_true
  have hLink : nextFptr (((e.writeBlockHdr (freed hdr status d.fileHeader.gxdFsFptr) a).setFsFptr
      a).writeFileHdr) a = some d.fileHeader.gxdFsFptr := by
    rw [nextFptr, hRead]
    rfl
  have hId (b) (_ : b ∈ l ++ l') (_ : b.2.isFree = false) : relinked none 0 b = b :=
    congrFun Holds.relinked_none b
  refine {
    holds := h.replace hAll.rev ?_ ?_ hAll.fileSize ⟨rfl, rfl⟩ ?_ (Int.le_refl 0)
      (by decide) ?_ ?_ (List.nodup_cons.mpr ⟨hNotFree, h.nodup⟩) ?_
    rev := hAll.rev
    counts := fun hCounts => ?_
    starts := (starts_inUse hdr _ ⟨_, List.mem_cons_self⟩ hId).1
    inUse := (starts_inUse hdr _ ⟨_, List.mem_cons_self⟩ hId).2
    before := inUse_before hdr _ (fun b hb _ => congrArg Prod.fst (List.mem_singleton.mp hb)) hId
    kept := fun b hb hUse' hne x => h.file_of_touches hAll hb (hPlaces b hne)
    start := by simp [hHeader]
    sig := by simp [hHeader]
    written := fun hWords => .inl ?_ }
  · simp [hHeader]
  · simp [hHeader]
  · intro b hb
    obtain rfl := List.mem_singleton.mp hb
    exact ⟨hRead, hSound⟩
  · intro b hb
    rw [Holds.relinked_none]
    exact hKept b hb
  · rw [writeFileHdr_fileHeader, setFsFptr_gxdFsFptr]
    refine (h.chain.congr fun x hx => ?_).cons hLink
    obtain ⟨hdr', hb, -⟩ := (h.free_iff x).mp hx
    have hne : x ≠ a := fun hSame => hNotFree (hSame ▸ hx)
    rw [nextFptr, nextFptr, hKept _ (mem_others_of_ne hb hne), h.stored _ hb]
  · intro x
    rw [List.mem_cons]
    constructor
    · rintro (rfl | hx)
      · exact .inr ⟨_, List.mem_cons_self, freed_isFree hStatus _⟩
      · exact .inl ⟨hx, fun hSame => hNotFree (hSame ▸ hx)⟩
    · rintro (⟨hx, -⟩ | ⟨hdr', hb, -⟩)
      · exact .inr hx
      · exact .inl (congrArg Prod.fst (List.mem_singleton.mp hb))
  · have hNormal : hdr.blockStatus = gxNormalBlock := by
      by_contra hNot
      rw [hOld.isFree_iff.mpr hNot] at hUse
      cases hUse
    have hNew (s : Nat) : countStatus s [(a, freed hdr status d.fileHeader.gxdFsFptr)] =
        if status = s then 1 else 0 := by simp [countStatus, freed]
    have hOldStatus (s : Nat) (hs : gxNormalBlock ≠ s) : countStatus s [(a, hdr)] = 0 := by
      simp [countStatus, hNormal, hs]
    rw [writeFileHdr_fileStats, setFsFptr_fileStats, writeBlockHdr_fileStats, hStats]
    refine hCounts.replace rfl ?_ ?_
    · rw [hNew, hOldStatus _ (by decide)]
      dsimp only
      split <;> omega
    · rw [hNew, hOldStatus _ (by decide)]
      dsimp only
      split <;> omega
  · rw [writeFileHdr_fileHeader] at hWords ⊢
    exact diskHeader_writeFileHdr hWords

/-- The statistics with one more deleted or removed block. -/
def countFreed (d : Database) (removeObject : Bool) : Database :=
  { d with fileStats := if removeObject then
      { d.fileStats with removedBlocks := d.fileStats.removedBlocks + 1 }
    else { d.fileStats with deletedBlocks := d.fileStats.deletedBlocks + 1 } }

/-- `Delete` and `Remove` of a block in use, or of an address where there is none. -/
theorem Holds.delete_cases (h : d.Holds blocks free) (position objectAddress : Int)
    (removeObject : Bool)
    (hAddress : ∀ hdr, d.readBlockHdr position (objectAddress - d.blockHeaderSize) = some hdr →
      ∃ hdr', (objectAddress - d.blockHeaderSize, hdr') ∈ blocks) :
    (d.delete position objectAddress removeObject = (false, d) ∧
        ∀ hdr, (objectAddress - d.blockHeaderSize, hdr) ∈ blocks → hdr.isFree = true) ∨
      ∃ l l' hdr, blocks = l ++ (objectAddress - d.blockHeaderSize, hdr) :: l' ∧
        hdr.isFree = false ∧ d.delete position objectAddress removeObject =
          (true, ((((d.countFreed removeObject).writeBlockHdr (freed hdr
            (if removeObject then gxRemovedBlock else gxDeletedBlock) d.fileHeader.gxdFsFptr)
            (objectAddress - d.blockHeaderSize)).setFsFptr
              (objectAddress - d.blockHeaderSize)).writeFileHdr)) := by
  generalize hBlock : objectAddress - (d.blockHeaderSize : Int) = a at hAddress
  simp only [delete, hBlock]
  have hStored (hdr : BlockHeader) (hb : (a, hdr) ∈ blocks) : d.readBlockHdr position a = some hdr := by
    rw [readBlockHdr, readPosition_pos position (h.bounds hb).1, h.stored _ hb, Option.filter_some,
      if_pos (h.sound _ hb).test]
  cases hRead : d.readBlockHdr position a with
  | none =>
    refine .inl ⟨rfl, fun hdr hb => ?_⟩
    rw [hStored hdr hb] at hRead
    cases hRead
  | some hdr =>
    dsimp only
    have hb : (a, hdr) ∈ blocks := by
      obtain ⟨hdr', hb⟩ := hAddress hdr hRead
      rwa [Option.some.inj (hRead.symm.trans (hStored hdr' hb))]
    have hSound := h.sound _ hb
    split
    · rename_i hStatus
      refine .inl ⟨rfl, fun hdr' hb' => ?_⟩
      rw [h.header_unique hb' hb, hSound.isFree_iff, ← hSound.status_eq]
      exact hStatus
    · rename_i hStatus
      have hUse : hdr.isFree = false := hSound.status_iff.mp (not_not.mp hStatus)
      obtain ⟨l, l', rfl⟩ := List.mem_iff_append.mp hb
      rw [if_neg h.gxdFsFptr_ne, setStatus_eq hSound, readPosition_pos _ (h.bounds hb).1]
      exact .inr ⟨l, l', hdr, rfl, hUse, rfl⟩

theorem countFreed_fileStats (d : Database) (removeObject : Bool) {status : Nat}
    (hStatus : status = if removeObject then gxRemovedBlock else gxDeletedBlock) :
    (d.countFreed removeObject).fileStats = {
      numBlocks := d.fileStats.numBlocks
      deletedBlocks := d.fileStats.deletedBlocks + if status = gxDeletedBlock then 1 else 0
      removedBlocks := d.fileStats.removedBlocks + if status = gxRemovedBlock then 1 else 0 } := by
  subst hStatus
  cases removeObject <;> simp [countFreed, gxDeletedBlock, gxRemovedBlock]

theorem freed_status (removeObject : Bool) :
    (if removeObject then gxRemovedBlock else gxDeletedBlock) = gxDeletedBlock ∨
      (if removeObject then gxRemovedBlock else gxDeletedBlock) = gxRemovedBlock := by
  cases removeObject
  · exact .inl rfl
  · exact .inr rfl

/-- `Delete` and `Remove` of a block, or of an address where there is none. -/
theorem Holds.delete_eq (h : d.Holds blocks free) (position objectAddress : Int) (removeObject : Bool)
    (hAddress : ∀ hdr, d.readBlockHdr position (objectAddress - d.blockHeaderSize) = some hdr →
      ∃ hdr', (objectAddress - d.blockHeaderSize, hdr') ∈ blocks) :
    ∃ blocks' free', Changes d (d.delete position objectAddress removeObject).2
        (objectAddress - d.blockHeaderSize) blocks blocks' free' ∧
      ((d.delete position objectAddress removeObject).1 = false →
        (d.delete position objectAddress removeObject).2 = d) ∧
      ((d.delete position objectAddress removeObject).1 = true → ∀ hdr,
        (objectAddress - d.blockHeaderSize, hdr) ∈ blocks' → hdr.isFree = true) := by
  rcases h.delete_cases position objectAddress removeObject hAddress with
    ⟨hSame, -⟩ | ⟨l, l', hdr, rfl, hUse, hDelete⟩
  · rw [hSame]
    exact ⟨_, _, .refl h, fun _ => rfl, nofun⟩
  · rw [hDelete]
    have hNew := freed_status removeObject
    have hChanges := h.changes_delete hUse hNew (e := d.countFreed removeObject)
      (Touches.of_file_eq rfl rfl rfl) rfl (countFreed_fileStats d removeObject rfl)
    refine ⟨_, _, hChanges, nofun, fun _ hdr hb' => ?_⟩
    rw [hChanges.holds.header_unique hb' (List.mem_append_right _ List.mem_cons_self)]
    exact freed_isFree hNew _

/-! ## `UnDelete` -/

theorem unlink_fileStats (d : Database) (hdr : BlockHeader) (prev : Option (Int × BlockHeader)) :
    (d.unlink hdr prev).fileStats = if 0 < d.fileStats.deletedBlocks then
      { d.fileStats with deletedBlocks := d.fileStats.deletedBlocks - 1 } else d.fileStats := by
  cases prev with
  | none => rw [unlink, writeFileHdr_fileStats, setFsFptr_fileStats]
  | some p => rfl

theorem unlink_fileHeader (d : Database) (hdr : BlockHeader) (prev : Option (Int × BlockHeader)) :
    (d.unlink hdr prev).fileHeader = (d.relink prev hdr.blockNdFptr).fileHeader := by
  cases prev with
  | none => simp [unlink, relink, setFsFptr]
  | some p => simp [unlink, relink]

theorem unlink_written {prev : Option (Int × BlockHeader)}
    (hPrev : ∀ p, prev = some p → (sizeOfFileHeader : Int) ≤ p.1)
    (hWords : ∀ w ∈ (d.unlink hdr prev).fileHeader.words, w < 2 ^ 64) :
    (d.unlink hdr prev).diskHeader = FileHeader.ofWords (d.unlink hdr prev).fileHeader.words ∨
      ((d.unlink hdr prev).diskHeader = d.diskHeader ∧
        (d.unlink hdr prev).fileHeader = d.fileHeader) := by
  cases prev with
  | none =>
    rw [unlink, writeFileHdr_fileHeader] at hWords ⊢
    exact .inl (diskHeader_writeFileHdr hWords)
  | some p => exact .inr ⟨diskHeader_writeBlockHdr (hPrev p rfl), rfl⟩

namespace Located

variable {prev : Option (Int × BlockHeader)} (h : d.Located l l' pre post a hdr prev)

include h

theorem unlink_spec : Touches (prev.toList.map fun p => (p.1, sizeOfBlockHeader)) d
    (d.unlink hdr prev) ∧ ∀ b ∈ l ++ l', (d.unlink hdr prev).readAt b.1 =
      some (relinked prev hdr.blockNdFptr b).2 := by
  have hSound := h.holds.sound _ List.mem_append_cons_self
  have hCount : Touches [] d { d with fileStats := if 0 < d.fileStats.deletedBlocks then
      { d.fileStats with deletedBlocks := d.fileStats.deletedBlocks - 1 } else d.fileStats } :=
    Touches.of_file_eq rfl rfl rfl
  have h' := h.of_touches hCount rfl nofun
  have hTouches := h'.holds.touches_relink hdr.blockNdFptr h'.prev_mem_blocks
  have hRead (b) (hb : b ∈ l ++ l') := h'.holds.readAt_relink (mem_others hb) h'.prev_mem_blocks
    hSound.next.1 hSound.next.2
  cases prev with
  | none => exact ⟨hCount.trans hTouches, hRead⟩
  | some p =>
    have hBounds := h.holds.bounds (h.prev_mem_blocks p rfl)
    have hRoom := (h.holds.header_le (h.prev_mem_blocks p rfl)).1
    have hUnlink : Touches [(p.1, sizeOfBlockHeader)] d (d.unlink hdr (some p)) :=
      hCount.trans (Touches.writeBlockHdr _ (by rw [hCount.fileSize]; omega))
    refine ⟨hUnlink, fun b hb => ?_⟩
    rw [← hRead b hb]
    exact ((Touches.writeFileStatsHdr (d := d.unlink hdr (some p))
      (by rw [hUnlink.rev, hUnlink.fileSize]; exact h.holds.fileHeaderSize_le)).readAt
      (by rw [hUnlink.rev]; exact (h.holds.bounds (mem_others hb)).2.1) nofun).symm

theorem changes_unDelete (hStatus : hdr.blockStatus = gxDeletedBlock) :
    Changes d ((d.unlink hdr prev).writeBlockHdr (.normal hdr.blockLength) a) a
      (l ++ (a, hdr) :: l')
      (l.map (relinked prev hdr.blockNdFptr) ++ ([(a, .normal hdr.blockLength)] ++
        l'.map (relinked prev hdr.blockNdFptr))) (pre ++ post) := by
  obtain ⟨hTouches, hRead⟩ := h.unlink_spec
  have hSelf : (a, hdr) ∈ l ++ (a, hdr) :: l' := List.mem_append_cons_self
  have hBounds := h.holds.bounds hSelf
  have hRoom := (h.holds.header_le hSelf).1
  have hSound := h.holds.sound _ hSelf
  have hNormal : (BlockHeader.normal hdr.blockLength).Sound d.overhead :=
    BlockHeader.normal_sound hSound.overhead
  dsimp only at hBounds hRoom
  have hWrite := Touches.writeBlockHdr (d := d.unlink hdr prev) (a := a)
    (.normal hdr.blockLength)
    (by rw [hTouches.fileSize]; omega)
  have hRead' := readAt_writeBlockHdr (d := d.unlink hdr prev) (hNormal.fits (h.holds.fits hSelf).length)
    hBounds.1.le
  have hOther (b) (hb : b ∈ l ++ l') : ((d.unlink hdr prev).writeBlockHdr (.normal hdr.blockLength)
      a).readAt b.1 = some (relinked prev hdr.blockNdFptr b).2 := by
    have hBounds' := h.holds.bounds (mem_others hb)
    have hRoom' := (h.holds.header_le (mem_others hb)).1
    have hApart := h.holds.tiles.apart hb
    dsimp only at hApart
    rw [hWrite.readAt (by rw [hTouches.rev]; exact hBounds'.2.1) fun p hp => ?_, hRead b hb]
    obtain rfl := List.mem_singleton.mp hp
    dsimp only
    omega
  refine {
    holds := h.holds.replace (hWrite.rev.trans hTouches.rev)
      (by simp [unlink_fileHeader]) (by simp [unlink_fileHeader])
      (hWrite.fileSize.trans hTouches.fileSize) ⟨rfl, rfl⟩ ?_ hSound.next.1 hSound.next.2 hOther ?_
      (List.nodup_cons.mp (List.nodup_middle.mp h.holds.nodup)).2 fun x => ?_
    rev := hWrite.rev.trans hTouches.rev
    counts := fun hCounts => ?_
    starts := (starts_inUse hdr _ ⟨_, List.mem_cons_self⟩ (h.relinked_inUse _)).1
    inUse := (starts_inUse hdr _ ⟨_, List.mem_cons_self⟩ (h.relinked_inUse _)).2
    before := inUse_before hdr _ (fun b hb _ => congrArg Prod.fst (List.mem_singleton.mp hb))
      (h.relinked_inUse _)
    kept := fun b hb hUse hne x => h.kept (hTouches.trans hWrite) (fun p hp => ?_) hb hUse hne
    start := by simp [unlink_fileHeader]
    sig := by simp [unlink_fileHeader]
    written := fun hWords => ?_ }
  · intro b hb
    obtain rfl := List.mem_singleton.mp hb
    exact ⟨hRead', hNormal⟩
  · rw [writeBlockHdr_fileHeader, unlink_fileHeader, Holds.relink_head h.prev_eq]
    exact h.holds.chain_relink hOther h.prev_eq id
  · exact h.mem_reused [] nofun
  · obtain ⟨hPos, -⟩ := hCounts.pos
    rw [writeBlockHdr_fileStats, unlink_fileStats, if_pos (hPos hStatus)]
    refine hCounts.replace rfl ?_ ?_
    · rw [countStatus_normal (by decide), countStatus_cons, if_pos hStatus]
      dsimp only [countStatus, List.countP_nil]
      omega
    · rw [countStatus_normal (by decide), countStatus_cons, if_neg (by rw [hStatus]; decide)]
      rfl
  · rw [List.mem_append, List.mem_map, List.mem_singleton] at hp
    rcases hp with ⟨q, hq, rfl⟩ | rfl
    · exact .inl ⟨q, Option.mem_toList.mp hq, rfl⟩
    · exact .inr ⟨Int.le_refl _, by dsimp only; omega⟩
  · have hBehind (b) (hb : b ∈ l ++ (a, hdr) :: l') : (sizeOfFileHeader : Int) ≤ b.1 := by
      have hLe := d.rev.sizeOfFileHeader_le
      have hPlace := (h.holds.bounds hb).2.1
      omega
    rw [diskHeader_writeBlockHdr (hBehind _ hSelf)]
    exact unlink_written (fun p hp => hBehind p (h.prev_mem_blocks p hp)) hWords

end Located

/-- `UnDelete` of a deleted block, or of an address where there is none. -/
theorem Holds.unDelete_cases (h : d.Holds blocks free) (hn : d.fileSize.toNat < n)
    (position objectAddress : Int)
    (hAddress : ∀ hdr, d.readBlockHdr position (objectAddress - d.blockHeaderSize) = some hdr →
      ∃ hdr', (objectAddress - d.blockHeaderSize, hdr') ∈ blocks) :
    (d.unDelete n position objectAddress = some (false, d) ∧
        ∀ hdr, (objectAddress - d.blockHeaderSize, hdr) ∈ blocks → hdr.status ≠ gxDeletedBlock) ∨
      ∃ l l' pre post hdr prev, blocks = l ++ (objectAddress - d.blockHeaderSize, hdr) :: l' ∧
        free = pre ++ (objectAddress - d.blockHeaderSize) :: post ∧
        d.Located l l' pre post (objectAddress - d.blockHeaderSize) hdr prev ∧
        hdr.blockStatus = gxDeletedBlock ∧ d.unDelete n position objectAddress =
          some (true, (d.unlink hdr prev).writeBlockHdr (.normal hdr.blockLength)
            (objectAddress - d.blockHeaderSize)) := by
  generalize hBlock : objectAddress - (d.blockHeaderSize : Int) = address at hAddress
  simp only [unDelete, hBlock]
  have hStored (hdr : BlockHeader) (hb : (address, hdr) ∈ blocks) :
      d.readBlockHdr position address = some hdr := by
    rw [readBlockHdr, readPosition_pos position (h.bounds hb).1, h.stored _ hb, Option.filter_some,
      if_pos (h.sound _ hb).test]
  cases hRead : d.readBlockHdr position address with
  | none =>
    refine .inl ⟨rfl, fun hdr hb => ?_⟩
    rw [hStored hdr hb] at hRead
    cases hRead
  | some hdr =>
    dsimp only
    have hb : (address, hdr) ∈ blocks := by
      obtain ⟨hdr', hb⟩ := hAddress hdr hRead
      rwa [Option.some.inj (hRead.symm.trans (hStored hdr' hb))]
    have hSound := h.sound _ hb
    split
    · rename_i hStatus
      refine .inl ⟨rfl, fun hdr' hb' => ?_⟩
      rwa [h.header_unique hb' hb]
    · rename_i hStatus
      have hDeleted : hdr.blockStatus = gxDeletedBlock := by
        rw [← hSound.status_eq]
        exact not_not.mp hStatus
      obtain ⟨r, hWalk, hPassed, hEnd⟩ := h.walk_eq (fun a _ => a = address)
        (fun position a => readPosition_pos position) hn
        (readPosition position address + sizeOfBlockHeader)
      rw [hWalk, Option.map_some]
      rcases hEnd with ⟨hNone, hAll⟩ | ⟨a, hdr', post, hFound, hFree, hb', hAccept⟩
      · -- The walk cannot pass the block.
        have hListed : address ∈ free := by
          rw [h.mem_free_iff hb, hSound.isFree_iff, hDeleted]
          decide
        rw [← hAll] at hListed
        obtain ⟨c, hc, hAddr⟩ := List.mem_map.mp hListed
        exact absurd hAddr (of_decide_eq_false (hPassed c hc).2)
      · obtain rfl : a = address := of_decide_eq_true hAccept
        obtain rfl := h.header_unique hb hb'
        obtain ⟨l, l', rfl, hLocated⟩ := h.located (fun b hb => (hPassed b hb).1) hFree hb
        have hNormal : { hdr with blockStatus := hdr.setStatus gxNormalBlock, blockNdFptr := 0 } =
            BlockHeader.normal hdr.blockLength := by
          rw [setStatus_eq hSound, hSound.check]
          rfl
        rw [hFound]
        dsimp only
        rw [hNormal]
        exact .inr ⟨l, l', _, post, hdr, _, rfl, hFree, hLocated, hDeleted, rfl⟩

/-- `UnDelete` of a block, or of an address where there is none. -/
theorem Holds.unDelete_eq (h : d.Holds blocks free) (hn : d.fileSize.toNat < n)
    (position objectAddress : Int)
    (hAddress : ∀ hdr, d.readBlockHdr position (objectAddress - d.blockHeaderSize) = some hdr →
      ∃ hdr', (objectAddress - d.blockHeaderSize, hdr') ∈ blocks) :
    ∃ r blocks' free', d.unDelete n position objectAddress = some r ∧
      Changes d r.2 (objectAddress - d.blockHeaderSize) blocks blocks' free' ∧
      (r.1 = false → r.2 = d) ∧
      (r.1 = true → ∃ hdr, (objectAddress - d.blockHeaderSize, hdr) ∈ blocks ∧ hdr.isFree = true ∧
        (objectAddress - d.blockHeaderSize, .normal hdr.blockLength) ∈ blocks') := by
  rcases h.unDelete_cases hn position objectAddress hAddress with
    ⟨hSame, -⟩ | ⟨l, l', pre, post, hdr, prev, rfl, rfl, hLocated, hDeleted, hUnDelete⟩
  · exact ⟨_, _, _, hSame, .refl h, fun _ => rfl, nofun⟩
  · refine ⟨_, _, _, hUnDelete, hLocated.changes_unDelete hDeleted, nofun, fun _ => ?_⟩
    exact ⟨hdr, List.mem_append_cons_self, hLocated.isFree,
      List.mem_append_right _ List.mem_cons_self⟩

end DataReel.Database
