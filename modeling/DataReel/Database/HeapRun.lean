import DataReel.Database.HeapCalls
import DataReel.Database.ListEnds
import DataReel.Library.Machine

/-! # Runs of calls on a new file

Any history of allocations, deletions and `UnDelete` calls leaves blocks that
tile the heap, a list that goes over the free ones, and the bytes of the blocks
in use.
-/

namespace DataReel

inductive HeapCall
  | alloc (bytes : Nat) (method : ReclaimMethod)
  | delete (objectAddress : Int)
  | remove (objectAddress : Int)
  | unDelete (objectAddress : Int)
  deriving DecidableEq, Repr

/-- What a call returns, if it does. -/
inductive HeapReply
  | address (a : Int)
  | flag (b : Bool)
  | never
  deriving DecidableEq, Repr

namespace Database

/-- The calls, each with the file position it starts from. A walk that has not ended after as many
turns as the file has bytes does not end. -/
def heapCalls : Machine (Int × HeapCall) HeapReply Database where
  step c d :=
    match c.2 with
    | .alloc bytes method =>
      match d.alloc (d.fileSize.toNat + 1) c.1 bytes method with
      | some (a, d') => (.address a, d')
      | none => (.never, d)
    | .delete a => (.flag (d.delete c.1 a false).1, (d.delete c.1 a false).2)
    | .remove a => (.flag (d.delete c.1 a true).1, (d.delete c.1 a true).2)
    | .unDelete a =>
      match d.unDelete (d.fileSize.toNat + 1) c.1 a with
      | some (b, d') => (.flag b, d')
      | none => (.never, d)

variable (d : Database)

/-- The blocks from an address on, each behind the one before it. -/
def blocksFrom : Nat → Int → List (Int × BlockHeader)
  | 0, _ => []
  | n + 1, a =>
    if a < d.fileHeader.gxdEof then
      match d.readAt a with
      | none => []
      | some hdr => (a, hdr) :: blocksFrom n (a + hdr.blockLength)
    else []

def blocks : List (Int × BlockHeader) := d.blocksFrom d.fileSize.toNat d.fileHeader.gxdHsFptr

/-- The heap and what the headers say of it. -/
structure Sound : Prop where
  tiles : Tiles BlockHeader.blockLength d.fileHeader.gxdHsFptr d.blocks d.fileHeader.gxdEof
  valid : ∀ b ∈ d.blocks, d.readAt b.1 = some b.2 ∧ b.2.test = true ∧
    (b.2.status = gxNormalBlock ∨ b.2.isFree = true)
  list : ∃ free, Segment d.nextFptr d.fileHeader.gxdFsFptr free 0 ∧ free.Nodup ∧
    ∀ a, a ∈ free ↔ ∃ hdr, (a, hdr) ∈ d.blocks ∧ hdr.isFree = true
  stats : d.rev.hasStats = true → d.fileStats.numBlocks = d.blocks.length ∧
    d.fileStats.deletedBlocks = d.blocks.countP (fun b => b.2.status = gxDeletedBlock) ∧
    d.fileStats.removedBlocks = d.blocks.countP (fun b => b.2.status = gxRemovedBlock)

end Database

namespace HeapCall

/-- The object that a call deletes, removes or undeletes. -/
def target : HeapCall → Option Int
  | alloc _ _ => none
  | delete a | remove a | unDelete a => some a

/-- The new block ends at an address, and a call on an object finds a block at its address if it
finds one. -/
def Allowed (c : Int × HeapCall) (d : Database) : Prop :=
  match c.2 with
  | .alloc bytes _ => d.fileHeader.gxdEof + (bytes + d.overhead) < 2 ^ 63
  | .delete a | .remove a | .unDelete a =>
    ∀ hdr ∈ d.readBlockHdr c.1 (a - d.blockHeaderSize),
      a - d.blockHeaderSize ∈ d.blocks.map Prod.fst

instance (d : Database) : ∀ c, Decidable (Allowed c d)
  | (_, .alloc bytes _) =>
    inferInstanceAs (Decidable (d.fileHeader.gxdEof + (bytes + d.overhead) < 2 ^ 63))
  | (position, .delete a) | (position, .remove a) | (position, .unDelete a) =>
    inferInstanceAs (Decidable (∀ hdr ∈ d.readBlockHdr position (a - d.blockHeaderSize),
      a - d.blockHeaderSize ∈ d.blocks.map Prod.fst))

/-- What a call does. -/
structure Serves (c : Int × HeapCall) (d : Database) : Prop where
  returns : (Database.heapCalls.step c d).1 ≠ .never
  allocated : ∀ bytes method, c.2 = .alloc bytes method →
    ∃ a hdr, (Database.heapCalls.step c d).1 = .address (a + d.blockHeaderSize) ∧
      (a, hdr) ∈ (Database.heapCalls.step c d).2.blocks ∧ hdr.status = gxNormalBlock ∧
      (∀ b ∈ d.blocks, b.2.status = gxNormalBlock → b.1 ≠ a) ∧
      ∀ position, (Database.heapCalls.step c d).2.objectLength position (a + d.blockHeaderSize) =
        bytes
  kept : ∀ b ∈ d.blocks, b.2.status = gxNormalBlock → c.2.target ≠ some (b.1 + d.blockHeaderSize) →
    ∀ x, b.1 + d.blockHeaderSize ≤ x → x < b.1 + b.2.blockLength →
      (Database.heapCalls.step c d).2.file x = d.file x

end HeapCall

namespace Database

variable {d d' : Database} {blocks : List (Int × BlockHeader)} {free : List Int} {a : Int}

theorem blocksFrom_eq {e : Int} (hTiles : Tiles BlockHeader.blockLength a blocks e)
    (hEof : e = d.fileHeader.gxdEof) (hStored : ∀ b ∈ blocks, d.readAt b.1 = some b.2)
    (hPos : ∀ b ∈ blocks, 0 < b.2.blockLength) {n : Nat} (hn : blocks.length ≤ n) :
    d.blocksFrom n a = blocks := by
  induction blocks generalizing a n with
  | nil =>
    cases n with
    | zero => rfl
    | succ n => rw [blocksFrom, if_neg (by rw [← hEof, show a = e from hTiles]; omega)]
  | cons b l ih =>
    obtain ⟨n, rfl⟩ := Nat.exists_eq_succ_of_ne_zero (Nat.ne_of_gt (Nat.lt_of_lt_of_le
      (Nat.succ_pos _) hn))
    obtain ⟨rfl, hRest⟩ := hTiles
    have hLast := hRest.le
    have hLength := hPos b List.mem_cons_self
    rw [blocksFrom, if_pos (by omega), hStored b List.mem_cons_self]
    dsimp only
    rw [ih hRest (fun c hc => hStored c (List.mem_cons_of_mem _ hc))
      (fun c hc => hPos c (List.mem_cons_of_mem _ hc)) (Nat.le_of_succ_le_succ hn)]

theorem Holds.blocks_eq (h : d.Holds blocks free) : d.blocks = blocks := by
  have hLength := length_le_of_tiles h.tiles fun b => h.blockLength_pos
  have hStart := h.start
  have hSize := h.fileSize
  exact blocksFrom_eq h.tiles rfl h.stored (fun b => h.blockLength_pos) (by omega)

/-- What the calls preserve. -/
def Kept (d : Database) : Prop := ∃ blocks free, d.Holds blocks free ∧ Counts d.fileStats blocks

theorem Kept.sound (h : d.Kept) : d.Sound := by
  obtain ⟨blocks, free, hHolds, hNum, hDeleted, hRemoved⟩ := h
  have hBlocks := hHolds.blocks_eq
  have hCount (status : Nat) : blocks.countP (fun b => b.2.status = status) =
      countStatus status blocks :=
    List.countP_congr fun b hb => by rw [(hHolds.sound b hb).status_eq]
  refine ⟨?_, ?_, ⟨free, hHolds.chain, hHolds.nodup, ?_⟩, fun _ => ?_⟩
  · rw [hBlocks]
    exact hHolds.tiles
  · rw [hBlocks]
    intro b hb
    have hSound := hHolds.sound b hb
    refine ⟨hHolds.stored b hb, hSound.test, ?_⟩
    rw [hSound.status_iff]
    exact (Bool.eq_false_or_eq_true _).symm
  · rw [hBlocks]
    exact hHolds.free_iff
  · rw [hBlocks, hCount, hCount]
    exact ⟨hNum, hDeleted, hRemoved⟩

theorem Holds.objectLength_eq (h : d.Holds blocks free) {bytes : Nat}
    (hb : (a, .normal (bytes + d.overhead)) ∈ blocks) (position : Int) :
    d.objectLength position (a + d.blockHeaderSize) = bytes := by
  have hPos := (h.bounds hb).1
  have hLength := h.blockLength_lt hb
  rw [objectLength, Int.add_sub_cancel, readBlockHdr, readPosition_pos position hPos, h.stored _ hb,
    Option.filter_some, if_pos (h.sound _ hb).test]
  dsimp only [BlockHeader.normal] at hLength ⊢
  omega

theorem Changes.kept_of_target (hHolds : d.Holds blocks free) {blocks' : List (Int × BlockHeader)}
    {free' : List Int} (h : Changes d d' a blocks blocks' free') :
    ∀ b ∈ d.blocks, b.2.status = gxNormalBlock → b.1 ≠ a →
      ∀ x, b.1 + d.blockHeaderSize ≤ x → x < b.1 + b.2.blockLength → d'.file x = d.file x := by
  rw [hHolds.blocks_eq]
  intro b hb hUse hne x hLow hHigh
  refine h.kept b hb ((hHolds.sound b hb).status_iff.mp hUse) hne x ?_ hHigh
  omega

end Database

namespace HeapCall

open Database

variable {d : Database} {blocks : List (Int × BlockHeader)} {free : List Int}

/-- What a call answers and does to the block at an address. -/
inductive Effect (d d' : Database) (blocks blocks' : List (Int × BlockHeader)) (a : Int) :
    HeapCall → HeapReply → Prop
  | allocated {bytes : Nat} {method : ReclaimMethod}
    (new : (a, .normal (bytes + d.overhead)) ∈ blocks')
    (free : ∀ hdr, (a, hdr) ∈ blocks → hdr.isFree = true) :
    Effect d d' blocks blocks' a (.alloc bytes method) (.address (a + d.blockHeaderSize))
  | refused {c : HeapCall} (target : c.target = some (a + d.blockHeaderSize)) (same : d' = d) :
    Effect d d' blocks blocks' a c (.flag false)
  | deleted : Effect d d' blocks blocks' a (.delete (a + d.blockHeaderSize)) (.flag true)
  | removed : Effect d d' blocks blocks' a (.remove (a + d.blockHeaderSize)) (.flag true)
  | undeleted (hdr : BlockHeader) (old : (a, hdr) ∈ blocks) (free : hdr.isFree = true)
    (new : (a, .normal hdr.blockLength) ∈ blocks') :
    Effect d d' blocks blocks' a (.unDelete (a + d.blockHeaderSize)) (.flag true)

theorem block_of_allowed (h : d.Holds blocks free) {position a : Int}
    (hAllowed : ∀ hdr ∈ d.readBlockHdr position (a - d.blockHeaderSize),
      a - d.blockHeaderSize ∈ d.blocks.map Prod.fst) :
    ∀ hdr, d.readBlockHdr position (a - d.blockHeaderSize) = some hdr →
      ∃ hdr', (a - d.blockHeaderSize, hdr') ∈ blocks := by
  intro hdr hRead
  have hMem := hAllowed hdr hRead
  rw [h.blocks_eq] at hMem
  obtain ⟨b, hb, hAddr⟩ := List.mem_map.mp hMem
  exact ⟨b.2, hAddr ▸ hb⟩

theorem step_effect (c : Int × HeapCall) (h : d.Holds blocks free) (hAllowed : Allowed c d) :
    ∃ a blocks' free', Changes d (heapCalls.step c d).2 a blocks blocks' free' ∧
      Effect d (heapCalls.step c d).2 blocks blocks' a c.2 (heapCalls.step c d).1 := by
  obtain ⟨position, call⟩ := c
  have hTurns : d.fileSize.toNat < d.fileSize.toNat + 1 := Nat.lt_succ_self _
  cases call with
  | alloc bytes method =>
    obtain ⟨a, d', blocks', free', hAlloc, hChanges, hNew, hFree⟩ :=
      h.alloc_eq hTurns position hAllowed method
    have hStep : heapCalls.step (position, .alloc bytes method) d =
        (.address (a + d.blockHeaderSize), d') := by
      simp only [heapCalls, hAlloc]
      rfl
    rw [hStep]
    exact ⟨a, blocks', free', hChanges, .allocated hNew hFree⟩
  | delete x =>
    obtain ⟨a, rfl⟩ : ∃ a, x = a + d.blockHeaderSize := ⟨x - d.blockHeaderSize, by omega⟩
    obtain ⟨blocks', free', hChanges, hRefused, -⟩ := h.delete_eq position _ false
      (block_of_allowed h hAllowed)
    rw [Int.add_sub_cancel] at hChanges
    refine ⟨a, blocks', free', hChanges, ?_⟩
    simp only [heapCalls]
    cases hFlag : (d.delete position (a + d.blockHeaderSize) false).1 with
    | false => exact .refused rfl (hRefused hFlag)
    | true => exact .deleted
  | remove x =>
    obtain ⟨a, rfl⟩ : ∃ a, x = a + d.blockHeaderSize := ⟨x - d.blockHeaderSize, by omega⟩
    obtain ⟨blocks', free', hChanges, hRefused, -⟩ := h.delete_eq position _ true
      (block_of_allowed h hAllowed)
    rw [Int.add_sub_cancel] at hChanges
    refine ⟨a, blocks', free', hChanges, ?_⟩
    simp only [heapCalls]
    cases hFlag : (d.delete position (a + d.blockHeaderSize) true).1 with
    | false => exact .refused rfl (hRefused hFlag)
    | true => exact .removed
  | unDelete x =>
    obtain ⟨a, rfl⟩ : ∃ a, x = a + d.blockHeaderSize := ⟨x - d.blockHeaderSize, by omega⟩
    obtain ⟨⟨flag, d'⟩, blocks', free', hUnDelete, hChanges, hRefused, hFound⟩ :=
      h.unDelete_eq hTurns position _ (block_of_allowed h hAllowed)
    rw [Int.add_sub_cancel] at hChanges hFound
    have hStep : heapCalls.step (position, .unDelete (a + d.blockHeaderSize)) d =
        (.flag flag, d') := by
      simp only [heapCalls, hUnDelete]
    rw [hStep]
    refine ⟨a, blocks', free', hChanges, ?_⟩
    cases flag with
    | false => exact .refused rfl (hRefused rfl)
    | true =>
      obtain ⟨hdr, hOld, hFree, hNew⟩ := hFound rfl
      exact .undeleted hdr hOld hFree hNew

theorem Effect.ne {d' : Database} {a : Int} {blocks' : List (Int × BlockHeader)} {c : HeapCall}
    {reply : HeapReply} (h : Effect d d' blocks blocks' a c reply) {b : Int × BlockHeader}
    (hb : b ∈ blocks) (hUse : b.2.isFree = false)
    (hTarget : c.target ≠ some (b.1 + d.blockHeaderSize)) : b.1 ≠ a := by
  rintro rfl
  cases h with
  | allocated _ hFree =>
    rw [hFree b.2 hb] at hUse
    cases hUse
  | refused target => exact hTarget target
  | deleted | removed | undeleted => exact hTarget rfl

/-- What a call on a heap does is what it is for. -/
theorem serves_of_effect {c : Int × HeapCall} {a : Int} {blocks' : List (Int × BlockHeader)}
    {free' : List Int} (h : d.Holds blocks free)
    (hChanges : Changes d (heapCalls.step c d).2 a blocks blocks' free')
    (hEffect : Effect d (heapCalls.step c d).2 blocks blocks' a c.2 (heapCalls.step c d).1) :
    Serves c d := by
  refine ⟨?_, fun bytes method hAlloc => ?_, fun b hb hUse hTarget => ?_⟩
  · intro hNever
    rw [hNever] at hEffect
    generalize c.2 = call at hEffect
    cases hEffect
  · rw [hAlloc] at hEffect
    generalize hReply : (heapCalls.step c d).1 = reply at hEffect
    cases hEffect with
    | refused target => cases target
    | allocated new hFree =>
      have hOverhead : d.overhead = (heapCalls.step c d).2.overhead := by
        rw [overhead, overhead, hChanges.rev]
      have hSize : d.blockHeaderSize = (heapCalls.step c d).2.blockHeaderSize := by
        rw [blockHeaderSize, blockHeaderSize, hChanges.rev]
      refine ⟨a, .normal (bytes + d.overhead), rfl, ?_, ?_, ?_, fun position => ?_⟩
      · rw [hChanges.holds.blocks_eq]
        exact new
      · exact (hChanges.holds.sound _ new).status_eq
      · rw [h.blocks_eq]
        rintro b hb hUse rfl
        rw [(h.sound b hb).status_iff, hFree b.2 hb] at hUse
        cases hUse
      · rw [hOverhead] at new
        rw [hSize]
        exact hChanges.holds.objectLength_eq new position
  · have hBlock := hb
    rw [h.blocks_eq] at hBlock
    exact hChanges.kept_of_target h b hb hUse
      (hEffect.ne hBlock ((h.sound b hBlock).status_iff.mp hUse) hTarget)

theorem serves_step (c : Int × HeapCall) (h : d.Kept) (hAllowed : Allowed c d) :
    Serves c d ∧ (heapCalls.step c d).2.Kept := by
  obtain ⟨blocks, free, hHolds, hCounts⟩ := h
  obtain ⟨a, blocks', free', hChanges, hEffect⟩ := step_effect c hHolds hAllowed
  exact ⟨serves_of_effect hHolds hChanges hEffect, blocks', free', hChanges.holds,
    hChanges.counts hCounts⟩

end HeapCall

namespace Database

/-- The header of a new file. -/
def newHeader (rev : Revision) (staticSize : Nat) : FileHeader where
  gxdFsFptr := 0
  gxdEof := staticSize + rev.fileHeaderSize
  gxdHsFptr := staticSize + rev.fileHeaderSize
  gxdHbFptr := 0
  gxdSig := (gxSignature.1, gxSignature.2 + rev.letter * 256)
  gxdVer := gxVersion

theorem create_fileHeader (rev : Revision) (staticSize : Nat) :
    (create rev staticSize).fileHeader = newHeader rev staticSize := by
  cases rev <;> simp only [create] <;> split <;> rfl

theorem create_rev (rev : Revision) (staticSize : Nat) : (create rev staticSize).rev = rev := by
  cases rev <;> simp only [create] <;> split <;> rfl

theorem create_fileSize (rev : Revision) (staticSize : Nat) :
    (create rev staticSize).fileSize = staticSize + rev.fileHeaderSize := by
  cases rev <;> simp only [create] <;> split <;>
    simp_all [writeZeros, writeFileHdr, writeFileStatsHdr, writeWords, Revision.hasStats,
      Revision.hasFileLock, Revision.fileHeaderSize, sizeOfFileHeader, sizeOfFileLockHeader,
      sizeOfFileStatsHeader, fileStatsAddress, FileHeader.words, FileStatsHeader.words]

theorem create_kept (rev : Revision) {staticSize : Nat}
    (hStatic : staticSize + rev.fileHeaderSize < 2 ^ 63) : (create rev staticSize).Kept := by
  have hHeader := create_fileHeader rev staticSize
  have hStats : (create rev staticSize).fileStats = .init := by
    cases rev <;> simp only [create] <;> split <;> rfl
  have hFree : (create rev staticSize).fileHeader.gxdFsFptr = 0 := by
    rw [hHeader]
    rfl
  refine ⟨[], [], ⟨?_, ?_, ?_, ?_, nofun, nofun, hFree, List.nodup_nil, ?_⟩, ?_⟩
  · rw [hHeader, create_rev]
    dsimp only [newHeader]
    omega
  · rw [hHeader]
    rfl
  · rw [hHeader, create_fileSize]
    rfl
  · rw [hHeader]
    dsimp only [newHeader]
    omega
  · exact fun a => iff_of_false nofun nofun
  · rw [hStats]
    exact ⟨rfl, rfl, rfl⟩

theorem newHeader_words_lt (rev : Revision) (staticSize : Nat) :
    ∀ w ∈ (newHeader rev staticSize).words, w < 2 ^ 64 := by
  rw [FileHeader.words_lt_iff]
  change gxSignature.1 < 2 ^ 64 ∧ gxSignature.2 + rev.letter * 256 < 2 ^ 64
  cases rev <;> decide

theorem create_diskHeader (rev : Revision) {staticSize : Nat}
    (hStatic : staticSize + rev.fileHeaderSize < 2 ^ 63) :
    (create rev staticSize).diskHeader = newHeader rev staticSize := by
  have hWords : FileHeader.ofWords (newHeader rev staticSize).words = newHeader rev staticSize := by
    have hSize : intOfWord (wordOfInt (staticSize + rev.fileHeaderSize)) =
        staticSize + rev.fileHeaderSize := intOfWord_wordOfInt (by omega) (by omega)
    simp only [FileHeader.words, FileHeader.ofWords, newHeader, hSize]
    rfl
  have hNew (d : Database) (hHeader : d.fileHeader = newHeader rev staticSize) :
      d.writeFileHdr.diskHeader = newHeader rev staticSize := by
    rw [diskHeader_writeFileHdr (hHeader ▸ newHeader_words_lt rev staticSize), hHeader, hWords]
  have hLock (d : Database) (hDisk : d.diskHeader = newHeader rev staticSize) :
      (if rev.hasFileLock then d.writeWords sizeOfFileHeader [0, 0, 0] else d).diskHeader =
        newHeader rev staticSize := by
    split
    · rw [← hDisk]
      exact diskHeader_congr fun x _ hx => Bytes.writeWords_outside (.inl hx)
    · exact hDisk
  have hHeap (d : Database) (hDisk : d.diskHeader = newHeader rev staticSize) :
      (if (rev.fileHeaderSize : Int) < staticSize + rev.fileHeaderSize then
        d.writeZeros (staticSize + rev.fileHeaderSize - 1) 1 else d).diskHeader =
        newHeader rev staticSize := by
    have hSize := rev.sizeOfFileHeader_le
    split
    · rw [← hDisk]
      exact diskHeader_congr fun x _ hx => Bytes.write_outside (.inl (by omega))
    · exact hDisk
  exact hHeap _ (hLock _ (hNew _ rfl))

theorem testFileHeader_eq {d : Database} (hSize : (sizeOfFileHeader : Int) ≤ d.fileSize) :
    d.testFileHeader.file = d.file ∧ d.testFileHeader.fileSize = d.fileSize ∧
      (d.testFileHeader = d ∨ (d.testFileHeader.fileHeader = d.diskHeader ∧
        d.testFileHeader.rev = revOfSig d.diskHeader.gxdSig)) := by
  have hOver : FileHeader.ofWords (d.readOver 0 d.fileHeader.words) = d.diskHeader :=
    congrArg FileHeader.ofWords (readOver_eq (by
      change (0 : Int) + 8 * 7 ≤ d.fileSize
      rw [sizeOfFileHeader] at hSize
      omega))
  have hNot : ¬ d.fileSize < sizeOfFileHeader := by omega
  rw [testFileHeader, if_neg hNot]
  split
  · exact ⟨rfl, rfl, .inl rfl⟩
  · simp only [readFileHdr, hOver, if_neg hNot]
    split
    · exact ⟨rfl, rfl, .inr ⟨rfl, rfl⟩⟩
    · exact ⟨rfl, rfl, .inr ⟨rfl, rfl⟩⟩

theorem disk_header {d d' : Database} {a : Int} {blocks blocks' : List (Int × BlockHeader)}
    {free' : List Int} (hChanges : Changes d d' a blocks blocks' free')
    (hWords : d.fileHeader.gxdSig.1 < 2 ^ 64 ∧ d.fileHeader.gxdSig.2 < 2 ^ 64)
    (hFsFptr : d.diskHeader.gxdFsFptr = d.fileHeader.gxdFsFptr)
    (hEof : d.diskHeader.gxdEof = d.fileHeader.gxdEof)
    (hStart : d.diskHeader.gxdHsFptr = d.fileHeader.gxdHsFptr)
    (hSig : d.diskHeader.gxdSig = d.fileHeader.gxdSig) :
    d'.diskHeader.gxdFsFptr = d'.fileHeader.gxdFsFptr ∧
      d'.diskHeader.gxdEof = d'.fileHeader.gxdEof ∧
      d'.diskHeader.gxdHsFptr = d'.fileHeader.gxdHsFptr ∧
      d'.diskHeader.gxdSig = d'.fileHeader.gxdSig := by
  have hHolds := hChanges.holds
  have hFs := hHolds.gxdFsFptr_bounds
  have hLimit := hHolds.limit
  have hFirst := hHolds.start
  have hTiles := hHolds.tiles.le
  have hAll := FileHeader.words_lt_iff.mpr (hChanges.sig ▸ hWords)
  rcases hChanges.written hAll with hNew | ⟨hOld, hHeader⟩
  · rw [hNew]
    refine ⟨?_, ?_, ?_, rfl⟩
    · exact intOfWord_wordOfInt (by omega) hFs.2
    · exact intOfWord_wordOfInt (by omega) hLimit
    · exact intOfWord_wordOfInt (by omega) (by omega)
  · rw [hOld, hHeader]
    exact ⟨hFsFptr, hEof, hStart, hSig⟩

theorem run_kept (rev : Revision) {staticSize : Nat}
    (hStatic : staticSize + rev.fileHeaderSize < 2 ^ 63) {calls : List (Int × HeapCall)}
    (hCalls : heapCalls.Along HeapCall.Allowed calls (create rev staticSize)) :
    (heapCalls.run calls (create rev staticSize)).2.Kept := by
  refine Machine.run_invariant (P := HeapCall.Allowed) ?_ (create_kept rev hStatic) hCalls
  intro c d hKept hAllowed
  exact (HeapCall.serves_step c hKept hAllowed).2

/-- Any history of calls on a new file keeps its heap. -/
theorem heapCalls_sound (rev : Revision) {staticSize : Nat}
    (hStatic : staticSize + rev.fileHeaderSize < 2 ^ 63) {calls : List (Int × HeapCall)}
    (hCalls : heapCalls.Along HeapCall.Allowed calls (create rev staticSize)) :
    heapCalls.Along HeapCall.Serves calls (create rev staticSize) ∧
      (heapCalls.run calls (create rev staticSize)).2.Sound := by
  constructor
  · exact Machine.along_of_invariant (fun c d hKept => HeapCall.serves_step c hKept)
      (create_kept rev hStatic) hCalls
  · exact (run_kept rev hStatic hCalls).sound

/-- A deleted block is split, what is left of it is reused, and another block is deleted, found again
and removed. -/
theorem heapCalls_sound_E :
    heapCalls.Along HeapCall.Serves
      [(0, .alloc 100 .none), (136, .alloc 8 .bestFit), (268, .delete 136),
        (104, .alloc 8 .firstFit), (136, .alloc 60 .bestFit), (176, .delete 268),
        (104, .unDelete 268), (268, .remove 268), (104, .delete 999)] (create .E 0) ∧
    (heapCalls.run
      [(0, .alloc 100 .none), (136, .alloc 8 .bestFit), (268, .delete 136),
        (104, .alloc 8 .firstFit), (136, .alloc 60 .bestFit), (176, .delete 268),
        (104, .unDelete 268), (268, .remove 268), (104, .delete 999)] (create .E 0)).2.Sound :=
  heapCalls_sound .E (by decide) (by decide +kernel)

/-- An object address whose block address is `gxCurrAddress`: the first block header is read where the
last call has left the file position, and written behind it, over that of the second block. -/
theorem heapCalls_unsound : ¬ (heapCalls.run
    [(0, .alloc 8 .none), (136, .alloc 8 .none), (176, .delete 176), (104, .delete 31)]
    (create .E 0)).2.Sound := by
  intro h
  have hTest : ∀ b ∈ (heapCalls.run
      [(0, .alloc 8 .none), (136, .alloc 8 .none), (176, .delete 176), (104, .delete 31)]
      (create .E 0)).2.blocks, b.2.test = true := fun b hb => (h.valid b hb).2.1
  revert hTest
  decide +kernel

end Database

end DataReel
