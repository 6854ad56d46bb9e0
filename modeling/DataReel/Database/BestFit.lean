import DataReel.Database.HeapRun

/-! # Best-fit allocation

What `Alloc` with `gxDBASE_RECLAIM_BESTFIT` is to choose from the free space
list, and when it does. The best block so far leaves no unused bytes at first,
and no block leaves less.
-/

namespace DataReel.Database

/-- A free block that is split for an allocation: what it has left is enough for a block of its own and
at most 2.5 times what is needed. -/
structure Splittable (d : Database) (bytes : Nat) (hdr : BlockHeader) : Prop where
  isFree : hdr.isFree = true
  room : bytes + d.overhead < hdr.blockLength
  limit : 2 * (hdr.blockLength - bytes) ≤ 5 * bytes

/-- A free block of just the length that is needed. -/
structure ExactFit (bytes : Nat) (hdr : BlockHeader) : Prop where
  isFree : hdr.isFree = true
  length : hdr.blockLength = bytes

/-- The allocation takes a free block, and has put so many blocks of unused bytes on the list. -/
structure Reuses (d : Database) (bytes : Nat) (b : Int × BlockHeader) (rests : Int)
    (r : Int × Database) : Prop where
  address : r.1 = b.1 + d.blockHeaderSize
  inUse : (b.1, .normal bytes) ∈ r.2.blocks
  gxdEof : r.2.fileHeader.gxdEof = d.fileHeader.gxdEof
  deletedBlocks : r.2.fileStats.deletedBlocks =
    d.fileStats.deletedBlocks - if b.2.status = gxDeletedBlock then 1 else 0
  removedBlocks : r.2.fileStats.removedBlocks =
    d.fileStats.removedBlocks - (if b.2.status = gxRemovedBlock then 1 else 0) + rests

/-- An allocation of a block of `bytes` bytes with its headers is a best fit. -/
structure BestFits (d : Database) (bytes : Nat) (r : Int × Database) : Prop where
  exact : (∃ b ∈ d.blocks, ExactFit bytes b.2) →
    ∃ b ∈ d.blocks, ExactFit bytes b.2 ∧ d.Reuses bytes b 0 r
  best : (¬ ∃ b ∈ d.blocks, ExactFit bytes b.2) → (∃ b ∈ d.blocks, d.Splittable bytes b.2) →
    ∃ b ∈ d.blocks, d.Splittable bytes b.2 ∧
      (∀ c ∈ d.blocks, d.Splittable bytes c.2 → b.2.blockLength ≤ c.2.blockLength) ∧
      d.Reuses bytes b 1 r ∧
      ∃ hdr, (b.1 + bytes, hdr) ∈ r.2.blocks ∧ hdr.isFree = true ∧
        hdr.blockLength = b.2.blockLength - bytes
  extend : r.2.fileHeader.gxdEof ≠ d.fileHeader.gxdEof →
    (¬ ∃ b ∈ d.blocks, ExactFit bytes b.2) ∧ ¬ ∃ b ∈ d.blocks, d.Splittable bytes b.2

variable {d : Database} {blocks l l' : List (Int × BlockHeader)} {free pre post : List Int} {a : Int}
  {hdr : BlockHeader} {prev : Option (Int × BlockHeader)} {bytes n : Nat}

theorem Located.reuses (h : d.Located l l' pre post a hdr prev)
    (hCounts : Counts d.fileStats (l ++ (a, hdr) :: l')) (hLength : hdr.blockLength = bytes) :
    d.Reuses bytes (a, hdr) 0
      (a + d.blockHeaderSize, (d.reclaimExact hdr prev).mark bytes a) := by
  have hSound := h.holds.sound _ List.mem_append_cons_self
  have hStats : ((d.reclaimExact hdr prev).mark bytes a).fileStats =
      (d.uncount hdr.blockStatus).fileStats := by
    rw [mark_fileStats, reclaimExact, relink_fileStats, hSound.status_eq]
  have hCount (s : Nat) : (countStatus s [(a, hdr)] : Int) = if hdr.status = s then 1 else 0 := by
    rw [hSound.status_eq, countStatus_cons]
    split <;> rfl
  constructor
  · rfl
  · rw [(h.changes_exact hLength).holds.blocks_eq]
    exact List.mem_append_right _ List.mem_cons_self
  · simp [reclaimExact]
  · rw [hStats, uncount_fileStats hCounts, ← hCount]
  · rw [hStats, uncount_fileStats hCounts, Int.add_zero, ← hCount]

theorem Holds.isFree_of_empty (h : d.Holds blocks free) (hEmpty : d.fileHeader.gxdFsFptr = 0)
    {b : Int × BlockHeader} (hb : b ∈ blocks) : b.2.isFree = false := by
  have hChain := h.chain
  rw [hEmpty] at hChain
  cases free with
  | nil =>
    rw [← Bool.not_eq_true]
    exact fun hFree => List.not_mem_nil ((h.mem_free_iff hb).mpr hFree)
  | cons x post =>
    obtain ⟨hdr, hx, -⟩ := (h.free_iff x).mp List.mem_cons_self
    have hPos := (h.bounds hx).1
    have hZero : x = 0 := hChain.1
    dsimp only at hPos
    omega

theorem Holds.reclaim_bestFit (h : d.Holds blocks free) (hn : d.fileSize.toNat < n)
    (position : Int) (bytes : Nat) :
    (d.reclaim n position bytes .bestFit = some (0, d) ∧ ¬ ∃ b ∈ blocks, ExactFit bytes b.2) ∨
      ∃ l l' pre post a hdr prev, blocks = l ++ (a, hdr) :: l' ∧
        d.Located l l' pre post a hdr prev ∧ hdr.blockLength = bytes ∧
        d.reclaim n position bytes .bestFit = some (a, d.reclaimExact hdr prev) := by
  rw [reclaim]
  split
  · rename_i hEmpty
    refine .inl ⟨rfl, ?_⟩
    rintro ⟨b, hb, hFit⟩
    exact Bool.false_ne_true ((h.isFree_of_empty hEmpty hb).symm.trans hFit.isFree)
  · rcases h.reclaimBestFit_cases hn position bytes with ⟨hNone, hOther⟩ | hFound
    · refine .inl ⟨hNone, ?_⟩
      rintro ⟨b, hb, hFit⟩
      exact hOther b hb hFit.isFree hFit.length
    · exact .inr hFound

/-- A block of the needed length is reused, and without one the file is extended. -/
theorem Holds.alloc_bestFit (h : d.Holds blocks free) (hn : d.fileSize.toNat < n) (position : Int)
    (hCounts : Counts d.fileStats blocks) (hBytes : bytes < 2 ^ 64) :
    ∃ r, d.alloc n position bytes .bestFit = some r ∧
      ((∃ b ∈ blocks, ExactFit (bytes + d.overhead) b.2 ∧ d.Reuses (bytes + d.overhead) b 0 r) ∨
        (¬ ∃ b ∈ blocks, ExactFit (bytes + d.overhead) b.2) ∧
          r.1 = d.fileHeader.gxdEof + d.blockHeaderSize) := by
  rw [alloc]
  rcases h.reclaim_bestFit hn position ((bytes + d.overhead) % 2 ^ 64) with
    ⟨hNone, hOther⟩ | ⟨l, l', pre, post, a, hdr, prev, rfl, hLocated, hLength, hFound⟩
  · refine ⟨_, by rw [hNone, Option.map_some], .inr ⟨?_, by rw [if_pos rfl]⟩⟩
    -- A needed length that wraps is longer than any block.
    rintro ⟨b, hb, hFit⟩
    have hShort := h.blockLength_lt hb
    have hLength := hFit.length
    exact hOther ⟨b, hb, hFit.isFree, by rw [hLength, Nat.mod_eq_of_lt (by omega)]⟩
  · have hSelf : (a, hdr) ∈ l ++ (a, hdr) :: l' := List.mem_append_cons_self
    have hPos := (h.bounds hSelf).1
    have hOverhead := (h.sound _ hSelf).overhead
    have hWhole : (bytes + d.overhead) % 2 ^ 64 = bytes + d.overhead := by
      have hSmall := overhead_le d
      dsimp only at hOverhead
      omega
    rw [hWhole] at hLength hFound ⊢
    refine ⟨_, by rw [hFound, Option.map_some], .inl ⟨(a, hdr), hSelf, ⟨hLocated.isFree, hLength⟩, ?_⟩⟩
    rw [if_neg hPos.ne']
    have hSize : (d.reclaimExact hdr prev).blockHeaderSize = d.blockHeaderSize := by
      simp [reclaimExact, blockHeaderSize]
    rw [hSize]
    exact hLocated.reuses hCounts hLength

/-- On any file that calls have led to, a best-fit allocation is one if the list has a block of just the
needed length, or none that is to be split. -/
theorem bestFit_iff (rev : Revision) {staticSize : Nat}
    (hStatic : staticSize + rev.fileHeaderSize < 2 ^ 63) {calls : List (Int × HeapCall)}
    (hCalls : heapCalls.Along HeapCall.Allowed calls (create rev staticSize)) (position : Int)
    (hBytes : bytes < 2 ^ 64) :
    ∃ d r, d = (heapCalls.run calls (create rev staticSize)).2 ∧
      d.alloc (d.fileSize.toNat + 1) position bytes .bestFit = some r ∧
      (d.BestFits (bytes + d.overhead) r ↔
        (∃ b ∈ d.blocks, ExactFit (bytes + d.overhead) b.2) ∨
          ¬ ∃ b ∈ d.blocks, d.Splittable (bytes + d.overhead) b.2) := by
  obtain ⟨blocks, free, h, hCounts⟩ := run_kept rev hStatic hCalls
  obtain ⟨d, hd⟩ : ∃ d, d = (heapCalls.run calls (create rev staticSize)).2 := ⟨_, rfl⟩
  rw [← hd] at h hCounts
  obtain ⟨r, hAlloc, hCases⟩ := h.alloc_bestFit (Nat.lt_succ_self _) position hCounts hBytes
  refine ⟨d, r, hd, hAlloc, ?_⟩
  have hBlocks := h.blocks_eq
  rw [← hBlocks] at hCases
  rcases hCases with ⟨b, hb, hFit, hReuses⟩ | ⟨hOther, hAddress⟩
  · refine iff_of_true ⟨fun _ => ⟨b, hb, hFit, hReuses⟩, ?_, fun hEof => ?_⟩ (.inl ⟨b, hb, hFit⟩)
    · exact fun hNone => absurd ⟨b, hb, hFit⟩ hNone
    · exact absurd hReuses.gxdEof hEof
  · constructor
    · intro hBest
      refine .inr fun hSplit => ?_
      obtain ⟨b, hb, -, -, hReuses, -⟩ := hBest.best hOther hSplit
      rw [hBlocks] at hb
      have hBounds := h.bounds hb
      have hLength := h.blockLength_pos hb
      have hSame := hReuses.address
      rw [h.fileSize] at hBounds
      omega
    · rintro (hExact | hSplit)
      · exact absurd hExact hOther
      · exact ⟨fun hExact => absurd hExact hOther, fun _ hSome => absurd hSome hSplit,
          fun _ => ⟨hOther, hSplit⟩⟩

theorem bestFit_iff_E :
    ∃ d r, d = (heapCalls.run [(0, .alloc 100 .none), (136, .delete 136)] (create .E 0)).2 ∧
      d.alloc (d.fileSize.toNat + 1) 136 100 .bestFit = some r ∧
      (d.BestFits (100 + d.overhead) r ↔
        (∃ b ∈ d.blocks, ExactFit (100 + d.overhead) b.2) ∨
          ¬ ∃ b ∈ d.blocks, d.Splittable (100 + d.overhead) b.2) :=
  bestFit_iff .E (by decide) (by decide +kernel) 136 (by decide)

/-- A deleted block of 132 bytes is not split for one of 72: the file is extended. -/
theorem bestFit_extends :
    let d := (heapCalls.run [(0, .alloc 100 .none), (136, .delete 136)] (create .E 0)).2
    ∃ r, d.alloc (d.fileSize.toNat + 1) 136 40 .bestFit = some r ∧ ¬ d.BestFits (40 + d.overhead) r := by
  refine ⟨_, rfl, fun hBest => ?_⟩
  have hBlock : ((104 : Int), (⟨gxCheckWord, 132, gxDeletedBlock, 0⟩ : BlockHeader)) ∈
      (heapCalls.run [(0, .alloc 100 .none), (136, .delete 136)] (create .E 0)).2.blocks := by
    decide +kernel
  have hEof := (hBest.extend (by decide +kernel)).2
  exact hEof ⟨_, hBlock, by decide, by decide +kernel, by decide +kernel⟩

end DataReel.Database
