import DataReel.Database.ScanRun

/-! # The number of blocks in use

On an undamaged file `NormalBlocks` is the number of the objects, if the statistics in its header
are right or, in files without them, the block that begins the heap has a byte.
-/

namespace DataReel.Database

/-- `NormalBlocks`, with the object that it leaves. -/
def normalBlocksRun (d : Database) (n : Nat) (position position' : Int) : Option (Int × Database) :=
  (d.totalBlocks n position).1.bind fun total =>
    ((d.totalBlocks n position).2.deletedBlocks n position').map fun r => (total - r.1.1, r.2)

theorem normalBlocks_eq (d : Database) (n : Nat) (position position' : Int) :
    d.normalBlocks n position position' = (d.normalBlocksRun n position position').map Prod.fst := by
  rw [normalBlocks, normalBlocksRun]
  cases (d.totalBlocks n position).1 with
  | none => rfl
  | some total =>
    rw [Option.bind_some, Option.bind_some, Option.map_map]
    rfl

/-- What the count goes by is right. -/
structure Counted (d : Database) : Prop where
  stats : d.testFileHeader.rev.hasStats = true →
    d.testFileHeader.fileStats.numBlocks = d.blocks.length ∧
      d.testFileHeader.fileStats.deletedBlocks + d.testFileHeader.fileStats.removedBlocks =
        d.blocks.countP fun b => b.2.isFree
  start : d.testFileHeader.rev.hasStats = false → d.blocks = [] ∨ d.scanBlocks ≠ []

variable {d : Database} {blocks pre post : List (Int × BlockHeader)} {free : List Int}

theorem Holds.turn_block (h : d.Holds (pre ++ post) free) {b : Int × BlockHeader} (hb : b ∈ post) (k : Int) :
    d.totalBlocksTurn (k, b.1, b.1) =
      .inr (k + 1, b.1 + b.2.blockLength, b.1 + b.2.blockLength) := by
  have hb : b ∈ pre ++ post := List.mem_append_right _ hb
  have hBounds := h.bounds hb
  have hLength := h.blockLength_pos hb
  have hLimit := h.limit
  have hSize := h.fileSize
  have hNext : fauSum b.1 b.2.blockLength = b.1 + b.2.blockLength := by
    rw [fauSum, intOfWord_wordOfInt (by omega) (by omega)]
  have hPos : 0 < b.1 + (b.2.blockLength : Int) := by omega
  have hSeek := seekTo_pos (b.1 + sizeOfBlockHeader) hPos
  have hNot : ¬ (b.1 = 0 ∨ d.fileHeader.gxdEof ≤ b.1) := by omega
  have hTurn : d.countTurn (b.1, b.1) = some (true, b.1 + b.2.blockLength, b.1 + b.2.blockLength) := by
    rw [countTurn, if_neg hNot, h.stored b hb, Option.map_some]
    simp only [if_pos (h.sound b hb).test, hNext, hSeek]
  rw [totalBlocksTurn, hTurn]
  rfl

/-- The loop of `TotalBlocks` counts the blocks from an address on. -/
theorem Holds.totalBlocks_from (h : d.Holds (pre ++ post) free) {a : Int}
    (hTiles : Tiles BlockHeader.blockLength a post d.fileHeader.gxdEof) {n : Nat} (hn : post.length < n)
    (k : Int) : Loop.result d.totalBlocksTurn n (k, a, a) = some (k + post.length) := by
  induction post generalizing pre a n k with
  | nil =>
    obtain ⟨n, rfl⟩ := Nat.exists_eq_succ_of_ne_zero (Nat.ne_of_gt hn)
    have hAt : a = d.fileHeader.gxdEof := hTiles
    have hStop : d.totalBlocksTurn (k, a, a) = .inl k := by
      rw [totalBlocksTurn, countTurn, if_pos (.inr hAt.ge)]
    rw [Loop.result, hStop, List.length_nil, Int.natCast_zero, Int.add_zero]
  | cons b post ih =>
    obtain ⟨n, rfl⟩ := Nat.exists_eq_succ_of_ne_zero (Nat.ne_of_gt (Nat.zero_lt_of_lt hn))
    obtain rfl : b.1 = a := hTiles.1
    have hRest : d.Holds ((pre ++ [b]) ++ post) free := by rwa [List.append_assoc]
    rw [Loop.result, h.turn_block List.mem_cons_self]
    dsimp only
    rw [ih hRest hTiles.2 (Nat.lt_of_succ_lt_succ hn) (k + 1), List.length_cons]
    congr 1
    omega

theorem Holds.free_length (h : d.Holds blocks free) :
    free.length = blocks.countP fun b => b.2.isFree := by
  have hPerm : free.Perm ((blocks.filter fun b => b.2.isFree).map Prod.fst) := by
    rw [List.perm_ext_iff_of_nodup h.nodup]
    · intro a
      simp only [h.free_iff, List.mem_map, List.mem_filter, Prod.exists, exists_and_right, exists_eq_right]
    · refine List.Pairwise.map _ (R := fun b c => b.1 < c.1) (fun b c hLt hEq => ?_)
        ((h.tiles.pairwise fun b => h.blockLength_pos).sublist List.filter_sublist)
      omega
  rw [hPerm.length_eq, List.length_map, List.countP_eq_length_filter]

theorem Holds.countP_isFree (h : d.Holds blocks free) :
    (blocks.length : Int) - (blocks.countP fun b => b.2.isFree) =
      (blocks.filter fun b => b.2.status = gxNormalBlock).length := by
  have hSplit := List.length_eq_countP_add_countP (fun b : Int × BlockHeader => b.2.isFree) (l := blocks)
  have hUse : (blocks.filter fun b => b.2.status = gxNormalBlock).length =
      blocks.countP fun b => !b.2.isFree := by
    rw [List.countP_eq_length_filter]
    refine congrArg List.length (List.filter_congr fun b hb => ?_)
    rw [Bool.eq_iff_iff, decide_eq_true_eq, (h.sound b hb).status_iff]
    simp
  simp only [Bool.not_eq_true, Bool.decide_eq_false] at hSplit
  omega

theorem Holds.deletedBlocks_eq (h : d.Holds blocks free) (hTest : d.testFileHeader = d)
    (hStats : d.rev.hasStats = false) {n : Nat} (hn : d.fileSize.toNat < n) (position : Int) :
    ∃ deleted removed : Int, d.deletedBlocks n position =
      some ((((blocks.countP fun b => b.2.isFree : Nat) : Int), deleted, removed), d) := by
  obtain ⟨r, hWalk, hPassed, hEnd⟩ := h.walk_eq (fun _ hdr => hdr.blockNdFptr = gxFSListCorrupt)
    (fun position a => seekTo_pos position) hn position
  have hFs : d.fileHeader.gxdFsFptr ≠ gxFSListCorrupt := h.gxdFsFptr_ne
  simp only [deletedBlocks]
  rw [hTest, if_neg (by simp [hStats]), if_neg hFs, hWalk, Option.map_some]
  rcases hEnd with ⟨hNone, hAll⟩ | ⟨a, hdr, post', hFound, hFree, hb, hAccept⟩
  · have hLength : r.1.length = blocks.countP fun b => b.2.isFree := by
      rw [← h.free_length, ← hAll, List.length_map]
    rw [hNone, ← hLength]
    exact ⟨_, _, rfl⟩
  · have hNext := (h.sound _ hb).next
    rw [decide_eq_true_eq] at hAccept
    rw [hAccept] at hNext
    exact absurd hNext.1 (by decide)

theorem Intact.test_test (h : d.Intact blocks free) : d.testFileHeader.testFileHeader = d.testFileHeader := by
  have hHeader := h.holds.fileHeaderSize_le
  have hLe := d.rev.sizeOfFileHeader_le
  obtain ⟨hFile, hFileSize, hSame | ⟨hNew, -⟩⟩ := testFileHeader_eq (d := d) (by omega)
  · rw [hSame, hSame]
  · have hNot : ¬ d.testFileHeader.fileSize < sizeOfFileHeader := by omega
    have hDisk : FileHeader.ofWords (d.testFileHeader.file.readWords 0 7) = d.testFileHeader.fileHeader := by
      rw [hNew, hFile]
      rfl
    rw [Database.testFileHeader.eq_def d.testFileHeader, if_neg hNot, hDisk]
    exact if_pos ⟨rfl, rfl, rfl, rfl⟩

/-- `NormalBlocks` on an undamaged file. -/
theorem Undamaged.normalBlocksRun_eq (h : d.Undamaged) (hCounted : d.Counted) {n : Nat}
    (hn : d.fileSize.toNat < n) (position position' : Int) :
    d.normalBlocksRun n position position' = some ((d.objects.length : Int), d.testFileHeader) := by
  obtain ⟨blocks, free, hIntact⟩ := h
  obtain ⟨hTested, -, -, hFileSize, -⟩ := hIntact.test
  have hTest := hIntact.test_test
  have hBlocks := hIntact.holds.blocks_eq
  have hObjects : (d.objects.length : Int) = (blocks.length : Int) - (blocks.countP fun b => b.2.isFree) := by
    rw [hIntact.holds.countP_isFree, objects, hBlocks, List.length_map]
  rw [normalBlocksRun, hObjects]
  cases hStats : d.testFileHeader.rev.hasStats with
  | true =>
    obtain ⟨hTotal, hDeleted⟩ := hCounted.stats hStats
    rw [hBlocks] at hTotal hDeleted
    simp only [totalBlocks, deletedBlocks, hStats, if_true, Option.bind_some, hTest, Option.map_some,
      hTotal, hDeleted]
  | false =>
    have hTotal : (d.totalBlocks n position).1 = some (blocks.length : Int) := by
      simp only [totalBlocks, hStats, Bool.false_eq_true, if_false]
      rcases hTested.holds.scanBlocks_cases with ⟨hNone, -⟩ | ⟨b, l, rfl, hStart, -⟩
      · rw [hIntact.scanBlocks_test.1] at hNone
        have hEmpty : blocks = [] := by
          rcases hCounted.start hStats with hEmpty | hSome
          · exact hBlocks ▸ hEmpty
          · exact absurd hNone hSome
        subst hEmpty
        obtain ⟨n, rfl⟩ := Nat.exists_eq_succ_of_ne_zero (Nat.ne_of_gt (Nat.zero_lt_of_lt hn))
        rw [hTested.holds.firstBlock_eq, hIntact.scanBlocks_test.1, hNone]
        rfl
      · have hFirst : b.1 = d.testFileHeader.fileHeader.gxdHsFptr := hTested.holds.tiles.1
        have hLength := Holds.length_le_of_tiles hTested.holds.tiles fun b => hTested.holds.blockLength_pos
        have hLow := hTested.holds.start
        have hTurns : (b :: l).length < n := by
          rw [← hTested.holds.fileSize, hFileSize] at hLength
          omega
        have hAll : d.testFileHeader.Holds ([] ++ b :: l) free := hTested.holds
        have hRun := hAll.totalBlocks_from hTested.holds.tiles hTurns 0
        rw [hTested.holds.firstBlock_eq, hStart, hFirst, hRun, Int.zero_add]
    have hRest : (d.totalBlocks n position).2 = d.testFileHeader := by
      simp only [totalBlocks, hStats, Bool.false_eq_true, if_false]
    obtain ⟨deleted, removed, hDeleted⟩ :=
      hTested.holds.deletedBlocks_eq hTest hStats (by rwa [hFileSize]) position'
    rw [hTotal, hRest, Option.bind_some, hDeleted]
    rfl

end DataReel.Database
