import DataReel.Database.Contents
import DataReel.Database.ScanEnds

/-! # Scans over an undamaged file

A scan for objects or records goes from block to block and visits those in use
in the order of their addresses. A last block that holds no byte is not visited.
-/

namespace DataReel

variable {σ α : Type}

namespace Database

variable {d : Database} {blocks pre post : List (Int × BlockHeader)} {free : List Int}
  {b : Int × BlockHeader}

/-- The blocks of the heap that a scan comes to. -/
def scanBlocks (d : Database) : List (Int × BlockHeader) :=
  d.blocks.filter fun b => b.1 + d.blockHeaderSize < d.fileHeader.gxdEof

end Database

namespace ObjectScan

variable (S : ObjectScan σ α)

/-- The visits of a scan to a row of blocks, whose headers have a size. -/
def visits (size : Nat) : List (Int × BlockHeader) → σ → α
  | [], s => S.atEnd s
  | b :: bs, s =>
    if b.2.status = gxNormalBlock then
      match S.visit (b.1 + size) (b.1 + sizeOfBlockHeader, s) with
      | .inl r => r
      | .inr (_, s) => visits size bs s
    else visits size bs s

variable {S} {d : Database} {blocks pre post : List (Int × BlockHeader)} {free : List Int}
  {b : Int × BlockHeader}

theorem turn_block (h : d.Holds (pre ++ b :: post) free)
    (hLast : b.1 + d.blockHeaderSize < d.fileHeader.gxdEof) (position : Int) {words : List Nat}
    (hWords : words.length = 4) (s : σ) :
    ∃ words' : List Nat, words'.length = 4 ∧
      S.turn d d.fileHeader.gxdEof (b.1, position, words, s) =
        if b.2.status = gxNormalBlock then
          (S.visit (b.1 + d.blockHeaderSize) (b.1 + sizeOfBlockHeader, s)).map id
            fun (position, s) => (b.1 + b.2.blockLength, position, words', s)
        else .inr (b.1 + b.2.blockLength, b.1 + sizeOfBlockHeader, words', s) := by
  have hb : b ∈ pre ++ b :: post := List.mem_append_right _ List.mem_cons_self
  have hBounds := h.bounds hb
  have hHeader := h.header_le hb
  have hLimit := h.limit
  have hSize := h.fileSize
  have hStored := h.stored b hb
  have hPos : ¬ b.1 < 0 := by omega
  have hRead : d.readOver b.1 words = d.file.readWords b.1 4 := by
    rw [Database.readOver_eq (by rw [hWords]; rw [sizeOfBlockHeader] at hHeader; omega), hWords]
  have hHdr : BlockHeader.ofWords (d.file.readWords b.1 4) = b.2 := by
    rw [Database.readAt, if_pos (by omega)] at hStored
    exact Option.some.inj hStored
  refine ⟨d.file.readWords b.1 4, Bytes.readWords_length, ?_⟩
  have hGuard : ¬ d.fileHeader.gxdEof ≤ fauSum b.1 d.blockHeaderSize := by
    rw [fauSum, intOfWord_wordOfInt (by omega) (by omega)]
    omega
  have hStep : step d b.1 b.2 = b.1 + b.2.blockLength := by
    have hSound := h.sound b hb
    rw [step, if_neg, fauSum, intOfWord_wordOfInt (by omega) (by omega)]
    rw [not_or, not_not, intOfWord, if_pos (by omega), Database.blockHeaderSize]
    exact ⟨hSound.check, by omega⟩
  have hStop : max b.1 (min (b.1 + sizeOfBlockHeader) d.fileSize) = b.1 + (sizeOfBlockHeader : Int) := by
    omega
  rw [turn]
  dsimp only
  rw [if_neg hGuard, Database.readPosition_pos position hBounds.1, if_pos ⟨by omega, by omega⟩]
  dsimp only
  rw [if_neg hPos, if_neg hPos, hRead, hHdr, hStep, hStop]
  have hCheck : b.2.blockCheckWord = gxCheckWord := (h.sound b hb).check
  by_cases hUse : b.2.status = gxNormalBlock
  · rw [if_pos ⟨hCheck, hUse⟩, if_pos hUse]
  · rw [if_neg (fun hBoth => hUse hBoth.2), if_neg hUse]

/-- The loop from a block on. -/
theorem result_eq (h : d.Holds (pre ++ post) free)
    (hLimit : d.fileHeader.gxdEof + d.blockHeaderSize < 2 ^ 63) {a : Int}
    (hTiles : Tiles BlockHeader.blockLength a post d.fileHeader.gxdEof) {n : Nat}
    (hn : post.length < n) (position : Int) {words : List Nat} (hWords : words.length = 4) (s : σ) :
    Loop.result (S.turn d d.fileHeader.gxdEof) n (a, position, words, s) =
      some (S.visits d.blockHeaderSize
        (post.filter fun b => b.1 + d.blockHeaderSize < d.fileHeader.gxdEof) s) := by
  have hEof := h.fileHeaderSize_le
  rw [h.fileSize] at hEof
  have hEnd {a : Int} (hLow : 0 ≤ a) (hHigh : a ≤ d.fileHeader.gxdEof)
      (hGuard : d.fileHeader.gxdEof ≤ a + d.blockHeaderSize) (position : Int) (words : List Nat) (s : σ) :
      S.turn d d.fileHeader.gxdEof (a, position, words, s) = .inl (S.atEnd s) := by
    apply if_pos
    rw [fauSum, intOfWord_wordOfInt (by omega) (by omega)]
    exact hGuard
  induction post generalizing pre a n position words s with
  | nil =>
    obtain ⟨n, rfl⟩ := Nat.exists_eq_succ_of_ne_zero (Nat.ne_of_gt hn)
    have hAt : a = d.fileHeader.gxdEof := hTiles
    rw [Loop.result, hEnd (by omega) (by omega) (by omega)]
    rfl
  | cons b post ih =>
    obtain ⟨n, rfl⟩ := Nat.exists_eq_succ_of_ne_zero (Nat.ne_of_gt (Nat.zero_lt_of_lt hn))
    have hNext := Nat.lt_of_succ_lt_succ hn
    have hb : b ∈ pre ++ b :: post := List.mem_append_right _ List.mem_cons_self
    have hBounds := h.bounds hb
    have hSize := h.fileSize
    obtain rfl : b.1 = a := hTiles.1
    have hRest : d.Holds ((pre ++ [b]) ++ post) free := by rwa [List.append_assoc]
    by_cases hLast : b.1 + d.blockHeaderSize < d.fileHeader.gxdEof
    · obtain ⟨words', hWords', hTurn⟩ := turn_block (S := S) h hLast position hWords s
      rw [Loop.result, hTurn, List.filter_cons, if_pos (decide_eq_true hLast), visits]
      by_cases hUse : b.2.status = gxNormalBlock
      · rw [if_pos hUse, if_pos hUse]
        cases S.visit (b.1 + d.blockHeaderSize) (b.1 + sizeOfBlockHeader, s) with
        | inl r => rfl
        | inr r => exact ih hRest hTiles.2 hNext _ hWords' _
      · rw [if_neg hUse, if_neg hUse]
        exact ih hRest hTiles.2 hNext _ hWords' _
    · -- A block of no more than its header is the last one.
      have hLength := (h.header_le hb).2
      have hNone : post = [] := by
        cases post with
        | nil => rfl
        | cons c post =>
          have hc := h.bounds (b := c) (List.mem_append_right _ (List.mem_cons_of_mem _ List.mem_cons_self))
          have hStart := hTiles.2.1
          have hMore := h.blockLength_pos (b := c)
            (List.mem_append_right _ (List.mem_cons_of_mem _ List.mem_cons_self))
          rw [Database.blockHeaderSize] at hLast
          omega
      subst hNone
      rw [Loop.result, hEnd (by omega) (by omega) (by omega), List.filter_cons,
        if_neg (by simpa using hLast)]
      rfl

end ObjectScan

namespace Database

variable {d : Database} {blocks : List (Int × BlockHeader)} {free : List Int} {b : Int × BlockHeader}

/-- A scan comes to the first block of the heap, if to any. -/
theorem Holds.scanBlocks_cases (h : d.Holds blocks free) :
    (d.scanBlocks = [] ∧ (blocks = [] ∨
        d.fileHeader.gxdEof ≤ d.fileHeader.gxdHsFptr + d.blockHeaderSize)) ∨
      ∃ b l, blocks = b :: l ∧ startOf d.scanBlocks = b.1 ∧ d.scanBlocks ≠ [] ∧
        d.fileHeader.gxdHsFptr + d.blockHeaderSize < d.fileHeader.gxdEof := by
  rw [scanBlocks, h.blocks_eq]
  cases blocks with
  | nil => exact .inl ⟨rfl, .inl rfl⟩
  | cons b l =>
    have hStart : b.1 = d.fileHeader.gxdHsFptr := h.tiles.1
    by_cases hRoom : b.1 + d.blockHeaderSize < d.fileHeader.gxdEof
    · right
      rw [List.filter_cons, if_pos (decide_eq_true hRoom)]
      exact ⟨b, l, rfl, rfl, List.cons_ne_nil _ _, hStart ▸ hRoom⟩
    · left
      constructor
      · apply List.filter_eq_nil_iff.mpr
        intro c hc
        have hBounds := h.tiles.bounds hc
        simp only [decide_eq_true_eq, not_lt]
        omega
      · exact .inr (by omega)

theorem Holds.firstBlock_eq (h : d.Holds blocks free) (position : Int) :
    d.firstBlock position 0 = startOf d.scanBlocks := by
  rw [firstBlock]
  rcases h.scanBlocks_cases with ⟨hNone, rfl | hShort⟩ | ⟨b, l, rfl, hStart, -, hRoom⟩
  · rw [hNone, h.findFirstBlock_eq (.inl rfl)]
    rfl
  · rw [hNone, findFirstBlockTested]
    split
    · rfl
    · rw [if_neg (fun hNe => hNe.1 rfl), if_pos rfl, searchBlock, if_pos hShort]
      rfl
  · rw [h.findFirstBlock_eq (.inr hRoom), hStart]
    rfl

theorem Intact.scanBlocks_test (h : d.Intact blocks free) :
    d.testFileHeader.scanBlocks = d.scanBlocks ∧
      d.testFileHeader.blockHeaderSize = d.blockHeaderSize ∧
      d.testFileHeader.fileHeader.gxdEof = d.fileHeader.gxdEof := by
  obtain ⟨hTested, hRev, -, hFileSize, -⟩ := h.test
  have hSize : d.testFileHeader.blockHeaderSize = d.blockHeaderSize := by
    rw [blockHeaderSize, hRev, blockHeaderSize]
  have hEof : d.testFileHeader.fileHeader.gxdEof = d.fileHeader.gxdEof := by
    rw [← hTested.holds.fileSize, hFileSize, h.holds.fileSize]
  refine ⟨?_, hSize, hEof⟩
  rw [scanBlocks, scanBlocks, hTested.holds.blocks_eq, h.holds.blocks_eq, hSize, hEof]

/-- A scan over an undamaged file ends, and what it returns is what its visits make of it. -/
theorem Undamaged.scan_eq {S : ObjectScan σ α} {empty : α} (h : d.Undamaged)
    (hLimit : d.fileHeader.gxdEof + d.blockHeaderSize < 2 ^ 63) {n : Nat} (hn : d.fileSize.toNat < n)
    (position : Int) (s : σ) :
    S.run empty n d position s = some (if d.scanBlocks = [] then empty
      else S.visits d.blockHeaderSize d.scanBlocks s) := by
  have hScanned : d.getEOF = (d.fileSize, d) := h.getEOF
  obtain ⟨blocks, free, hIntact⟩ := h
  obtain ⟨hBlocks, hSize, hEof⟩ := hIntact.scanBlocks_test
  obtain ⟨hTested, -⟩ := hIntact.test
  have hHolds : d.testFileHeader.Holds ([] ++ blocks) free := hTested.holds
  simp only [ObjectScan.run]
  rw [hScanned, hTested.holds.firstBlock_eq, hBlocks]
  dsimp only
  rcases hTested.holds.scanBlocks_cases with ⟨hNone, -⟩ | ⟨b, l, rfl, hStart, hSome, -⟩
  · rw [hBlocks] at hNone
    rw [if_pos hNone, hNone]
    rfl
  · have hPos := (hTested.holds.bounds (b := b) List.mem_cons_self).1
    have hLength := Holds.length_le_of_tiles hTested.holds.tiles fun b => hTested.holds.blockLength_pos
    have hTurns : (b :: l).length < n := by
      have hLow := hTested.holds.start
      rw [← hTested.holds.fileSize, hIntact.test.2.2.2.1] at hLength
      omega
    have hFirst : b.1 = d.testFileHeader.fileHeader.gxdHsFptr := hTested.holds.tiles.1
    have hEnd : d.fileSize = d.testFileHeader.fileHeader.gxdEof := by rw [hEof, hIntact.holds.fileSize]
    have hResult := ObjectScan.result_eq (S := S) hHolds (by rw [hEof, hSize]; exact hLimit)
      hTested.holds.tiles hTurns b.1 (show [gxCheckWord, 0, gxNormalBlock, 0].length = 4 from rfl) s
    have hAll : (b :: l).filter (fun b => b.1 + d.testFileHeader.blockHeaderSize <
        d.testFileHeader.fileHeader.gxdEof) = d.scanBlocks := by
      rw [← hBlocks, scanBlocks, hTested.holds.blocks_eq]
    rw [hAll, hSize, ← hFirst, ← hEnd] at hResult
    rw [hBlocks] at hStart hSome
    rw [if_neg hSome, hStart, if_neg (by omega)]
    exact hResult

namespace Undamaged

variable {a : Int} {l : List UInt8}

theorem mem_scanBlocks (h : d.Undamaged) (hObject : d.object a = some l) (hl : 0 < l.length) :
    ∃ b ∈ d.scanBlocks, b.2.status = gxNormalBlock ∧ b.1 + d.blockHeaderSize = a := by
  have hBounds := h.bounds hObject
  obtain ⟨blocks, free, hIntact⟩ := h
  obtain ⟨b, hb, hUse, rfl, -⟩ := hIntact.holds.object_eq_some_iff.mp hObject
  refine ⟨b, ?_, (hIntact.holds.sound b hb).status_iff.mpr hUse, rfl⟩
  rw [scanBlocks, hIntact.holds.blocks_eq]
  apply List.mem_filter.mpr
  rw [hIntact.holds.fileSize] at hBounds
  exact ⟨hb, decide_eq_true (by omega)⟩

theorem object_scanBlocks (h : d.Undamaged) (hb : b ∈ d.scanBlocks) (hUse : b.2.status = gxNormalBlock) :
    (d.object (b.1 + d.blockHeaderSize)).isSome := by
  obtain ⟨blocks, free, hIntact⟩ := h
  rw [scanBlocks, hIntact.holds.blocks_eq] at hb
  obtain ⟨hb, -⟩ := List.mem_filter.mp hb
  apply Option.isSome_iff_exists.mpr
  exact ⟨_, hIntact.holds.object_eq_some_iff.mpr
    ⟨b, hb, (hIntact.holds.sound b hb).status_iff.mp hUse, rfl, rfl⟩⟩

end Undamaged

end Database

namespace RecordScan

variable (S : RecordScan σ α)

/-- The visits of a scan that leaves the file as it is to a row of blocks. -/
def visits (d : Database) : List (Int × BlockHeader) → σ → α
  | [], s => S.atEnd s
  | b :: bs, s =>
    if b.2.status = gxNormalBlock then
      match S.visit b.1 (b.1 + d.blockHeaderSize) b.2 (d, s) with
      | .inl r => r
      | .inr (_, _, s) => visits d bs s
    else visits d bs s

variable {S} {d : Database} {blocks pre post : List (Int × BlockHeader)} {free : List Int}
  {b : Int × BlockHeader}

theorem turn_block (h : d.Holds (pre ++ b :: post) free)
    (hLast : b.1 + d.blockHeaderSize < d.fileHeader.gxdEof) (position : Int) (s : σ) :
    S.turn d.fileHeader.gxdEof (d, b.1, position, s) =
      if b.2.status = gxNormalBlock then
        (S.visit b.1 (b.1 + d.blockHeaderSize) b.2 (d, s)).map id fun (d, position, s) =>
          (d, b.1 + b.2.blockLength, position, s)
      else .inr (d, b.1 + b.2.blockLength, b.1 + d.blockHeaderSize, s) := by
  have hb : b ∈ pre ++ b :: post := List.mem_append_right _ List.mem_cons_self
  have hBounds := h.bounds hb
  have hLimit := h.limit
  have hSize := h.fileSize
  have hPlace : Database.readPosition position b.1 = b.1 := Database.readPosition_pos position hBounds.1
  have hHdr : d.readBlockHdr position b.1 = some b.2 := by
    rw [Database.readBlockHdr, hPlace, h.stored b hb, Option.filter_some, if_pos (h.sound b hb).test]
  have hGuard : ¬ d.fileHeader.gxdEof ≤ fauSum b.1 d.blockHeaderSize := by
    rw [fauSum, intOfWord_wordOfInt (by omega) (by omega)]
    omega
  have hNext : fauSum b.1 b.2.blockLength = b.1 + b.2.blockLength := by
    rw [fauSum, intOfWord_wordOfInt (by omega) (by omega)]
  rw [turn]
  dsimp only
  rw [if_neg hGuard, hHdr]
  dsimp only
  rw [hPlace, hNext]

/-- The loop from a block on. -/
theorem result_eq (hReads : S.Reads) (h : d.Holds (pre ++ post) free)
    (hLimit : d.fileHeader.gxdEof + d.blockHeaderSize < 2 ^ 63) {a : Int}
    (hTiles : Tiles BlockHeader.blockLength a post d.fileHeader.gxdEof) {n : Nat}
    (hn : post.length < n) (position : Int) (s : σ) :
    Loop.result (S.turn d.fileHeader.gxdEof) n (d, a, position, s) =
      some (S.visits d (post.filter fun b => b.1 + d.blockHeaderSize < d.fileHeader.gxdEof) s) := by
  have hEof := h.fileHeaderSize_le
  rw [h.fileSize] at hEof
  have hEnd {a : Int} (hLow : 0 ≤ a) (hHigh : a ≤ d.fileHeader.gxdEof)
      (hGuard : d.fileHeader.gxdEof ≤ a + d.blockHeaderSize) (position : Int) (s : σ) :
      S.turn d.fileHeader.gxdEof (d, a, position, s) = .inl (S.atEnd s) := by
    apply if_pos
    rw [fauSum, intOfWord_wordOfInt (by omega) (by omega)]
    exact hGuard
  induction post generalizing pre a n position s with
  | nil =>
    obtain ⟨n, rfl⟩ := Nat.exists_eq_succ_of_ne_zero (Nat.ne_of_gt hn)
    have hAt : a = d.fileHeader.gxdEof := hTiles
    rw [Loop.result, hEnd (by omega) (by omega) (by omega)]
    rfl
  | cons b post ih =>
    obtain ⟨n, rfl⟩ := Nat.exists_eq_succ_of_ne_zero (Nat.ne_of_gt (Nat.zero_lt_of_lt hn))
    have hNext := Nat.lt_of_succ_lt_succ hn
    have hb : b ∈ pre ++ b :: post := List.mem_append_right _ List.mem_cons_self
    have hBounds := h.bounds hb
    have hSize := h.fileSize
    obtain rfl : b.1 = a := hTiles.1
    have hRest : d.Holds ((pre ++ [b]) ++ post) free := by rwa [List.append_assoc]
    by_cases hLast : b.1 + d.blockHeaderSize < d.fileHeader.gxdEof
    · rw [Loop.result, turn_block h hLast, List.filter_cons, if_pos (decide_eq_true hLast), visits]
      by_cases hUse : b.2.status = gxNormalBlock
      · rw [if_pos hUse, if_pos hUse]
        cases hVisit : S.visit b.1 (b.1 + d.blockHeaderSize) b.2 (d, s) with
        | inl r => rfl
        | inr r =>
          obtain ⟨-, hSame, -⟩ := hReads _ _ _ _ _ _ hVisit
          obtain ⟨e, position', s'⟩ := r
          obtain rfl : e = d := hSame
          exact ih hRest hTiles.2 hNext position' s'
      · rw [if_neg hUse, if_neg hUse]
        exact ih hRest hTiles.2 hNext _ _
    · -- A block of no more than its header is the last one.
      have hNone : post = [] := by
        cases post with
        | nil => rfl
        | cons c post =>
          have hMem : c ∈ pre ++ b :: c :: post :=
            List.mem_append_right _ (List.mem_cons_of_mem _ List.mem_cons_self)
          have hc := h.bounds hMem
          have hMore := h.blockLength_pos hMem
          have hStart := hTiles.2.1
          have hLength := (h.header_le hb).2
          rw [Database.blockHeaderSize] at hLast
          omega
      subst hNone
      rw [Loop.result, hEnd (by omega) (by omega) (by omega), List.filter_cons,
        if_neg (by simpa using hLast)]
      rfl

end RecordScan

/-- A scan for records over an undamaged file ends, and what it returns is what its visits make of it. -/
theorem Database.Undamaged.recordScan_eq {S : RecordScan σ α} {d : Database} (hReads : S.Reads) (h : d.Undamaged)
    (hLimit : d.fileHeader.gxdEof + d.blockHeaderSize < 2 ^ 63) {n : Nat} (hn : d.fileSize.toNat < n)
    (empty : Nat → Database → Option α) (position : Int) (s : σ) :
    S.run empty n d position s = if d.scanBlocks = [] then empty n d.testFileHeader
      else some (S.visits d.testFileHeader d.scanBlocks s) := by
  have hScanned : d.getEOF = (d.fileSize, d) := h.getEOF
  obtain ⟨blocks, free, hIntact⟩ := h
  obtain ⟨hBlocks, hSize, hEof⟩ := hIntact.scanBlocks_test
  obtain ⟨hTested, -⟩ := hIntact.test
  have hHolds : d.testFileHeader.Holds ([] ++ blocks) free := hTested.holds
  simp only [RecordScan.run]
  rw [hScanned, hTested.holds.firstBlock_eq, hBlocks]
  dsimp only
  rcases hTested.holds.scanBlocks_cases with ⟨hNone, -⟩ | ⟨b, l, rfl, hStart, hSome, -⟩
  · rw [hBlocks] at hNone
    rw [if_pos hNone, hNone]
    rfl
  · have hPos := (hTested.holds.bounds (b := b) List.mem_cons_self).1
    have hLength := Holds.length_le_of_tiles hTested.holds.tiles fun b => hTested.holds.blockLength_pos
    have hTurns : (b :: l).length < n := by
      have hLow := hTested.holds.start
      rw [← hTested.holds.fileSize, hIntact.test.2.2.2.1] at hLength
      omega
    have hFirst : b.1 = d.testFileHeader.fileHeader.gxdHsFptr := hTested.holds.tiles.1
    have hEnd : d.fileSize = d.testFileHeader.fileHeader.gxdEof := by rw [hEof, hIntact.holds.fileSize]
    have hResult := RecordScan.result_eq hReads hHolds (by rw [hEof, hSize]; exact hLimit)
      hTested.holds.tiles hTurns b.1 s
    have hAll : (b :: l).filter (fun b => b.1 + d.testFileHeader.blockHeaderSize <
        d.testFileHeader.fileHeader.gxdEof) = d.scanBlocks := by
      rw [← hBlocks, scanBlocks, hTested.holds.blocks_eq]
    rw [hAll, ← hFirst, ← hEnd] at hResult
    rw [hBlocks] at hStart hSome
    rw [if_neg hSome, hStart, if_neg (by omega)]
    exact hResult

end DataReel
