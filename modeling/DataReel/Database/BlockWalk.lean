import DataReel.Database.Contents

/-! # Going over all blocks

`FindNextBlock` and `FindPrevBlock` take their offset for the address of an
object first, and for that of a block only if no block header is before it. What
the bytes before a block are decides where a walk over the blocks goes on.
-/

namespace DataReel.Database

variable (d : Database)

def findNextBlock (position offset : Int) : Option Int × Database :=
  (d.testFileHeader.findNextBlockTested position offset, d.testFileHeader)

/-- The addresses that repeated calls return before the first one that returns 0. -/
def enumerate (next : Database → Int → Option Int × Database) :
    Nat → Option Int × Database → Option (List Int)
  | 0, _ => none
  | n + 1, r => r.1.bind fun a =>
    if a = 0 then some [] else (enumerate next n (next r.2 a)).map (a :: ·)

/-- The block calls go over the blocks of the file, each once and in the order of their addresses. -/
structure Enumerates : Prop where
  sorted : (d.blocks.map Prod.fst).Pairwise (· < ·)
  forward : ∀ (position : Int → Int) (n : Nat), d.blocks.length < n →
    enumerate (fun d a => d.findNextBlock (position a) a) n (d.findFirstBlock (position 0) 0) =
      some (d.blocks.map Prod.fst)
  backward : ∀ position pre b post, d.blocks = pre ++ b :: post →
    (d.findPrevBlock position b.1).1 = some ((pre.getLast?.map Prod.fst).getD 0)

/-- A block header that a search from `x` finds at `y`. Behind `x` there have to be more bytes than those
of a header. -/
def HeaderAt (x y : Int) : Prop :=
  (d.validHeader y).isSome ∧
    (y + d.blockHeaderSize < d.fileHeader.gxdEof ∨ y = x ∧ y + d.blockHeaderSize = d.fileHeader.gxdEof)

/-- The first block header from `x` on; 0 if there is none. -/
def FirstHeader (x c : Int) : Prop :=
  if c = 0 then ∀ y, x ≤ y → ¬ d.HeaderAt x y
  else x ≤ c ∧ d.HeaderAt x c ∧ ∀ y, x ≤ y → y < c → ¬ d.HeaderAt x y

/-- A block header before a block, if there is one, leads to `c`. -/
def LeadsOn (a c : Int) : Prop :=
  (d.blockHeaderSize : Int) < a → ∀ hdr, d.validHeader (a - d.blockHeaderSize) = some hdr →
    d.FirstHeader (behind (a - d.blockHeaderSize) hdr) c

/-- The heap has more bytes than those of one header, and what is before a block leads to the block
behind it. -/
structure Navigable : Prop where
  room : d.blocks = [] ∨ d.fileHeader.gxdHsFptr + d.blockHeaderSize < d.fileHeader.gxdEof
  before : ∀ pre b post, d.blocks = pre ++ b :: post → d.LeadsOn b.1 (startOf post)

variable {d} {blocks pre post : List (Int × BlockHeader)} {free : List Int} {b : Int × BlockHeader}
  {hdr : BlockHeader} {x c c' position : Int} {n : Nat}

/-! ## Searches -/

theorem FirstHeader.unique (h : d.FirstHeader x c) (h' : d.FirstHeader x c') : c = c' := by
  rw [FirstHeader] at h h'
  split at h <;> split at h'
  · rw [‹c = 0›, ‹c' = 0›]
  · exact absurd h'.2.1 (h c' h'.1)
  · exact absurd h.2.1 (h' c h.1)
  · rcases Int.lt_trichotomy c c' with hLt | hSame | hLt
    · exact absurd h.2.1 (h'.2.2 c h.1 hLt)
    · exact hSame
    · exact absurd h'.2.1 (h.2.2 c' h'.1 hLt)

/-- The search goes over all addresses. -/
theorem searchBlock_first (hSize : d.fileSize = d.fileHeader.gxdEof) (hx : 0 < x)
    (hn : (d.fileHeader.gxdEof - x).toNat < n) (position : Int) :
    ∃ c, d.searchBlock n position x = some c ∧
      ((c = 0 ∧ ∀ y, x ≤ y → y + d.blockHeaderSize < d.fileHeader.gxdEof → d.validHeader y = none) ∨
        x ≤ c ∧ c + d.blockHeaderSize < d.fileHeader.gxdEof ∧ (d.validHeader c).isSome ∧
          ∀ y, x ≤ y → y < c → d.validHeader y = none) := by
  have hHeader := d.rev.sizeOfBlockHeader_le
  change sizeOfBlockHeader ≤ d.blockHeaderSize at hHeader
  induction n generalizing x position with
  | zero => omega
  | succ n ih =>
    rw [searchBlock]
    split
    · exact ⟨0, rfl, .inl ⟨rfl, fun y hy hRoom => by omega⟩⟩
    · obtain ⟨hdr, hRead⟩ : ∃ hdr, d.readAt x = some hdr := by
        rw [readAt, if_pos (by omega)]
        exact ⟨_, rfl⟩
      rw [readPosition_pos position hx, hRead]
      dsimp only
      split
      · rename_i hTest
        rw [if_neg (by rw [gxCurrAddress]; omega)]
        refine ⟨x, rfl, .inr ⟨Int.le_refl x, by omega, ?_, fun y hy hy' => by omega⟩⟩
        rw [validHeader, hRead, Option.filter_some, if_pos hTest]
        rfl
      · rename_i hTest
        have hNone : d.validHeader x = none := by
          rw [validHeader, hRead, Option.filter_some, if_neg hTest]
        obtain ⟨c, hSearch, hc⟩ := ih (x := x + 1) (by omega) (by omega) (x + sizeOfBlockHeader)
        refine ⟨c, hSearch, ?_⟩
        rcases hc with ⟨hZero, hAll⟩ | ⟨hLow, hRoom, hSome, hAll⟩
        · refine .inl ⟨hZero, fun y hy hRoom => ?_⟩
          rcases hy.eq_or_lt with rfl | hLt
          · exact hNone
          · exact hAll y (by omega) hRoom
        · refine .inr ⟨by omega, hRoom, hSome, fun y hy hy' => ?_⟩
          rcases hy.eq_or_lt with rfl | hLt
          · exact hNone
          · exact hAll y (by omega) hy'

theorem nextBlock_first (hSize : d.fileSize = d.fileHeader.gxdEof)
    (hHeap : d.fileHeader.gxdHsFptr ≠ d.fileHeader.gxdEof) (hx : 0 < x)
    (hHeader : d.validHeader x = some hdr) :
    ∃ c, d.nextBlock x d.fileHeader.gxdEof = some c ∧ d.FirstHeader (behind x hdr) c := by
  have hNext : x < behind x hdr := by
    rw [behind]
    split <;> omega
  rw [nextBlock, hHeader]
  dsimp only
  generalize behind x hdr = next at hNext
  split
  · refine ⟨0, rfl, ?_⟩
    rw [FirstHeader, if_pos rfl]
    rintro y hy ⟨-, hRoom⟩
    omega
  · cases hValid : d.validBlock next d.fileHeader.gxdEof with
    | true =>
      rw [validBlock, Bool.and_eq_true, Bool.and_eq_true, decide_eq_true_eq, decide_eq_true_eq] at hValid
      rw [if_pos rfl]
      refine ⟨next, rfl, ?_⟩
      rw [FirstHeader, if_neg (by omega)]
      refine ⟨Int.le_refl next, ⟨hValid.2, ?_⟩, fun y hy hy' => by omega⟩
      omega
    | false =>
      have hNone : d.validHeader next = none := by
        rw [validBlock, decide_eq_true (by omega), decide_eq_true (by omega)] at hValid
        exact Option.not_isSome_iff_eq_none.mp (by simpa using hValid)
      rw [if_neg Bool.false_ne_true, findFirstBlockTested, if_neg hHeap, if_neg (by
        have := d.rev.blockHeaderSize_pos
        rw [blockHeaderSize] at *
        omega), if_neg (by omega)]
      obtain ⟨c, hSearch, hc⟩ := searchBlock_first hSize (x := next) (by omega) (Nat.lt_succ_self _) 0
      refine ⟨c, hSearch, ?_⟩
      have hNot : ¬ d.HeaderAt next next := by
        rw [HeaderAt, hNone]
        exact fun hAt => Bool.false_ne_true hAt.1
      have hBehind {y : Int} (hy : next ≤ y) (hAt : d.HeaderAt next y) :
          y + d.blockHeaderSize < d.fileHeader.gxdEof :=
        hAt.2.resolve_right fun hSame => hNot (hSame.1 ▸ hAt)
      rw [FirstHeader]
      rcases hc with ⟨rfl, hAll⟩ | ⟨hLow, hRoom, hSome, hAll⟩
      · rw [if_pos rfl]
        intro y hy hAt
        have hFound := hAt.1
        rw [hAll y hy (hBehind hy hAt)] at hFound
        cases hFound
      · rw [if_neg (by omega)]
        refine ⟨hLow, ⟨hSome, .inl hRoom⟩, fun y hy hy' hAt => ?_⟩
        have hFound := hAt.1
        rw [hAll y hy hy'] at hFound
        cases hFound

/-! ## Calls -/

theorem Holds.blockOf_start (h : d.Holds blocks free) (hb : b ∈ blocks) :
    ((d.blockHeaderSize : Int) < b.1 ∧ d.blockOf b.1 d.fileHeader.gxdEof = b.1 - d.blockHeaderSize ∧
        ∃ hdr, d.validHeader (b.1 - d.blockHeaderSize) = some hdr) ∨
      d.blockOf b.1 d.fileHeader.gxdEof = b.1 ∧
        ((d.blockHeaderSize : Int) < b.1 → d.validHeader (b.1 - d.blockHeaderSize) = none) := by
  have hValid := h.validBlock_eq (show (b.1, b.2) ∈ _ from hb)
  have hBounds := h.tiles.bounds hb
  have hLength := h.blockLength_pos hb
  rw [blockOf]
  by_cases hBefore : (d.blockHeaderSize : Int) < b.1
  · cases hHeader : d.validHeader (b.1 - d.blockHeaderSize) with
    | none =>
      refine .inr ⟨?_, fun _ => rfl⟩
      rw [if_neg (by rw [validBlock, hHeader, Option.isSome_none, Bool.and_false]; simp), if_pos hValid]
    | some hdr =>
      refine .inl ⟨hBefore, ?_, hdr, rfl⟩
      have hTest : d.validBlock (b.1 - d.blockHeaderSize) d.fileHeader.gxdEof = true := by
        rw [validBlock, hHeader, decide_eq_true (by omega), decide_eq_true (by omega)]
        rfl
      rw [if_pos ⟨hBefore, hTest⟩]
  · exact .inr ⟨by rw [if_neg (fun hBoth => hBefore hBoth.1), if_pos hValid], fun hNot => absurd hNot hBefore⟩

theorem Holds.heap_ne (h : d.Holds (pre ++ b :: post) free) :
    d.fileHeader.gxdHsFptr ≠ d.fileHeader.gxdEof := by
  have hb : b ∈ pre ++ b :: post := List.mem_append_right _ List.mem_cons_self
  have hBounds := h.tiles.bounds hb
  have hLength := h.blockLength_pos hb
  omega

/-- Exactly when the call returns the block behind a block. -/
theorem Holds.findNextBlock_iff (h : d.Holds (pre ++ b :: post) free) (position : Int) :
    d.findNextBlockTested position b.1 = some (startOf post) ↔ d.LeadsOn b.1 (startOf post) := by
  have hb : b ∈ pre ++ b :: post := List.mem_append_right _ List.mem_cons_self
  have hPos := (h.bounds hb).1
  rw [findNextBlockTested, if_neg h.heap_ne, if_neg (by omega)]
  rcases h.blockOf_start hb with ⟨hBefore, hOf, hdr, hHeader⟩ | ⟨hOf, hNone⟩
  · rw [hOf, if_neg (by omega)]
    obtain ⟨c, hNext, hFirst⟩ := nextBlock_first h.fileSize h.heap_ne (by omega) hHeader
    rw [hNext, Option.some_inj]
    constructor
    · rintro rfl _ hdr' hHeader'
      rw [hHeader] at hHeader'
      obtain rfl := Option.some.inj hHeader'
      exact hFirst
    · exact fun hAll => hFirst.unique (hAll hBefore hdr hHeader)
  · rw [hOf, if_neg (by omega), h.nextBlock_eq]
    refine iff_of_true rfl fun hBefore hdr hHeader => ?_
    rw [hNone hBefore] at hHeader
    cases hHeader

theorem Holds.findFirstBlock_iff (h : d.Holds blocks free) (position : Int) :
    d.findFirstBlockTested position 0 = some (startOf blocks) ↔
      blocks = [] ∨ d.fileHeader.gxdHsFptr + d.blockHeaderSize < d.fileHeader.gxdEof := by
  constructor
  · intro hFirst
    by_contra hNone
    push Not at hNone
    cases blocks with
    | nil => exact hNone.1 rfl
    | cons b l =>
      have hStart : b.1 = d.fileHeader.gxdHsFptr := h.tiles.1
      have hPos := (h.bounds (b := b) List.mem_cons_self).1
      have hHeap := Holds.heap_ne (show d.Holds ([] ++ b :: l) free from h)
      rw [findFirstBlockTested, if_neg hHeap, if_neg (fun hNe => hNe.1 rfl), if_pos rfl, searchBlock,
        if_pos hNone.2] at hFirst
      have hZero : b.1 = 0 := (Option.some.inj hFirst).symm
      omega
  · exact fun hRoom => h.findFirstBlock_eq hRoom position

/-- No block begins where a header before a block is taken for the block. -/
theorem Holds.blockOf_gt (h : d.Holds (pre ++ b :: post) free)
    (hBefore : d.LeadsOn b.1 (startOf post)) {c : Int × BlockHeader}
    (hc : c ∈ pre) : c.1 < d.blockOf b.1 d.fileHeader.gxdEof := by
  have hb : b ∈ pre ++ b :: post := List.mem_append_right _ List.mem_cons_self
  have hMem : c ∈ pre ++ b :: post := List.mem_append_left _ hc
  have hSorted := h.tiles.pairwise fun c => h.blockLength_pos
  obtain ⟨-, hRow, hOrder⟩ := List.pairwise_append.mp hSorted
  have hLess := hOrder c hc b List.mem_cons_self
  rcases h.blockOf_start hb with ⟨hLow, hOf, hdr, hHeader⟩ | ⟨hOf, -⟩
  · have hApart := h.tiles.apart_of_ne hMem hb (by omega)
    have hLength := h.blockLength_pos hb
    have hRoom := (h.header_le hMem).2
    change d.blockHeaderSize ≤ c.2.blockLength at hRoom
    rw [hOf]
    by_contra hNot
    have hAt : c.1 = b.1 - d.blockHeaderSize := by omega
    have hBehind : behind (b.1 - d.blockHeaderSize) c.2 = b.1 := by
      rw [← hAt, h.behind_eq (show (c.1, c.2) ∈ _ from hMem)]
      omega
    have hSelf : d.FirstHeader b.1 b.1 := by
      have hValid := h.validBlock_eq (show (b.1, b.2) ∈ _ from hb)
      rw [validBlock, Bool.and_eq_true, Bool.and_eq_true, decide_eq_true_eq, decide_eq_true_eq] at hValid
      rw [FirstHeader, if_neg (by omega)]
      exact ⟨Int.le_refl _, ⟨hValid.2, by omega⟩, fun y hy hy' => by omega⟩
    have hFirst := hBefore hLow c.2 (hAt ▸ h.validHeader_eq (show (c.1, c.2) ∈ _ from hMem))
    rw [hBehind] at hFirst
    have hSame := hSelf.unique hFirst
    cases post with
    | nil =>
      have hZero : b.1 = 0 := hSame
      omega
    | cons e l =>
      have hNext := (List.pairwise_cons.mp hRow).1 e List.mem_cons_self
      have hStart : b.1 = e.1 := hSame
      omega
  · rw [hOf]
    exact hLess

/-- The call that goes back returns the block before a block. -/
theorem Holds.findPrevBlock_eq (h : d.Holds (pre ++ b :: post) free)
    (hRoom : d.fileHeader.gxdHsFptr + d.blockHeaderSize < d.fileHeader.gxdEof)
    (hBefore : d.LeadsOn b.1 (startOf post)) (position : Int) :
    d.findPrev (fun _ => true) position b.1 = some ((pre.getLast?.map Prod.fst).getD 0) := by
  have hb : b ∈ pre ++ b :: post := List.mem_append_right _ List.mem_cons_self
  have hPos := (h.bounds hb).1
  have hLength := Holds.length_le_of_tiles h.tiles fun b => h.blockLength_pos
  have hStart := h.start
  have hSize := h.fileSize
  rw [List.length_append] at hLength
  have hAll : d.Holds ([] ++ (pre ++ b :: post)) free := h
  rw [findPrev, if_neg (by rintro (hSame | hZero); exacts [h.heap_ne hSame, by omega]),
    h.findFirstBlock_eq (.inr hRoom)]
  obtain ⟨hNe, hTarget⟩ : d.blockOf b.1 d.fileHeader.gxdEof ≠ 0 ∧
      d.blockOf b.1 d.fileHeader.gxdEof ≤ b.1 := by
    rcases h.blockOf_start hb with ⟨hLow, hOf, -⟩ | ⟨hOf, -⟩
    · omega
    · omega
  rw [if_neg hNe, Option.bind_some, hAll.lastBefore_target (fun c hc => h.blockOf_gt hBefore hc) hTarget
    (by omega), List.filter_true, List.getLast?_map]

/-! ## Enumerations -/

theorem Intact.test_walk (h : d.Intact blocks free) :
    d.testFileHeader.blocks = d.blocks ∧ d.testFileHeader.blockHeaderSize = d.blockHeaderSize ∧
      d.testFileHeader.fileHeader.gxdEof = d.fileHeader.gxdEof ∧
      d.testFileHeader.LeadsOn = d.LeadsOn := by
  obtain ⟨hTest, hRev, hFile, hFileSize, -⟩ := h.test
  have hEof : d.testFileHeader.fileHeader.gxdEof = d.fileHeader.gxdEof := by
    rw [← hTest.holds.fileSize, hFileSize, h.holds.fileSize]
  have hSize : d.testFileHeader.blockHeaderSize = d.blockHeaderSize := by
    rw [blockHeaderSize, hRev, blockHeaderSize]
  have hHeader : d.testFileHeader.validHeader = d.validHeader := by
    funext a
    rw [validHeader, validHeader, readAt, readAt, hFile, hFileSize]
  have hFirst : d.testFileHeader.FirstHeader = d.FirstHeader := by
    funext x c
    simp only [FirstHeader, HeaderAt, hHeader, hSize, hEof]
  refine ⟨by rw [hTest.holds.blocks_eq, h.holds.blocks_eq], hSize, hEof, ?_⟩
  funext a c
  simp only [LeadsOn, hHeader, hSize, hFirst]

theorem Intact.navigable_test (h : d.Intact blocks free) (hNavigable : d.Navigable) :
    d.testFileHeader.Navigable := by
  obtain ⟨hBlocks, hSize, hEof, hLeads⟩ := h.test_walk
  constructor
  · rw [hBlocks, h.test.2.2.2.2, hSize, hEof]
    exact hNavigable.room
  · rw [hBlocks, hLeads]
    exact hNavigable.before

/-- From a block on, the calls return the blocks behind it. -/
theorem Intact.enumerate_eq (h : d.Intact (pre ++ post) free) (hNavigable : d.Navigable)
    {position : Int → Int} (hn : post.length < n) :
    enumerate (fun d a => d.findNextBlock (position a) a) n (some (startOf post), d) =
      some (post.map Prod.fst) := by
  induction post generalizing d pre n with
  | nil =>
    obtain ⟨n, rfl⟩ := Nat.exists_eq_succ_of_ne_zero (Nat.ne_of_gt hn)
    rfl
  | cons b post ih =>
    obtain ⟨n, rfl⟩ := Nat.exists_eq_succ_of_ne_zero (Nat.ne_of_gt (Nat.zero_lt_of_lt hn))
    have hNe : b.1 ≠ 0 := h.holds.startOf_ne_zero
    have hTest := h.test.1
    have hTested := h.navigable_test hNavigable
    have hNext := (hTest.holds.findNextBlock_iff (position b.1)).mpr
      (hTested.before pre b post hTest.holds.blocks_eq)
    have hRest : d.testFileHeader.Intact ((pre ++ [b]) ++ post) free := by rwa [List.append_assoc]
    have hTail := ih hRest hTested (Nat.lt_of_succ_lt_succ hn)
    change (if b.1 = 0 then _ else (enumerate _ n (d.findNextBlock (position b.1) b.1)).map (b.1 :: ·)) = _
    rw [if_neg hNe, findNextBlock, hNext, hTail]
    rfl

theorem enumerate_head {next : Database → Int → Option Int × Database} {r : Option Int × Database}
    {l : List Int} (h : enumerate next n r = some l) : r.1 = some (l.head?.getD 0) := by
  cases n with
  | zero => cases h
  | succ n =>
    obtain ⟨a, hFirst, h⟩ := Option.bind_eq_some_iff.mp h
    rw [hFirst]
    split at h
    · rw [← Option.some.inj h, ‹a = 0›]
      rfl
    · obtain ⟨l', -, rfl⟩ := Option.map_eq_some_iff.mp h
      rfl

theorem Intact.enumerate_next (h : d.Intact (pre ++ b :: post) free) {position : Int → Int}
    (hAll : enumerate (fun d a => d.findNextBlock (position a) a) n (some b.1, d) =
      some (b.1 :: post.map Prod.fst)) :
    d.testFileHeader.findNextBlockTested (position b.1) b.1 = some (startOf post) ∧
      ∃ m, enumerate (fun d a => d.findNextBlock (position a) a) m (some (startOf post), d.testFileHeader) =
        some (post.map Prod.fst) := by
  cases n with
  | zero => cases hAll
  | succ n =>
    have hNe : b.1 ≠ 0 := h.holds.startOf_ne_zero
    change (if b.1 = 0 then _ else (enumerate _ n (d.findNextBlock (position b.1) b.1)).map (b.1 :: ·)) = _
      at hAll
    rw [if_neg hNe] at hAll
    obtain ⟨l, hRest, hl⟩ := Option.map_eq_some_iff.mp hAll
    obtain rfl : l = post.map Prod.fst := List.tail_eq_of_cons_eq hl
    have hHead : d.testFileHeader.findNextBlockTested (position b.1) b.1 = some (startOf post) := by
      rw [startOf, ← List.head?_map]
      exact enumerate_head hRest
    refine ⟨hHead, n, ?_⟩
    rwa [findNextBlock, hHead] at hRest

/-- What is before the blocks leads on if the calls return them. -/
theorem Intact.leadsOn_of_enumerate (h : d.Intact (pre ++ post) free) {position : Int → Int}
    (hAll : enumerate (fun d a => d.findNextBlock (position a) a) n (some (startOf post), d) =
      some (post.map Prod.fst)) {mid rest : List (Int × BlockHeader)} (hSplit : post = mid ++ b :: rest) :
    d.LeadsOn b.1 (startOf rest) := by
  have hLeads := h.test_walk.2.2.2
  have hTest := h.test.1
  rw [← hLeads]
  induction mid generalizing d pre post n with
  | nil =>
    obtain rfl : post = b :: rest := hSplit
    exact (hTest.holds.findNextBlock_iff (position b.1)).mp (h.enumerate_next hAll).1
  | cons c mid ih =>
    obtain rfl : post = c :: (mid ++ b :: rest) := hSplit
    obtain ⟨-, m, hNext⟩ := h.enumerate_next hAll
    have hRest : d.testFileHeader.Intact ((pre ++ [c]) ++ (mid ++ b :: rest)) free := by
      rwa [List.append_assoc]
    have hAgain := hRest.test_walk.2.2.2
    rw [← hAgain]
    exact ih hRest hNext rfl hAgain hRest.test.1

/-- The block calls go over the blocks exactly if what is before each of them leads on. -/
theorem Intact.enumerates_iff (h : d.Intact blocks free) : d.Enumerates ↔ d.Navigable := by
  obtain ⟨hTest, -, -, -, hStart⟩ := h.test
  obtain ⟨hBlocks, hSize, hEof, hLeads⟩ := h.test_walk
  have hEqual := h.holds.blocks_eq
  constructor
  · intro hAll
    have hForward := hAll.forward (fun _ => 0) (d.blocks.length + 1) (Nat.lt_succ_self _)
    have hFirst : d.testFileHeader.findFirstBlockTested 0 0 = some (startOf blocks) := by
      rw [startOf, ← List.head?_map, ← hEqual]
      exact enumerate_head hForward
    have hRoom := (hTest.holds.findFirstBlock_iff 0).mp hFirst
    rw [hStart, hSize, hEof] at hRoom
    rw [findFirstBlock, hFirst, hEqual] at hForward
    have hAll : d.testFileHeader.Intact ([] ++ blocks) free := hTest
    refine ⟨hEqual ▸ hRoom, fun pre b post hSplit => ?_⟩
    rw [← hLeads]
    exact hAll.leadsOn_of_enumerate hForward (hEqual.symm.trans hSplit)
  · intro hNavigable
    have hTested := h.navigable_test hNavigable
    have hRoom := hTested.room
    rw [hTest.holds.blocks_eq] at hRoom
    refine ⟨?_, fun position n hn => ?_, fun position pre b post hSplit => ?_⟩
    · rw [hEqual]
      exact List.pairwise_map.mpr (h.holds.tiles.pairwise fun b => h.holds.blockLength_pos)
    · rw [hEqual] at hn ⊢
      rw [findFirstBlock, (hTest.holds.findFirstBlock_iff _).mpr hRoom]
      have hAll : d.testFileHeader.Intact ([] ++ blocks) free := hTest
      exact hAll.enumerate_eq hTested hn
    · obtain rfl : blocks = pre ++ b :: post := hEqual.symm.trans hSplit
      refine hTest.holds.findPrevBlock_eq (hRoom.resolve_left (List.append_ne_nil_of_right_ne_nil _ (List.cons_ne_nil _ _))) ?_ position
      rw [hLeads]
      exact hNavigable.before pre b post hSplit

/-- After any history of a new file the block calls go over its blocks exactly if what is before each of
them leads on. -/
theorem fileCalls_enumerates_iff (rev : Revision) {staticSize : Nat}
    (hStatic : staticSize + rev.fileHeaderSize < 2 ^ 63) {calls : List (Int × FileCall)}
    (hCalls : fileCalls.Along FileCall.Proper calls (create rev staticSize)) :
    (fileCalls.run calls (create rev staticSize)).2.Enumerates ↔
      (fileCalls.run calls (create rev staticSize)).2.Navigable := by
  obtain ⟨blocks, free, h⟩ := run_intact rev hStatic hCalls
  exact h.enumerates_iff

/-- An object that holds a block header, between one that is deleted and one that is removed. -/
theorem fileCalls_enumerates_iff_E :
    (fileCalls.run [(0, .heap (.alloc 8 .none)), (136, .heap (.alloc 40 .none)),
      (176, .heap (.alloc 8 .none)), (248, .write 176 headerBytes), (176, .heap (.delete 136)),
      (104, .heap (.remove 248))] (create .E 0)).2.Enumerates ↔
    (fileCalls.run [(0, .heap (.alloc 8 .none)), (136, .heap (.alloc 40 .none)),
      (176, .heap (.alloc 8 .none)), (248, .write 176 headerBytes), (176, .heap (.delete 136)),
      (104, .heap (.remove 248))] (create .E 0)).2.Navigable :=
  fileCalls_enumerates_iff .E (by decide) (by decide +kernel)

/-- The block of an object without bytes is found again and again before the one behind it. -/
theorem fileCalls_repeats :
    ¬ (fileCalls.run [(0, .heap (.alloc 0 .none)), (136, .heap (.alloc 8 .none))] (create .E 0)).2.Enumerates := by
  intro h
  have hForward := h.forward (fun _ => 0) 4 (by decide +kernel)
  revert hForward
  decide +kernel

end DataReel.Database
