import DataReel.Database.HeapRun

/-! # Linear navigation

The functions that go over the blocks of a file one after another, forwards and
backwards, by the addresses of objects or blocks. Their loops have a bound on
their turns here, which those of the source do not have.
-/

namespace DataReel.Database

variable (d : Database)

/-- The header of a valid block. -/
def validHeader (address : Int) : Option BlockHeader := (d.readAt address).filter BlockHeader.test

/-- The search of `FindFirstBlock` from an address on. Where it starts from `gxCurrAddress`, the
first read is at the file position. -/
def searchBlock : Nat → Int → Int → Option Int
  | 0, _, _ => none
  | n + 1, position, address =>
    if d.fileHeader.gxdEof ≤ address + d.blockHeaderSize then some 0
    else
      match d.readAt (readPosition position address) with
      | none => some 0
      | some hdr =>
        if hdr.test then
          some (if address = gxCurrAddress then position + sizeOfBlockHeader else address)
        else searchBlock n (readPosition position address + sizeOfBlockHeader) (address + 1)

/-- `FindFirstBlock` on an object that has tested its header. -/
def findFirstBlockTested (position offset : Int) : Option Int :=
  if d.fileHeader.gxdHsFptr = d.fileHeader.gxdEof then some 0
  else if offset ≠ 0 ∧ d.fileHeader.gxdEof ≤ offset then some 0
  else
    let address := if offset = 0 then d.fileHeader.gxdHsFptr else offset
    d.searchBlock ((d.fileHeader.gxdEof - address).toNat + 1) position address

/-- `FindFirstBlock`, with the object that it leaves. -/
def findFirstBlock (position offset : Int) : Option Int × Database :=
  (d.testFileHeader.findFirstBlockTested position offset, d.testFileHeader)

def validBlock (address eof : Int) : Bool :=
  0 < address && address + d.blockHeaderSize ≤ eof && (d.validHeader address).isSome

def blockOf (offset eof : Int) : Int :=
  if d.blockHeaderSize < offset ∧ d.validBlock (offset - d.blockHeaderSize) eof then
    offset - d.blockHeaderSize
  else if d.validBlock offset eof then offset
  else 0

/-- The address behind a block; the sum is one of 64 bits, and a damaged length is taken for 1. -/
def behind (address : Int) (hdr : BlockHeader) : Int :=
  let next := intOfWord (wordOfInt (address + hdr.blockLength))
  if next ≤ address then address + 1 else next

def nextBlock (address eof : Int) : Option Int :=
  match d.validHeader address with
  | none => some 0
  | some hdr =>
    let next := behind address hdr
    if eof < next + d.blockHeaderSize then some 0
    else if d.validBlock next eof then some next
    else d.findFirstBlockTested 0 next

def normalBlock (address : Int) : Bool :=
  (d.validHeader address).any fun hdr => hdr.status = gxNormalBlock

/-- The loop over blocks that are not in use. -/
def skipBlocks : Nat → Int → Int → Option Int
  | 0, _, _ => none
  | n + 1, address, eof =>
    if address = 0 ∨ d.normalBlock address then some address
    else (d.nextBlock address eof).bind fun next => skipBlocks n next eof

/-- The object of a block, or 0. -/
def objectOf (address : Int) : Int := if address = 0 then 0 else address + d.blockHeaderSize

def findFirstObject (position offset : Int) : Option Int × Database :=
  let d := d.testFileHeader
  ((d.findFirstBlockTested position offset).bind fun address =>
    (d.skipBlocks (d.fileSize.toNat + 1) address d.fileHeader.gxdEof).map d.objectOf, d)

/-- `FindNextBlock` on an object that has tested its header. -/
def findNextBlockTested (position offset : Int) : Option Int :=
  if d.fileHeader.gxdHsFptr = d.fileHeader.gxdEof then some 0
  else
    let eof := d.fileHeader.gxdEof
    if offset = 0 then
      (d.findFirstBlockTested position 0).bind fun address =>
        if address = 0 then some 0 else d.nextBlock address eof
    else if d.blockOf offset eof = 0 then d.findFirstBlockTested position offset
    else d.nextBlock (d.blockOf offset eof) eof

/-- `FindNextObject` -/
def findNextObject (position offset : Int) : Option Int × Database :=
  let d := d.testFileHeader
  ((d.findNextBlockTested position offset).bind fun address =>
    (d.skipBlocks (d.fileSize.toNat + 1) address d.fileHeader.gxdEof).map d.objectOf, d)

/-- The loop that keeps the last block it accepts before a target. -/
def lastBefore (accept : Int → Bool) : Nat → Int → Int → Int → Int → Option Int
  | 0, _, _, _, _ => none
  | n + 1, prev, address, target, eof =>
    if address = 0 ∨ target ≤ address then some prev
    else (d.nextBlock address eof).bind fun next =>
      lastBefore accept n (if accept address then address else prev) next target eof

/-- The walk of `FindPrevBlock` and `FindPrevObject` from the heap start. -/
def findPrev (accept : Int → Bool) (position offset : Int) : Option Int :=
  if d.fileHeader.gxdHsFptr = d.fileHeader.gxdEof ∨ offset = 0 then some 0
  else
    let eof := d.fileHeader.gxdEof
    let target := d.blockOf offset eof
    if target = 0 then some 0
    else (d.findFirstBlockTested position 0).bind fun address =>
      d.lastBefore accept (d.fileSize.toNat + 1) 0 address target eof

def findPrevBlock (position offset : Int) : Option Int × Database :=
  let d := d.testFileHeader
  (d.findPrev (fun _ => true) position offset, d)

def findPrevObject (position offset : Int) : Option Int × Database :=
  let d := d.testFileHeader
  ((d.findPrev d.normalBlock position offset).map d.objectOf, d)

/-- The addresses that repeated calls return until one of them returns 0. -/
def traverse (next : Database → Int → Option Int × Database) : Nat → Option Int × Database → List Int
  | 0, _ => []
  | n + 1, r =>
    match r.1 with
    | some a => if a = 0 then [] else a :: traverse next n (next r.2 a)
    | none => []

def objects : List Int :=
  (d.blocks.filter fun b => b.2.status = gxNormalBlock).map fun b => b.1 + d.blockHeaderSize

variable {d} {blocks pre mid post : List (Int × BlockHeader)} {free : List Int} {a : Int}
  {hdr : BlockHeader} {b : Int × BlockHeader}

/-! ## Blocks of a heap -/

namespace Holds

theorem validHeader_eq (h : d.Holds blocks free) (hb : (a, hdr) ∈ blocks) :
    d.validHeader a = some hdr := by
  rw [validHeader, h.stored _ hb, Option.filter_some, if_pos (h.sound _ hb).test]

theorem validBlock_eq (h : d.Holds blocks free) (hb : (a, hdr) ∈ blocks) :
    d.validBlock a d.fileHeader.gxdEof = true := by
  have hBounds := h.bounds hb
  have hHeader := (h.header_le hb).2
  rw [h.fileSize] at hBounds
  dsimp only at hBounds hHeader
  rw [validBlock, h.validHeader_eq hb, Bool.and_eq_true, Bool.and_eq_true, decide_eq_true_eq,
    decide_eq_true_eq, blockHeaderSize]
  refine ⟨⟨hBounds.1, ?_⟩, rfl⟩
  omega

theorem blockOf_eq (h : d.Holds blocks free) (hb : (a, hdr) ∈ blocks) :
    d.blockOf (a + d.blockHeaderSize) d.fileHeader.gxdEof = a := by
  have hPos := (h.bounds hb).1
  dsimp only at hPos
  rw [blockOf, Int.add_sub_cancel, if_pos ⟨by omega, h.validBlock_eq hb⟩]

theorem normalBlock_eq (h : d.Holds blocks free) (hb : b ∈ blocks) :
    d.normalBlock b.1 = decide (b.2.status = gxNormalBlock) := by
  rw [normalBlock, h.validHeader_eq hb, Option.any_some]

theorem behind_eq (h : d.Holds blocks free) (hb : (a, hdr) ∈ blocks) :
    behind a hdr = a + hdr.blockLength := by
  have hBounds := h.bounds hb
  have hLength := h.blockLength_pos hb
  have hLimit := h.limit
  rw [h.fileSize] at hBounds
  dsimp only at hBounds hLength
  rw [behind, intOfWord_wordOfInt (by omega) (by omega)]
  exact if_neg (by omega)

end Holds

/-- Where a row of blocks begins, or 0. -/
def startOf (l : List (Int × BlockHeader)) : Int := (l.head?.map Prod.fst).getD 0

def objectsOf (d : Database) (l : List (Int × BlockHeader)) : List Int :=
  (l.filter fun b => b.2.status = gxNormalBlock).map fun b => b.1 + d.blockHeaderSize

namespace Holds

theorem nextBlock_eq (h : d.Holds (pre ++ b :: post) free) :
    d.nextBlock b.1 d.fileHeader.gxdEof = some (startOf post) := by
  have hb : (b.1, b.2) ∈ pre ++ b :: post := List.mem_append_right _ List.mem_cons_self
  have hAfter := h.tiles.after
  have hSize := d.rev.blockHeaderSize_pos
  rw [nextBlock, h.validHeader_eq hb]
  dsimp only
  rw [h.behind_eq hb, blockHeaderSize]
  cases post with
  | nil =>
    have hEnd : b.1 + b.2.blockLength = d.fileHeader.gxdEof := hAfter
    rw [if_pos (by omega)]
    rfl
  | cons c l =>
    have hStart : c.1 = b.1 + b.2.blockLength := hAfter.1
    have hc : (c.1, c.2) ∈ pre ++ b :: c :: l :=
      List.mem_append_right _ (List.mem_cons_of_mem _ List.mem_cons_self)
    have hValid := h.validBlock_eq hc
    have hRoom : c.1 + d.rev.blockHeaderSize ≤ d.fileHeader.gxdEof := by
      rw [validBlock, Bool.and_eq_true, Bool.and_eq_true, decide_eq_true_eq, decide_eq_true_eq] at hValid
      exact hValid.1.2
    rw [← hStart, if_neg (by omega), if_pos hValid]
    rfl

theorem startOf_ne_zero (h : d.Holds (pre ++ b :: post) free) : startOf (b :: post) ≠ 0 := by
  have hPos := (h.bounds (b := b) (List.mem_append_right _ List.mem_cons_self)).1
  change b.1 ≠ 0
  omega

theorem findFirstBlock_eq (h : d.Holds blocks free)
    (hRoom : blocks = [] ∨ d.fileHeader.gxdHsFptr + d.blockHeaderSize < d.fileHeader.gxdEof)
    (position : Int) : d.findFirstBlockTested position 0 = some (startOf blocks) := by
  rw [findFirstBlockTested]
  cases blocks with
  | nil =>
    rw [if_pos (show d.fileHeader.gxdHsFptr = d.fileHeader.gxdEof from h.tiles)]
    rfl
  | cons b l =>
    have hb : b ∈ b :: l := List.mem_cons_self
    have hStart : b.1 = d.fileHeader.gxdHsFptr := h.tiles.1
    have hPos := (h.bounds hb).1
    have hRoom := hRoom.resolve_left (List.cons_ne_nil _ _)
    rw [if_neg (by omega), if_neg (fun hNe => hNe.1 rfl), if_pos rfl, searchBlock, ← hStart,
      if_neg (by omega), readPosition_pos _ hPos, h.stored b hb]
    dsimp only
    rw [if_pos (h.sound b hb).test, if_neg (by rw [gxCurrAddress]; omega)]
    rfl

theorem skipBlocks_eq (h : d.Holds (pre ++ post) free) {n : Nat} (hn : post.length < n) :
    (d.skipBlocks n (startOf post) d.fileHeader.gxdEof).map d.objectOf =
      some ((d.objectsOf post).head?.getD 0) := by
  induction post generalizing pre n with
  | nil =>
    obtain ⟨n, rfl⟩ := Nat.exists_eq_succ_of_ne_zero (Nat.ne_of_gt hn)
    rw [skipBlocks, if_pos (.inl rfl)]
    rfl
  | cons b post ih =>
    obtain ⟨n, rfl⟩ := Nat.exists_eq_succ_of_ne_zero (Nat.ne_of_gt (Nat.zero_lt_of_lt hn))
    have hNext := h.nextBlock_eq
    have hNe := h.startOf_ne_zero
    have hNormal := h.normalBlock_eq (b := b) (List.mem_append_right _ List.mem_cons_self)
    change (d.skipBlocks (n + 1) b.1 _).map _ = _
    change b.1 ≠ 0 at hNe
    rw [skipBlocks, hNormal, objectsOf, List.filter_cons]
    by_cases hUse : b.2.status = gxNormalBlock
    · rw [if_pos (.inr (decide_eq_true hUse)), if_pos (decide_eq_true hUse), Option.map_some, objectOf,
        if_neg hNe]
      rfl
    · rw [if_neg (by simp [hNe, hUse]), if_neg (by simp [hUse]), hNext, Option.bind_some]
      have hRest : d.Holds ((pre ++ [b]) ++ post) free := by rwa [List.append_assoc]
      exact ih hRest (Nat.lt_of_succ_lt_succ hn)

theorem lastBefore_target (h : d.Holds (pre ++ (mid ++ b :: post)) free) {accept : Int → Bool}
    {target : Int} (hMid : ∀ c ∈ mid, c.1 < target) (hTarget : target ≤ b.1) {n : Nat}
    (hn : mid.length < n) (prev : Int) :
    d.lastBefore accept n prev (startOf (mid ++ b :: post)) target d.fileHeader.gxdEof =
      some (((mid.map Prod.fst).filter accept).getLast?.getD prev) := by
  induction mid generalizing pre n prev with
  | nil =>
    obtain ⟨n, rfl⟩ := Nat.exists_eq_succ_of_ne_zero (Nat.ne_of_gt hn)
    rw [lastBefore, if_pos (.inr hTarget)]
    rfl
  | cons c mid ih =>
    obtain ⟨n, rfl⟩ := Nat.exists_eq_succ_of_ne_zero (Nat.ne_of_gt (Nat.zero_lt_of_lt hn))
    have hCons : d.Holds (pre ++ c :: (mid ++ b :: post)) free := h
    have hNext := nextBlock_eq hCons
    have hNe : c.1 ≠ 0 := startOf_ne_zero hCons
    have hRest : d.Holds ((pre ++ [c]) ++ (mid ++ b :: post)) free := by rwa [List.append_assoc]
    obtain ⟨hFirst, hMid⟩ := List.forall_mem_cons.mp hMid
    change d.lastBefore accept (n + 1) prev c.1 target _ = _
    rw [lastBefore, if_neg (by omega), hNext, Option.bind_some,
      ih hRest hMid (Nat.lt_of_succ_lt_succ hn), List.map_cons, List.filter_cons]
    split
    · rw [List.getLast?_cons]
      rfl
    · rfl

theorem lastBefore_eq (h : d.Holds (pre ++ (mid ++ b :: post)) free) {accept : Int → Bool}
    {n : Nat} (hn : mid.length < n) (prev : Int) :
    d.lastBefore accept n prev (startOf (mid ++ b :: post)) b.1 d.fileHeader.gxdEof =
      some (((mid.map Prod.fst).filter accept).getLast?.getD prev) := by
  have hSorted := h.tiles.pairwise fun c => h.blockLength_pos
  obtain ⟨-, hRow, -⟩ := List.pairwise_append.mp hSorted
  obtain ⟨-, -, hMid⟩ := List.pairwise_append.mp hRow
  exact h.lastBefore_target (fun c hc => hMid c hc b List.mem_cons_self) (Int.le_refl _) hn prev

end Holds

/-! ## Files whose header is the one in memory -/

/-- A heap whose header on disk agrees with the one in memory. -/
structure Mapped (d : Database) (blocks : List (Int × BlockHeader)) (free : List Int) : Prop where
  holds : d.Holds blocks free
  room : blocks = [] ∨ d.fileHeader.gxdHsFptr + d.blockHeaderSize < d.fileHeader.gxdEof
  revOfSig : revOfSig d.fileHeader.gxdSig = d.rev
  words : d.fileHeader.gxdSig.1 < 2 ^ 64 ∧ d.fileHeader.gxdSig.2 < 2 ^ 64
  diskFsFptr : d.diskHeader.gxdFsFptr = d.fileHeader.gxdFsFptr
  diskEof : d.diskHeader.gxdEof = d.fileHeader.gxdEof
  diskHsFptr : d.diskHeader.gxdHsFptr = d.fileHeader.gxdHsFptr
  diskSig : d.diskHeader.gxdSig = d.fileHeader.gxdSig

namespace Mapped

theorem test (h : d.Mapped blocks free) :
    d.testFileHeader.Mapped blocks free ∧ d.testFileHeader.rev = d.rev := by
  have hSize : (sizeOfFileHeader : Int) ≤ d.fileSize := by
    have hHeader := h.holds.fileHeaderSize_le
    have hLe := d.rev.sizeOfFileHeader_le
    omega
  obtain ⟨hFile, hFileSize, hSame | ⟨hHeader, hRev⟩⟩ := testFileHeader_eq hSize
  · rw [hSame]
    exact ⟨h, rfl⟩
  · have hRev' : d.testFileHeader.rev = d.rev := by rw [hRev, h.diskSig, h.revOfSig]
    have hDisk : d.testFileHeader.diskHeader = d.diskHeader := by rw [diskHeader, diskHeader, hFile]
    refine ⟨?_, hRev'⟩
    constructor
    · exact h.holds.of_same hFile hFileSize hRev' (hHeader ▸ h.diskFsFptr) (hHeader ▸ h.diskEof)
        (hHeader ▸ h.diskHsFptr)
    · rw [hHeader, h.diskHsFptr, h.diskEof, blockHeaderSize, hRev']
      exact h.room
    · rw [hHeader, hRev', h.diskSig, h.revOfSig]
    · rw [hHeader, h.diskSig]
      exact h.words
    · rw [hDisk, hHeader]
    · rw [hDisk, hHeader]
    · rw [hDisk, hHeader]
    · rw [hDisk, hHeader]

theorem length_lt (h : d.Mapped blocks free) : blocks.length < d.fileSize.toNat + 1 := by
  have hLength := Holds.length_le_of_tiles h.holds.tiles fun b => h.holds.blockLength_pos
  have hStart := h.holds.start
  rw [h.holds.fileSize]
  omega

theorem objectsOf_eq {d' : Database} (hRev : d'.rev = d.rev) (l : List (Int × BlockHeader)) :
    d'.objectsOf l = d.objectsOf l := by
  rw [objectsOf, objectsOf, blockHeaderSize, hRev, blockHeaderSize]

theorem findFirstObject_eq (h : d.Mapped blocks free) (position : Int) :
    d.findFirstObject position 0 = (some ((d.objectsOf blocks).head?.getD 0), d.testFileHeader) := by
  obtain ⟨hTest, hRev⟩ := h.test
  have hAll : d.testFileHeader.Holds ([] ++ blocks) free := hTest.holds
  rw [findFirstObject, hTest.holds.findFirstBlock_eq hTest.room, Option.bind_some,
    Holds.skipBlocks_eq hAll hTest.length_lt, objectsOf_eq hRev]

theorem findNextObject_eq (h : d.Mapped (pre ++ b :: post) free) (position : Int) :
    d.findNextObject position (b.1 + d.blockHeaderSize) =
      (some ((d.objectsOf post).head?.getD 0), d.testFileHeader) := by
  obtain ⟨hTest, hRev⟩ := h.test
  have hb : (b.1, b.2) ∈ pre ++ b :: post := List.mem_append_right _ List.mem_cons_self
  have hPos := (hTest.holds.bounds hb).1
  have hLess := hTest.holds.tiles.bounds hb
  have hLength := hTest.holds.blockLength_pos hb
  have hBlock := hTest.holds.blockOf_eq hb
  have hTurns := hTest.length_lt
  have hSize : d.blockHeaderSize = d.testFileHeader.blockHeaderSize := by
    rw [blockHeaderSize, blockHeaderSize, hRev]
  rw [List.length_append, List.length_cons] at hTurns
  dsimp only at hPos hLess hLength
  have hBehind : d.testFileHeader.Holds ((pre ++ [b]) ++ post) free := by
    rw [List.append_assoc]
    exact hTest.holds
  rw [findNextObject, hSize, findNextBlockTested, if_neg (by omega), if_neg (by omega),
    if_neg (by omega), hBlock, hTest.holds.nextBlock_eq, Option.bind_some,
    Holds.skipBlocks_eq hBehind (by omega), objectsOf_eq hRev]

theorem findPrevObject_eq (h : d.Mapped (pre ++ b :: post) free) (position : Int) :
    d.findPrevObject position (b.1 + d.blockHeaderSize) =
      (some ((d.objectsOf pre).getLast?.getD 0), d.testFileHeader) := by
  obtain ⟨hTest, hRev⟩ := h.test
  have hb : (b.1, b.2) ∈ pre ++ b :: post := List.mem_append_right _ List.mem_cons_self
  have hPos := (hTest.holds.bounds hb).1
  have hLess := hTest.holds.tiles.bounds hb
  have hLength := hTest.holds.blockLength_pos hb
  have hBlock := hTest.holds.blockOf_eq hb
  have hTurns := hTest.length_lt
  have hSize : d.blockHeaderSize = d.testFileHeader.blockHeaderSize := by
    rw [blockHeaderSize, blockHeaderSize, hRev]
  have hNormal : (pre.map Prod.fst).filter d.testFileHeader.normalBlock =
      (pre.filter fun b => b.2.status = gxNormalBlock).map Prod.fst := by
    rw [List.filter_map]
    refine congrArg _ (List.filter_congr fun c hc => ?_)
    exact hTest.holds.normalBlock_eq (List.mem_append_left _ hc)
  rw [List.length_append] at hTurns
  dsimp only at hPos hLess hLength
  have hAll : d.testFileHeader.Holds ([] ++ (pre ++ b :: post)) free := hTest.holds
  rw [findPrevObject, hSize, findPrev, if_neg (by omega), if_neg (by omega), hBlock,
    hTest.holds.findFirstBlock_eq hTest.room, Option.bind_some,
    Holds.lastBefore_eq hAll (by omega), Option.map_some, hNormal, objectsOf, List.getLast?_map,
    List.getLast?_map]
  refine congrArg (fun x => (some x, _)) ?_
  cases hLast : (pre.filter fun b => b.2.status = gxNormalBlock).getLast? with
  | none => rfl
  | some c =>
    have hc := (List.mem_filter.mp (List.mem_of_getLast? hLast)).1
    have hcPos := (hTest.holds.bounds (List.mem_append_left _ hc)).1
    change objectOf _ c.1 = _
    rw [objectOf, if_neg (by omega), ← hSize]
    rfl

end Mapped

end DataReel.Database
