import DataReel.Database.Frame
import DataReel.Library.Segment
import DataReel.Library.Tiling
import Mathlib.Data.List.Perm.Subperm

/-! # The heap of a file

The blocks between the start of the heap and the end of the file follow each
other, and the free space list goes over those that are marked deleted or
removed.
-/

namespace DataReel

/-- A block header as the engine writes it. -/
structure BlockHeader.Sound (overhead : Nat) (hdr : BlockHeader) : Prop where
  check : hdr.blockCheckWord = gxCheckWord
  overhead : overhead ≤ hdr.blockLength
  status : hdr.blockStatus = gxNormalBlock ∨ hdr.blockStatus = gxDeletedBlock ∨
    hdr.blockStatus = gxRemovedBlock
  next : 0 ≤ hdr.blockNdFptr ∧ hdr.blockNdFptr < 2 ^ 63

namespace BlockHeader.Sound

variable {overhead : Nat} {hdr : BlockHeader}

theorem status_eq (h : hdr.Sound overhead) : hdr.status = hdr.blockStatus := by
  rw [BlockHeader.status]
  rcases h.status with hStatus | hStatus | hStatus <;> rw [hStatus] <;> decide

theorem test (h : hdr.Sound overhead) : hdr.test = true := by
  obtain ⟨check, length, status, next⟩ := hdr
  obtain rfl : check = gxCheckWord := h.check
  rcases h.status with hStatus | hStatus | hStatus <;> cases hStatus <;>
    simp [BlockHeader.test, BlockHeader.status, gxBadBlock, gxDeletedBlock, gxNormalBlock,
      gxRemovedBlock]

theorem isFree_iff (h : hdr.Sound overhead) : hdr.isFree = true ↔ hdr.blockStatus ≠ gxNormalBlock := by
  rw [BlockHeader.isFree, h.status_eq, decide_eq_true_iff]
  rcases h.status with hStatus | hStatus | hStatus <;> rw [hStatus] <;> decide

theorem status_iff (h : hdr.Sound overhead) : hdr.status = gxNormalBlock ↔ hdr.isFree = false := by
  rw [h.status_eq, ← Bool.not_eq_true, h.isFree_iff, not_not]

theorem fits (h : hdr.Sound overhead) (hLength : hdr.blockLength < 2 ^ 64) : hdr.Fits := by
  refine ⟨?_, hLength, ?_, ?_⟩
  · rw [h.check]
    decide
  · rcases h.status with hStatus | hStatus | hStatus <;> rw [hStatus] <;> decide
  · have := h.next
    omega

end BlockHeader.Sound

/-- The header of a block in use. -/
def BlockHeader.normal (bytes : Nat) : BlockHeader := ⟨gxCheckWord, bytes, gxNormalBlock, 0⟩

theorem BlockHeader.normal_sound {overhead bytes : Nat} (h : overhead ≤ bytes) :
    (normal bytes).Sound overhead := ⟨rfl, h, .inl rfl, Int.le_refl 0,
    show (0 : Int) < 2 ^ 63 by decide⟩

theorem BlockHeader.normal_isFree (bytes : Nat) : (normal bytes).isFree = false := by
  simp [normal, isFree, status, gxNormalBlock, gxDeletedBlock, gxRemovedBlock]

namespace Database

/-- `block_nd_fptr` of the block at an address. -/
def nextFptr (d : Database) (address : Int) : Option Int :=
  (d.readAt address).map BlockHeader.blockNdFptr

/-- The blocks of the heap and the addresses on the free space list. -/
structure Holds (d : Database) (blocks : List (Int × BlockHeader)) (free : List Int) : Prop where
  start : (d.rev.fileHeaderSize : Int) ≤ d.fileHeader.gxdHsFptr
  tiles : Tiles BlockHeader.blockLength d.fileHeader.gxdHsFptr blocks d.fileHeader.gxdEof
  fileSize : d.fileSize = d.fileHeader.gxdEof
  limit : d.fileHeader.gxdEof < 2 ^ 63
  stored : ∀ b ∈ blocks, d.readAt b.1 = some b.2
  sound : ∀ b ∈ blocks, b.2.Sound d.overhead
  chain : Segment d.nextFptr d.fileHeader.gxdFsFptr free 0
  nodup : free.Nodup
  free_iff : ∀ a, a ∈ free ↔ ∃ hdr, (a, hdr) ∈ blocks ∧ hdr.isFree = true

namespace Holds

variable {d d' : Database} {blocks l l' : List (Int × BlockHeader)} {free free' : List Int} {a x : Int}
  {hdr : BlockHeader} {b : Int × BlockHeader}

theorem overhead_pos (d : Database) : 0 < d.overhead :=
  Nat.lt_of_lt_of_le d.rev.blockHeaderSize_pos (Nat.le_add_right _ _)

theorem blockLength_pos (h : d.Holds blocks free) (hb : b ∈ blocks) : 0 < b.2.blockLength :=
  Nat.lt_of_lt_of_le (overhead_pos d) (h.sound b hb).overhead

theorem bounds (h : d.Holds blocks free) (hb : b ∈ blocks) :
    0 < b.1 ∧ (d.rev.fileHeaderSize : Int) ≤ b.1 ∧ b.1 + b.2.blockLength ≤ d.fileSize ∧
      b.1 + d.overhead ≤ b.1 + b.2.blockLength := by
  have hBounds := h.tiles.bounds hb
  have hStart := h.start
  have hPos := d.rev.fileHeaderSize_pos
  have hLength := (h.sound b hb).overhead
  rw [h.fileSize]
  omega

theorem header_le (h : d.Holds blocks free) (hb : b ∈ blocks) :
    sizeOfBlockHeader ≤ b.2.blockLength ∧ d.rev.blockHeaderSize ≤ b.2.blockLength := by
  have hLe := d.rev.sizeOfBlockHeader_le
  have hOverhead : d.rev.blockHeaderSize ≤ d.overhead := Nat.le_add_right _ _
  have hLength := (h.sound b hb).overhead
  omega

theorem fits (h : d.Holds blocks free) (hb : b ∈ blocks) : b.2.Fits := by
  have hBounds := h.bounds hb
  have hLimit := h.limit
  rw [h.fileSize] at hBounds
  exact (h.sound b hb).fits (by omega)

theorem header_unique (h : d.Holds blocks free) {hdr' : BlockHeader} (hb : (a, hdr) ∈ blocks)
    (hb' : (a, hdr') ∈ blocks) : hdr = hdr' :=
  Option.some.inj ((h.stored _ hb).symm.trans (h.stored _ hb'))

theorem mem_free_iff (h : d.Holds blocks free) (hb : (a, hdr) ∈ blocks) :
    a ∈ free ↔ hdr.isFree = true := by
  rw [h.free_iff]
  constructor
  · rintro ⟨hdr', hb', hFree⟩
    rwa [h.header_unique hb hb']
  · exact fun hFree => ⟨hdr, hb, hFree⟩

theorem fileHeaderSize_le (h : d.Holds blocks free) : (d.rev.fileHeaderSize : Int) ≤ d.fileSize := by
  have hTiles := h.tiles.le
  have hStart := h.start
  rw [h.fileSize]
  omega

theorem length_le_of_tiles {e : Int} (hTiles : Tiles BlockHeader.blockLength a blocks e)
    (hPos : ∀ b ∈ blocks, 0 < b.2.blockLength) : a + blocks.length ≤ e := by
  induction blocks generalizing a with
  | nil => exact Int.le_of_eq (by rw [List.length_nil, Int.natCast_zero, Int.add_zero]; exact hTiles)
  | cons b l ih =>
    have hRest := ih hTiles.2 fun c hc => hPos c (List.mem_cons_of_mem b hc)
    have hFirst := hPos b List.mem_cons_self
    rw [List.length_cons]
    omega

theorem free_length_le (h : d.Holds blocks free) : (free.length : Int) ≤ d.fileSize := by
  have hSub : free ⊆ blocks.map Prod.fst := by
    intro a ha
    obtain ⟨hdr, hb, -⟩ := (h.free_iff a).mp ha
    exact List.mem_map_of_mem hb
  have hLength := (h.nodup.subperm hSub).length_le
  rw [List.length_map] at hLength
  have hBlocks := length_le_of_tiles h.tiles fun b => h.blockLength_pos
  have hStart := h.start
  rw [h.fileSize]
  omega

/-! ## Walks -/

theorem ne_nextFptr {next : Int → Option Int} {c : Int} (hNext : next a = some c)
    (hSegment : Segment next c free 0) (hNodup : (a :: free).Nodup) (ha : 0 < a) : a ≠ c := by
  rintro rfl
  cases free with
  | nil => exact ha.ne hSegment.symm
  | cons y post => exact (List.nodup_cons.mp hNodup).1 (List.mem_cons.mpr (.inl hSegment.1.symm))

theorem walk_from (h : d.Holds blocks free') {locate : Int → Int → Int}
    {accept : Int → BlockHeader → Bool} (hLocate : ∀ position a, 0 < a → locate position a = a)
    {n : Nat} {position : Int} (hn : free.length < n) (hChain : Segment d.nextFptr a free 0)
    (hNodup : free.Nodup) (hFree : ∀ x ∈ free, x ∈ free') :
    ∃ r, d.walk locate accept n a position = some r ∧
      (∀ b ∈ r.1, b ∈ blocks ∧ accept b.1 b.2 = false) ∧
      ((r.2 = .none ∧ r.1.map Prod.fst = free) ∨
        ∃ a hdr post, r.2 = .found a hdr ∧ free = r.1.map Prod.fst ++ a :: post ∧
          (a, hdr) ∈ blocks ∧ accept a hdr = true) := by
  induction free generalizing a n position with
  | nil =>
    obtain ⟨n, rfl⟩ := Nat.exists_eq_succ_of_ne_zero (Nat.ne_of_gt hn)
    obtain rfl : a = 0 := hChain
    exact ⟨([], .none), by rw [walk, if_pos rfl], nofun, .inl ⟨rfl, rfl⟩⟩
  | cons x post ih =>
    obtain ⟨n, rfl⟩ := Nat.exists_eq_succ_of_ne_zero (Nat.ne_of_gt (Nat.zero_lt_of_lt hn))
    obtain ⟨rfl, c, hNext, hRest⟩ := hChain
    obtain ⟨hdr, hb, hIsFree⟩ := (h.free_iff x).mp (hFree x List.mem_cons_self)
    have hPos : 0 < x := (h.bounds hb).1
    have hRead : d.readAt x = some hdr := h.stored _ hb
    have hTest : hdr.test = true := (h.sound _ hb).test
    rw [nextFptr, hRead] at hNext
    obtain rfl : hdr.blockNdFptr = c := Option.some.inj hNext
    have hLink : d.nextFptr x = some hdr.blockNdFptr := by rw [nextFptr, hRead, Option.map_some]
    have hSelf : x ≠ hdr.blockNdFptr := ne_nextFptr hLink hRest hNodup hPos
    rw [walk, if_neg hPos.ne', hLocate position x hPos, hRead]
    cases hAccept : accept x hdr with
    | true =>
      refine ⟨([], .found x hdr), ?_, nofun, .inr ⟨x, hdr, post, rfl, rfl, hb, hAccept⟩⟩
      simp [hTest, hIsFree, hSelf, hAccept]
    | false =>
      obtain ⟨r, hWalk, hPassed, hEnd⟩ := @ih hdr.blockNdFptr n
        (x + sizeOfBlockHeader) (Nat.lt_of_succ_lt_succ hn) hRest (List.nodup_cons.mp hNodup).2
        fun y hy => hFree y (List.mem_cons_of_mem x hy)
      refine ⟨((x, hdr) :: r.1, r.2), ?_, ?_, ?_⟩
      · simp [hTest, hIsFree, hSelf, hAccept, hWalk]
      · rintro b (_ | ⟨_, hPass⟩)
        · exact ⟨hb, hAccept⟩
        · exact hPassed b hPass
      · rcases hEnd with ⟨hNone, hAll⟩ | ⟨y, hdr', post', hFound, rfl, hb', hAccept'⟩
        · exact .inl ⟨hNone, congrArg (x :: ·) hAll⟩
        · exact .inr ⟨y, hdr', post', hFound, rfl, hb', hAccept'⟩

theorem walk_eq (h : d.Holds blocks free) {locate : Int → Int → Int}
    (accept : Int → BlockHeader → Bool) (hLocate : ∀ position a, 0 < a → locate position a = a)
    {n : Nat} (hn : d.fileSize.toNat < n) (position : Int) :
    ∃ r, d.walk locate accept n d.fileHeader.gxdFsFptr position = some r ∧
      (∀ b ∈ r.1, b ∈ blocks ∧ accept b.1 b.2 = false) ∧
      ((r.2 = .none ∧ r.1.map Prod.fst = free) ∨
        ∃ a hdr post, r.2 = .found a hdr ∧ free = r.1.map Prod.fst ++ a :: post ∧
          (a, hdr) ∈ blocks ∧ accept a hdr = true) := by
  have hLength := h.free_length_le
  exact h.walk_from hLocate (by omega) h.chain h.nodup fun x hx => hx

theorem of_same (h : d.Holds blocks free) (hFile : d'.file = d.file)
    (hSize : d'.fileSize = d.fileSize) (hRev : d'.rev = d.rev)
    (hFsFptr : d'.fileHeader.gxdFsFptr = d.fileHeader.gxdFsFptr)
    (hEof : d'.fileHeader.gxdEof = d.fileHeader.gxdEof)
    (hStart : d'.fileHeader.gxdHsFptr = d.fileHeader.gxdHsFptr) : d'.Holds blocks free := by
  have hRead : d'.readAt = d.readAt := by
    funext a
    rw [readAt, readAt, hFile, hSize]
  have hNext : d'.nextFptr = d.nextFptr := by
    funext a
    rw [nextFptr, nextFptr, hRead]
  obtain ⟨hS, hT, hF, hL, hSt, hSo, hC, hN, hI⟩ := h
  refine ⟨?_, ?_, ?_, ?_, ?_, ?_, ?_, hN, hI⟩
  · rwa [hRev, hStart]
  · rwa [hStart, hEof]
  · rwa [hSize, hEof]
  · rwa [hEof]
  · rwa [hRead]
  · rwa [overhead, hRev]
  · rwa [hNext, hFsFptr]

/-! ## Changes -/

theorem file_of_touches (h : d.Holds blocks free) {places : List (Int × Nat)}
    (hTouches : Touches places d d') (hb : b ∈ blocks)
    (hInside : ∀ p ∈ places, ∃ c ∈ blocks, c.1 ≠ b.1 ∧ c.1 ≤ p.1 ∧
      p.1 + p.2 ≤ c.1 + c.2.blockLength) (hLow : b.1 ≤ x) (hHigh : x < b.1 + b.2.blockLength) :
    d'.file x = d.file x := by
  have hBounds := h.bounds hb
  refine hTouches.file x (by omega) fun p hp => ?_
  obtain ⟨c, hc, hne, hFrom, hTo⟩ := hInside p hp
  have hApart := h.tiles.apart_of_ne hc hb hne
  omega

theorem readAt_of_touches (h : d.Holds blocks free) {places : List (Int × Nat)}
    (hTouches : Touches places d d') (hb : b ∈ blocks)
    (hInside : ∀ p ∈ places, ∃ c ∈ blocks, c.1 ≠ b.1 ∧ c.1 ≤ p.1 ∧
      p.1 + p.2 ≤ c.1 + c.2.blockLength) : d'.readAt b.1 = some b.2 := by
  have hHeader := (h.header_le hb).1
  rw [← h.stored b hb]
  exact readAt_congr hTouches.fileSize fun x hx hx' =>
    h.file_of_touches hTouches hb hInside hx (by omega)

theorem of_touches (h : d.Holds blocks free) {places : List (Int × Nat)}
    (hTouches : Touches places d d') (hHeader : d'.fileHeader = d.fileHeader)
    (hApart : ∀ b ∈ blocks, ∀ p ∈ places, b.1 + sizeOfBlockHeader ≤ p.1 ∨ p.1 + p.2 ≤ b.1) :
    d'.Holds blocks free := by
  have hRead (b) (hb : b ∈ blocks) : d'.readAt b.1 = d.readAt b.1 :=
    hTouches.readAt (h.bounds hb).2.1 (hApart b hb)
  refine {
    start := ?_
    tiles := ?_
    fileSize := ?_
    limit := ?_
    stored := fun b hb => (hRead b hb).trans (h.stored b hb)
    sound := ?_
    chain := ?_
    nodup := h.nodup
    free_iff := h.free_iff }
  · rw [hTouches.rev, hHeader]
    exact h.start
  · rw [hHeader]
    exact h.tiles
  · rw [hTouches.fileSize, hHeader]
    exact h.fileSize
  · rw [hHeader]
    exact h.limit
  · rw [overhead, hTouches.rev]
    exact h.sound
  · rw [hHeader]
    refine h.chain.congr fun x hx => ?_
    obtain ⟨hdr, hb, -⟩ := (h.free_iff x).mp hx
    rw [nextFptr, nextFptr, hRead _ hb]

end Holds

end Database

end DataReel
