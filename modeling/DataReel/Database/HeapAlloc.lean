import DataReel.Database.HeapChange
import Mathlib.Data.List.Nodup

/-! # What the calls do to the heap

An allocation adds a block at the end of the file or reuses a free one, a
deletion puts a block on the list, and `UnDelete` takes it off again.
-/

namespace DataReel.Database

def countStatus (status : Nat) (blocks : List (Int × BlockHeader)) : Nat :=
  blocks.countP fun b => b.2.blockStatus = status

/-- The statistics are those of the blocks. -/
structure Counts (s : FileStatsHeader) (blocks : List (Int × BlockHeader)) : Prop where
  numBlocks : s.numBlocks = blocks.length
  deletedBlocks : s.deletedBlocks = countStatus gxDeletedBlock blocks
  removedBlocks : s.removedBlocks = countStatus gxRemovedBlock blocks

/-- A call has changed the block at one address, or added it, and no other block that is in use. -/
structure Changes (d d' : Database) (a : Int) (blocks blocks' : List (Int × BlockHeader))
    (free' : List Int) : Prop where
  holds : d'.Holds blocks' free'
  rev : d'.rev = d.rev
  counts : Counts d.fileStats blocks → Counts d'.fileStats blocks'
  starts : ∀ b ∈ blocks, ∃ hdr, (b.1, hdr) ∈ blocks'
  inUse : ∀ b ∈ blocks, b.2.isFree = false → b.1 ≠ a → b ∈ blocks'
  before : ∀ b ∈ blocks', b.2.isFree = false → b.1 ≠ a → b ∈ blocks
  kept : ∀ b ∈ blocks, b.2.isFree = false → b.1 ≠ a → ∀ x, b.1 ≤ x → x < b.1 + b.2.blockLength →
    d'.file x = d.file x
  start : d'.fileHeader.gxdHsFptr = d.fileHeader.gxdHsFptr
  sig : d'.fileHeader.gxdSig = d.fileHeader.gxdSig
  written : (∀ w ∈ d'.fileHeader.words, w < 2 ^ 64) →
    d'.diskHeader = FileHeader.ofWords d'.fileHeader.words ∨
      (d'.diskHeader = d.diskHeader ∧ d'.fileHeader = d.fileHeader)

variable {d d' : Database} {blocks l l' mid : List (Int × BlockHeader)} {free pre post : List Int}
  {a address x : Int} {hdr : BlockHeader} {b : Int × BlockHeader} {prev : Option (Int × BlockHeader)}
  {bytes status : Nat} {s s' : FileStatsHeader}

theorem diskHeader_mark (hWords : ∀ w ∈ (d.mark bytes a).fileHeader.words, w < 2 ^ 64) :
    (d.mark bytes a).diskHeader = FileHeader.ofWords (d.mark bytes a).fileHeader.words := by
  rw [mark, writeFileHdr_fileHeader] at hWords ⊢
  exact diskHeader_writeFileHdr hWords

/-! ## Statistics -/

theorem countStatus_relinked :
    countStatus status (l.map (relinked prev address)) = countStatus status l := by
  rw [countStatus, List.countP_map, countStatus]
  refine List.countP_congr fun b _ => ?_
  rw [Function.comp_apply, Holds.relinked_status]

theorem countStatus_append :
    countStatus status (l ++ l') = countStatus status l + countStatus status l' :=
  List.countP_append

theorem countStatus_cons :
    countStatus status (b :: l) = countStatus status l + if b.2.blockStatus = status then 1 else 0 := by
  rw [countStatus, List.countP_cons, countStatus]
  simp only [decide_eq_true_eq]

theorem countStatus_normal (hStatus : gxNormalBlock ≠ status) :
    countStatus status ((a, .normal bytes) :: l) = countStatus status l := by
  rw [countStatus_cons, if_neg, Nat.add_zero]
  exact hStatus

theorem Counts.replace (h : Counts s (l ++ (a, hdr) :: l'))
    (hNum : s'.numBlocks + 1 = s.numBlocks + mid.length)
    (hDeleted : s'.deletedBlocks + countStatus gxDeletedBlock [(a, hdr)] =
      s.deletedBlocks + countStatus gxDeletedBlock mid)
    (hRemoved : s'.removedBlocks + countStatus gxRemovedBlock [(a, hdr)] =
      s.removedBlocks + countStatus gxRemovedBlock mid) :
    Counts s' (l.map (relinked prev address) ++ (mid ++ l'.map (relinked prev address))) := by
  obtain ⟨hNum', hDeleted', hRemoved'⟩ := h
  have hCons (status : Nat) : countStatus status ((a, hdr) :: l') =
      countStatus status [(a, hdr)] + countStatus status l' := by
    rw [← countStatus_append]
    rfl
  rw [countStatus_append, hCons] at hDeleted' hRemoved'
  rw [List.length_append, List.length_cons] at hNum'
  refine ⟨?_, ?_, ?_⟩
  · simp only [List.length_append, List.length_map]
    omega
  · rw [countStatus_append, countStatus_append, countStatus_relinked, countStatus_relinked]
    omega
  · rw [countStatus_append, countStatus_append, countStatus_relinked, countStatus_relinked]
    omega

theorem Counts.pos (h : Counts s (l ++ (a, hdr) :: l')) :
    (hdr.blockStatus = gxDeletedBlock → 0 < s.deletedBlocks) ∧
      (hdr.blockStatus = gxRemovedBlock → 0 < s.removedBlocks) := by
  obtain ⟨-, hDeleted, hRemoved⟩ := h
  rw [countStatus_append, countStatus_cons] at hDeleted hRemoved
  constructor
  · intro hStatus
    rw [if_pos hStatus] at hDeleted
    omega
  · intro hStatus
    rw [if_pos hStatus] at hRemoved
    omega

theorem uncount_numBlocks (d : Database) (status : Nat) :
    (d.uncount status).fileStats.numBlocks = d.fileStats.numBlocks := by
  simp only [uncount]
  split
  · split <;> rfl
  · split
    · split <;> rfl
    · rfl

theorem uncount_fileStats (h : Counts d.fileStats (l ++ (a, hdr) :: l')) :
    (d.uncount hdr.blockStatus).fileStats = {
      numBlocks := d.fileStats.numBlocks
      deletedBlocks := d.fileStats.deletedBlocks - countStatus gxDeletedBlock [(a, hdr)]
      removedBlocks := d.fileStats.removedBlocks - countStatus gxRemovedBlock [(a, hdr)] } := by
  obtain ⟨hDeleted, hRemoved⟩ := h.pos
  have hNe : gxDeletedBlock ≠ gxRemovedBlock := by decide
  rw [countStatus_cons, countStatus_cons]
  simp only [uncount]
  split
  · rename_i hStatus
    rw [if_pos (hDeleted hStatus), if_neg (by rw [hStatus]; exact hNe)]
    simp [countStatus]
  · split
    · rename_i hStatus
      rw [if_pos (hRemoved hStatus)]
      simp [countStatus]
    · simp [countStatus]

theorem starts_inUse (hdr : BlockHeader) (mid : List (Int × BlockHeader)) (hMid : ∃ hdr', (a, hdr') ∈ mid)
    (hRelinked : ∀ b ∈ l ++ l', b.2.isFree = false → relinked prev address b = b) :
    (∀ b ∈ l ++ (a, hdr) :: l', ∃ hdr', (b.1, hdr') ∈
        l.map (relinked prev address) ++ (mid ++ l'.map (relinked prev address))) ∧
      ∀ b ∈ l ++ (a, hdr) :: l', b.2.isFree = false → b.1 ≠ a →
        b ∈ l.map (relinked prev address) ++ (mid ++ l'.map (relinked prev address)) := by
  have hKeep (b) (hb : b ∈ l ++ l') : relinked prev address b ∈
      l.map (relinked prev address) ++ (mid ++ l'.map (relinked prev address)) := by
    rw [← List.append_assoc, List.mem_append, List.mem_append]
    cases List.mem_append.mp hb with
    | inl hb => exact .inl (.inl (List.mem_map_of_mem hb))
    | inr hb => exact .inr (List.mem_map_of_mem hb)
  constructor
  · intro b hb
    by_cases hAddr : b.1 = a
    · obtain ⟨hdr', hMid⟩ := hMid
      exact ⟨hdr', hAddr ▸ List.mem_append_right _ (List.mem_append_left _ hMid)⟩
    · exact ⟨_, hKeep b (mem_others_of_ne hb hAddr)⟩
  · intro b hb hUse hne
    have hb' := mem_others_of_ne hb hne
    have hMem := hKeep b hb'
    rwa [hRelinked b hb' hUse] at hMem

theorem inUse_before (hdr : BlockHeader) (mid : List (Int × BlockHeader))
    (hMid : ∀ b ∈ mid, b.2.isFree = false → b.1 = a)
    (hRelinked : ∀ b ∈ l ++ l', b.2.isFree = false → relinked prev address b = b) :
    ∀ b ∈ l.map (relinked prev address) ++ (mid ++ l'.map (relinked prev address)),
      b.2.isFree = false → b.1 ≠ a → b ∈ l ++ (a, hdr) :: l' := by
  have hOther (c) (hc : c ∈ l ++ l') (hUse : (relinked prev address c).2.isFree = false) :
      relinked prev address c ∈ l ++ (a, hdr) :: l' := by
    rw [Holds.relinked_isFree] at hUse
    rw [hRelinked c hc hUse]
    exact mem_others hc
  intro b hb hUse hne
  rw [List.mem_append, List.mem_append, List.mem_map, List.mem_map] at hb
  rcases hb with ⟨c, hc, rfl⟩ | hb | ⟨c, hc, rfl⟩
  · exact hOther c (List.mem_append_left _ hc) hUse
  · exact absurd (hMid b hb hUse) hne
  · exact hOther c (List.mem_append_right _ hc) hUse

/-! ## Reusing a block -/

namespace Located

variable (h : d.Located l l' pre post a hdr prev)

include h

theorem prev_isFree (p : Int × BlockHeader) (hp : prev = some p) : p.2.isFree = true := by
  have hLast : pre.getLast? = some p.1 := by rw [← h.prev_eq, hp, Option.map_some]
  rw [← h.holds.mem_free_iff (mem_others (h.prev_mem p hp))]
  exact List.mem_append_left _ (List.mem_of_getLast? hLast)

theorem isFree : hdr.isFree = true := by
  rw [← h.holds.mem_free_iff List.mem_append_cons_self]
  exact List.mem_append_cons_self

theorem relinked_inUse (address : Int) (b : Int × BlockHeader) (hb : b ∈ l ++ l')
    (hUse : b.2.isFree = false) : relinked prev address b = b := by
  rw [relinked, if_neg]
  intro hSame
  obtain ⟨p, hp, hAddr⟩ := Option.map_eq_some_iff.mp hSame
  have hEq := h.holds.tiles.unique (fun c => h.holds.blockLength_pos) (h.prev_mem_blocks p hp)
    (mem_others hb) hAddr
  rw [← hEq, h.prev_isFree p hp] at hUse
  cases hUse

theorem kept {places : List (Int × Nat)} (hTouches : Touches places d d')
    (hInside : ∀ p ∈ places, (∃ q, prev = some q ∧ p = (q.1, sizeOfBlockHeader)) ∨
      (a ≤ p.1 ∧ p.1 + p.2 ≤ a + hdr.blockLength))
    (hb : b ∈ l ++ (a, hdr) :: l') (hUse : b.2.isFree = false) (hne : b.1 ≠ a) (hLow : b.1 ≤ x)
    (hHigh : x < b.1 + b.2.blockLength) : d'.file x = d.file x := by
  refine h.holds.file_of_touches hTouches hb (fun p hp => ?_) hLow hHigh
  rcases hInside p hp with ⟨q, hq, rfl⟩ | hSelf
  · have hHeader := (h.holds.header_le (h.prev_mem_blocks q hq)).1
    refine ⟨q, h.prev_mem_blocks q hq, fun hSame => ?_, Int.le_refl _, by dsimp only; omega⟩
    have hEq := h.holds.tiles.unique (fun c => h.holds.blockLength_pos) (h.prev_mem_blocks q hq) hb
      hSame
    rw [← hEq, h.prev_isFree q hq] at hUse
    cases hUse
  · exact ⟨(a, hdr), List.mem_append_cons_self, hne.symm, hSelf⟩

theorem of_touches {places : List (Int × Nat)} (hTouches : Touches places d d')
    (hHeader : d'.fileHeader = d.fileHeader)
    (hInside : ∀ p ∈ places, a + sizeOfBlockHeader ≤ p.1 ∧ p.1 + p.2 ≤ a + hdr.blockLength) :
    d'.Located l l' pre post a hdr prev := by
  refine ⟨h.holds.of_touches hTouches hHeader fun b hb p hp => ?_, h.prev_eq, h.prev_mem⟩
  obtain ⟨hFrom, hTo⟩ := hInside p hp
  by_cases hSame : b.1 = a
  · exact .inl (hSame ▸ hFrom)
  · have hApart := h.holds.tiles.apart_of_ne List.mem_append_cons_self hb (Ne.symm hSame)
    have hHeader := (h.holds.header_le hb).1
    dsimp only at hApart
    omega

theorem changes_reuse (mid : List (Int × BlockHeader)) {d₁ : Database} {places : List (Int × Nat)}
    (hTouches : Touches places d d₁)
    (hHeader : d₁.fileHeader = d.fileHeader)
    (hInside : ∀ p ∈ places, a + bytes ≤ p.1 ∧ p.1 + p.2 ≤ a + hdr.blockLength)
    (hOverhead : d.overhead ≤ bytes) (hBytes : bytes ≤ hdr.blockLength) (hLow : 0 ≤ address)
    (hHigh : address < 2 ^ 63)
    (hTiles : Tiles BlockHeader.blockLength (a + bytes) mid (a + hdr.blockLength))
    (hMid : ∀ b ∈ mid, d₁.readAt b.1 = some b.2 ∧ b.2.Sound d.overhead ∧ b.2.isFree = true)
    (hChain : Segment d₁.nextFptr address (mid.map Prod.fst) hdr.blockNdFptr)
    (hNodup : (pre ++ (mid.map Prod.fst ++ post)).Nodup)
    (hNum : d₁.fileStats.numBlocks = d.fileStats.numBlocks + mid.length)
    (hDeleted : Counts d.fileStats (l ++ (a, hdr) :: l') →
      d₁.fileStats.deletedBlocks + countStatus gxDeletedBlock [(a, hdr)] =
        d.fileStats.deletedBlocks + countStatus gxDeletedBlock mid)
    (hRemoved : Counts d.fileStats (l ++ (a, hdr) :: l') →
      d₁.fileStats.removedBlocks + countStatus gxRemovedBlock [(a, hdr)] =
        d.fileStats.removedBlocks + countStatus gxRemovedBlock mid) :
    Changes d ((d₁.relink prev address).mark bytes a) a (l ++ (a, hdr) :: l')
      (l.map (relinked prev address) ++
        ((a, .normal bytes) :: mid ++ l'.map (relinked prev address)))
      (pre ++ (mid.map Prod.fst ++ post)) := by
  have hLe := d.rev.sizeOfBlockHeader_le
  have hHeaderSize : d.rev.blockHeaderSize ≤ d.overhead := Nat.le_add_right _ _
  have h₁ := h.of_touches hTouches hHeader fun p hp => by
    have hPlace := hInside p hp
    omega
  have hSame : d₁.overhead = d.overhead := by rw [overhead, hTouches.rev, overhead]
  rw [← hSame] at hMid hOverhead
  obtain ⟨hStarts, hInUse⟩ := starts_inUse hdr ((a, .normal bytes) :: mid)
    ⟨_, List.mem_cons_self⟩ (h.relinked_inUse address)
  refine {
    holds := h₁.reuse hOverhead hBytes hLow hHigh hTiles hMid hChain hNodup
    rev := by simp [hTouches.rev]
    counts := fun hCounts => ?_
    starts := hStarts
    inUse := hInUse
    before := inUse_before hdr _ (fun b hb hUse => ?_) (h.relinked_inUse address)
    kept := fun b hb hUse hne x => h.kept (hTouches.trans h₁.touches_reuse) ?_ hb hUse hne
    start := by simp [hHeader]
    sig := by simp [hHeader]
    written := fun hWords => .inl (diskHeader_mark hWords) }
  · rw [mark_fileStats, relink_fileStats]
    refine hCounts.replace ?_ ?_ ?_
    · rw [hNum, List.length_cons]
      omega
    · rw [countStatus_normal (by decide)]
      exact hDeleted hCounts
    · rw [countStatus_normal (by decide)]
      exact hRemoved hCounts
  · cases List.mem_cons.mp hb with
    | inl hSelf => rw [hSelf]
    | inr hRest =>
      rw [(hMid b hRest).2.2] at hUse
      cases hUse
  · intro p hp
    rw [List.mem_append, List.mem_append, List.mem_map, List.mem_singleton] at hp
    rcases hp with hp | ⟨q, hq, rfl⟩ | rfl
    · have hPlace := hInside p hp
      exact .inr (by omega)
    · exact .inl ⟨q, Option.mem_toList.mp hq, rfl⟩
    · rw [hTouches.rev]
      exact .inr ⟨Int.le_refl _, by dsimp only; omega⟩

theorem changes_exact (hBytes : hdr.blockLength = bytes) :
    Changes d ((d.reclaimExact hdr prev).mark bytes a) a (l ++ (a, hdr) :: l')
      (l.map (relinked prev hdr.blockNdFptr) ++
        ((a, .normal bytes) :: [] ++ l'.map (relinked prev hdr.blockNdFptr)))
      (pre ++ ([] ++ post)) := by
  have hSound := h.holds.sound _ List.mem_append_cons_self
  rw [reclaimExact, hSound.status_eq]
  subst hBytes
  refine h.changes_reuse [] (Touches.uncount d _) (uncount_fileHeader d _) nofun
    hSound.overhead (Nat.le_refl _) hSound.next.1 hSound.next.2 rfl nofun rfl ?_ ?_ ?_ ?_
  · exact h.holds.nodup.sublist (List.Sublist.append_left (List.sublist_cons_self _ _) _)
  · rw [uncount_numBlocks]
    simp
  · intro hCounts
    rw [uncount_fileStats hCounts]
    simp [countStatus]
  · intro hCounts
    rw [uncount_fileStats hCounts]
    simp [countStatus]

theorem rest_sound (hRest : bytes + d.overhead < hdr.blockLength) :
    BlockHeader.Sound d.overhead
      ⟨gxCheckWord, hdr.blockLength - bytes, gxRemovedBlock, hdr.blockNdFptr⟩ := by
  refine ⟨rfl, ?_, .inr (.inr rfl), (h.holds.sound _ List.mem_append_cons_self).next⟩
  dsimp only
  omega

theorem changes_split (hOverhead : d.overhead ≤ bytes)
    (hRest : bytes + d.overhead < hdr.blockLength) :
    Changes d ((d.reclaimSplit bytes a hdr (hdr.blockLength - bytes) hdr.status prev).mark bytes a) a
      (l ++ (a, hdr) :: l')
      (l.map (relinked prev (a + bytes)) ++ ((a, .normal bytes) ::
        [(a + bytes, ⟨gxCheckWord, hdr.blockLength - bytes, gxRemovedBlock, hdr.blockNdFptr⟩)] ++
          l'.map (relinked prev (a + bytes))))
      (pre ++ ([a + bytes] ++ post)) := by
  have hSelf : (a, hdr) ∈ l ++ (a, hdr) :: l' := List.mem_append_cons_self
  have hSound := h.holds.sound _ hSelf
  have hBounds := h.holds.bounds hSelf
  have hLimit := h.holds.limit
  have hLe := d.rev.sizeOfBlockHeader_le
  have hHeaderSize : d.rev.blockHeaderSize ≤ d.overhead := Nat.le_add_right _ _
  have hPos := Holds.overhead_pos d
  have hRestSound := h.rest_sound hRest
  have hFits := hRestSound.fits (by
    have := (h.holds.fits hSelf).length
    dsimp only at this ⊢
    omega)
  have hCount : Touches [] d (d.uncount hdr.blockStatus).countRest :=
    (Touches.uncount d hdr.blockStatus).trans (Touches.of_file_eq rfl rfl rfl)
  rw [h.holds.fileSize] at hBounds
  dsimp only at hBounds
  rw [reclaimSplit, hSound.status_eq]
  refine h.changes_reuse
    [(a + bytes, ⟨gxCheckWord, hdr.blockLength - bytes, gxRemovedBlock, hdr.blockNdFptr⟩)]
    (hCount.trans (Touches.writeBlockHdr _ ?_)) (uncount_fileHeader d _) ?_ hOverhead (by omega)
    (by omega) (by omega) ⟨rfl, ?_⟩ ?_ ?_ ?_ ?_ ?_ ?_
  · rw [hCount.fileSize, h.holds.fileSize]
    omega
  · intro p hp
    obtain rfl := List.mem_singleton.mp hp
    dsimp only
    omega
  · change a + (bytes : Int) + (hdr.blockLength - bytes : Nat) = a + hdr.blockLength
    omega
  · intro b hb
    obtain rfl := List.mem_singleton.mp hb
    exact ⟨readAt_writeBlockHdr hFits (by omega), hRestSound, rfl⟩
  · refine Segment.singleton ?_
    rw [nextFptr, readAt_writeBlockHdr hFits (by omega)]
    rfl
  · have hNot : a + bytes ∉ pre ++ a :: post := h.not_mem_of_inside (by omega) (by omega)
    have hNodup := (List.nodup_cons.mp (List.nodup_middle.mp h.holds.nodup)).2
    refine List.nodup_middle.mpr (List.nodup_cons.mpr ⟨fun hx => hNot ?_, hNodup⟩)
    exact mem_others hx
  · simp only [writeBlockHdr_fileStats, countRest, uncount_numBlocks]
    rfl
  · intro hCounts
    rw [writeBlockHdr_fileStats, countRest, uncount_fileStats hCounts]
    simp [countStatus, gxRemovedBlock, gxDeletedBlock]
  · intro hCounts
    rw [writeBlockHdr_fileStats, countRest, uncount_fileStats hCounts]
    simp [countStatus]
    omega

end Located

/-! ## Adding a block -/

theorem Holds.extend_file_eq (h : d.Holds blocks free) (hOverhead : d.overhead ≤ bytes)
    (hx : (d.rev.fileHeaderSize : Int) ≤ x) (hx' : x < d.fileHeader.gxdEof) :
    ((d.extend bytes).mark bytes d.fileHeader.gxdEof).file x = d.file x := by
  have hHeaderSize : d.rev.blockHeaderSize ≤ d.overhead := Nat.le_add_right _ _
  have hSize : (d.extend bytes).fileSize = d.fileHeader.gxdEof + bytes := by
    rw [extend_fileSize, h.fileSize]
    omega
  have hMark := Touches.mark (d := d.extend bytes) d.fileHeader.gxdEof bytes
    (by rw [hSize, extend_rev]; omega) (by rw [hSize, extend_rev]; omega)
  rw [hMark.file x (by rwa [extend_rev]), extend_file d bytes hx']
  intro p hp
  obtain rfl := List.mem_singleton.mp hp
  exact .inl hx'

theorem Holds.changes_extend (h : d.Holds blocks free) (hOverhead : d.overhead ≤ bytes)
    (hFit : d.fileHeader.gxdEof + bytes < 2 ^ 63) :
    Changes d ((d.extend bytes).mark bytes d.fileHeader.gxdEof) d.fileHeader.gxdEof blocks
      (blocks ++ [(d.fileHeader.gxdEof, .normal bytes)]) free := by
  have hHeaderSize : d.rev.blockHeaderSize ≤ d.overhead := Nat.le_add_right _ _
  have hStart := h.start
  have hTiles := h.tiles.le
  have hSize : (d.extend bytes).fileSize = d.fileHeader.gxdEof + bytes := by
    rw [extend_fileSize, h.fileSize]
    omega
  have hMark := Touches.mark (d := d.extend bytes) d.fileHeader.gxdEof bytes
    (by rw [hSize, extend_rev]; omega) (by rw [hSize, extend_rev]; omega)
  have hKept (x : Int) := h.extend_file_eq hOverhead (x := x)
  have hRead (b) (hb : b ∈ blocks) :
      ((d.extend bytes).mark bytes d.fileHeader.gxdEof).readAt b.1 = some b.2 := by
    have hBounds := h.bounds hb
    have hHeader := (h.header_le hb).1
    rw [h.fileSize] at hBounds
    refine readAt_of_file (h.stored b hb) ?_ fun x hx hx' => hKept x (by omega) (by omega)
    rw [hMark.fileSize, hSize, h.fileSize]
    omega
  have hNew : ((d.extend bytes).mark bytes d.fileHeader.gxdEof).readAt d.fileHeader.gxdEof =
      some (.normal bytes) := by
    refine readAt_mark (by omega) ?_ ?_
    · rw [extend_rev]
      omega
    · rw [hSize, extend_rev]
      omega
  have hMem (P : Int × BlockHeader → Prop) (hOld : ∀ b ∈ blocks, P b)
      (hLast : P (d.fileHeader.gxdEof, .normal bytes)) :
      ∀ b ∈ blocks ++ [(d.fileHeader.gxdEof, .normal bytes)], P b := by
    intro b hb
    rcases List.mem_append.mp hb with hb | hb
    · exact hOld b hb
    · rw [List.mem_singleton.mp hb]
      exact hLast
  refine {
    holds := {
      start := by simpa using h.start
      tiles := ?_
      fileSize := by rw [hMark.fileSize, hSize]; simp
      limit := by simpa using hFit
      stored := hMem _ hRead hNew
      sound := ?_
      chain := ?_
      nodup := h.nodup
      free_iff := fun x => ?_ }
    rev := by simp
    counts := fun hCounts => ?_
    starts := fun b hb => ⟨b.2, List.mem_append_left _ hb⟩
    inUse := fun b hb _ _ => List.mem_append_left _ hb
    before := fun b hb _ hne => (List.mem_append.mp hb).resolve_right fun hLast =>
      hne (congrArg Prod.fst (List.mem_singleton.mp hLast))
    kept := fun b hb _ _ x hx hx' => ?_
    start := by simp
    sig := by simp
    written := fun hWords => .inl (diskHeader_mark hWords) }
  · simp only [mark_gxdHsFptr, mark_gxdEof, extend_gxdHsFptr, extend_gxdEof]
    exact tiles_append.mpr ⟨_, h.tiles, rfl, rfl⟩
  · rw [overhead, mark_rev, extend_rev]
    exact hMem _ h.sound (BlockHeader.normal_sound hOverhead)
  · rw [mark_gxdFsFptr, extend_gxdFsFptr]
    refine h.chain.congr fun x hx => ?_
    obtain ⟨hdr, hb, -⟩ := (h.free_iff x).mp hx
    rw [nextFptr, nextFptr, hRead _ hb, h.stored _ hb]
  · rw [h.free_iff]
    refine exists_congr fun hdr => and_congr_left fun hIsFree => ?_
    rw [List.mem_append, List.mem_singleton, or_iff_left]
    rintro ⟨⟩
    rw [BlockHeader.normal_isFree] at hIsFree
    cases hIsFree
  · obtain ⟨hNum, hDeleted, hRemoved⟩ := hCounts
    rw [mark_fileStats]
    refine ⟨?_, ?_, ?_⟩
    · rw [List.length_append, List.length_singleton]
      exact congrArg (· + 1) hNum
    · rw [countStatus_append, countStatus_normal (by decide)]
      exact hDeleted
    · rw [countStatus_append, countStatus_normal (by decide)]
      exact hRemoved
  · have hBounds := h.bounds hb
    rw [h.fileSize] at hBounds
    exact hKept x (by omega) (by omega)

end DataReel.Database
