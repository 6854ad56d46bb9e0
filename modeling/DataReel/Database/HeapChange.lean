import DataReel.Database.Heap

/-! # One block of the heap is replaced

A call that reuses, splits, frees or revives a block changes the header of this
block and the link that leads to it. The other blocks are as before.
-/

namespace DataReel.Database

/-- A block with its link set, if it is the one before. -/
def relinked (prev : Option (Int × BlockHeader)) (address : Int) (b : Int × BlockHeader) :
    Int × BlockHeader :=
  (b.1, if prev.map Prod.fst = some b.1 then { b.2 with blockNdFptr := address } else b.2)

theorem mem_others {β : Type} {b p : β} {l l' : List β} (hb : b ∈ l ++ l') : b ∈ l ++ p :: l' := by
  rw [List.mem_append, List.mem_cons]
  exact (List.mem_append.mp hb).imp_right .inr

theorem mem_others_of_ne {β : Type} {b p : Int × β} {l l' : List (Int × β)} (hb : b ∈ l ++ p :: l')
    (hne : b.1 ≠ p.1) : b ∈ l ++ l' := by
  rw [List.mem_append, List.mem_cons] at hb
  rcases hb with hb | rfl | hb
  · exact List.mem_append_left _ hb
  · exact absurd rfl hne
  · exact List.mem_append_right _ hb

namespace Holds

variable {d d' : Database} {blocks l l' mid : List (Int × BlockHeader)} {free pre post rest : List Int}
  {a address x : Int} {hdr : BlockHeader} {b : Int × BlockHeader} {prev : Option (Int × BlockHeader)}

theorem relinked_length : (relinked prev address b).2.blockLength = b.2.blockLength := by
  rw [relinked]
  dsimp only
  split <;> rfl

theorem relinked_status : (relinked prev address b).2.blockStatus = b.2.blockStatus := by
  rw [relinked]
  dsimp only
  split <;> rfl

theorem relinked_isFree : (relinked prev address b).2.isFree = b.2.isFree := by
  rw [BlockHeader.isFree, BlockHeader.isFree, BlockHeader.status, BlockHeader.status,
    relinked_status]

theorem relinked_sound {overhead : Nat} (h : b.2.Sound overhead) (hLow : 0 ≤ address)
    (hHigh : address < 2 ^ 63) : (relinked prev address b).2.Sound overhead := by
  rw [relinked]
  dsimp only
  split
  · exact ⟨h.check, h.overhead, h.status, hLow, hHigh⟩
  · exact h

theorem relinked_none : relinked none address = id := by
  funext b
  simp [relinked]

theorem touches_relink (h : d.Holds blocks free) (address : Int) (hPrev : ∀ p, prev = some p → p ∈ blocks) :
    Touches (prev.toList.map fun p => (p.1, sizeOfBlockHeader)) d (d.relink prev address) := by
  refine Touches.relink h.fileHeaderSize_le fun p hp => ?_
  have hBounds := h.bounds (hPrev p hp)
  have hHeader := h.header_le (hPrev p hp)
  omega

theorem readAt_relink (h : d.Holds blocks free) (hb : b ∈ blocks)
    (hPrev : ∀ p, prev = some p → p ∈ blocks) (hLow : 0 ≤ address) (hHigh : address < 2 ^ 63) :
    (d.relink prev address).readAt b.1 = some (relinked prev address b).2 := by
  have hTouches := h.touches_relink address hPrev
  cases prev with
  | none =>
    rw [relinked_none]
    exact h.readAt_of_touches hTouches hb (by simp)
  | some p =>
    have hp := hPrev p rfl
    by_cases hSame : p.1 = b.1
    · obtain rfl := h.tiles.unique (fun c => h.blockLength_pos) hp hb hSame
      have hFits : BlockHeader.Fits { p.2 with blockNdFptr := address } :=
        { h.fits hp with next := ⟨by dsimp only; omega, hHigh⟩ }
      have hBounds := h.bounds hp
      have hHeader := h.header_le hp
      have hWrite := Touches.writeBlockHdr (d := d) (a := p.1) { p.2 with blockNdFptr := address }
        (by omega)
      have hStats := Touches.writeFileStatsHdr (d := d.writeBlockHdr
        { p.2 with blockNdFptr := address } p.1) (by rw [hWrite.fileSize]; exact h.fileHeaderSize_le)
      rw [relink, hStats.readAt hBounds.2.1 (by simp), readAt_writeBlockHdr hFits hBounds.1.le]
      simp [relinked]
    · have hOther : relinked (some p) address b = b := by
        rw [relinked, if_neg (by rw [Option.map_some, Option.some.injEq]; exact hSame)]
      rw [hOther]
      refine h.readAt_of_touches hTouches hb fun q hq => ⟨p, hp, hSame, ?_⟩
      obtain rfl := List.mem_singleton.mp hq
      have hHeader := h.header_le hp
      dsimp only
      omega

theorem others_ne (h : d.Holds (l ++ (a, hdr) :: l') free) (hb : b ∈ l ++ l') : b.1 ≠ a := by
  have hApart := h.tiles.apart hb
  have hPos := h.blockLength_pos (mem_others hb)
  have hPos' := h.blockLength_pos List.mem_append_cons_self
  dsimp only at hApart hPos'
  omega

theorem replace (h : d.Holds (l ++ (a, hdr) :: l') free) (hRev : d'.rev = d.rev)
    (hStart : d'.fileHeader.gxdHsFptr = d.fileHeader.gxdHsFptr)
    (hEof : d'.fileHeader.gxdEof = d.fileHeader.gxdEof) (hSize : d'.fileSize = d.fileSize)
    (hTiles : Tiles BlockHeader.blockLength a mid (a + hdr.blockLength))
    (hMid : ∀ b ∈ mid, d'.readAt b.1 = some b.2 ∧ b.2.Sound d.overhead)
    (hLow : 0 ≤ address) (hHigh : address < 2 ^ 63)
    (hOther : ∀ b ∈ l ++ l', d'.readAt b.1 = some (relinked prev address b).2)
    (hChain : Segment d'.nextFptr d'.fileHeader.gxdFsFptr rest 0) (hNodup : rest.Nodup)
    (hFree : ∀ x, x ∈ rest ↔ (x ∈ free ∧ x ≠ a) ∨ ∃ hdr, (x, hdr) ∈ mid ∧ hdr.isFree = true) :
    d'.Holds (l.map (relinked prev address) ++ (mid ++ l'.map (relinked prev address))) rest := by
  have hCases (P : Int × BlockHeader → Prop) (hOld : ∀ b ∈ l ++ l', P (relinked prev address b))
      (hNew : ∀ b ∈ mid, P b) :
      ∀ b ∈ l.map (relinked prev address) ++ (mid ++ l'.map (relinked prev address)), P b := by
    intro b hb
    simp only [List.mem_append, List.mem_map] at hb
    rcases hb with ⟨c, hc, rfl⟩ | hb | ⟨c, hc, rfl⟩
    · exact hOld c (List.mem_append_left _ hc)
    · exact hNew b hb
    · exact hOld c (List.mem_append_right _ hc)
  refine {
    start := ?_
    tiles := ?_
    fileSize := ?_
    limit := ?_
    stored := ?_
    sound := ?_
    chain := hChain
    nodup := hNodup
    free_iff := ?_ }
  · rw [hRev, hStart]
    exact h.start
  · rw [hStart, hEof]
    refine tiles_append.mpr ⟨a, h.tiles.before.map ?_, tiles_append.mpr ⟨_, hTiles, h.tiles.after.map ?_⟩⟩
    · exact fun b _ => ⟨rfl, relinked_length⟩
    · exact fun b _ => ⟨rfl, relinked_length⟩
  · rw [hSize, hEof]
    exact h.fileSize
  · rw [hEof]
    exact h.limit
  · exact hCases _ hOther fun b hb => (hMid b hb).1
  · refine hCases _ (fun b hb => ?_) fun b hb => ?_
    · rw [overhead, hRev]
      exact relinked_sound (h.sound b (mem_others hb)) hLow hHigh
    · rw [overhead, hRev]
      exact (hMid b hb).2
  · intro x
    rw [hFree]
    constructor
    · rintro (⟨hOld, hne⟩ | ⟨hdr', hNew, hIsFree⟩)
      · obtain ⟨hdr', hb, hIsFree⟩ := (h.free_iff x).mp hOld
        have hb' : (x, hdr') ∈ l ++ l' := mem_others_of_ne hb hne
        refine ⟨(relinked prev address (x, hdr')).2, ?_, relinked_isFree.trans hIsFree⟩
        rw [← List.append_assoc, List.mem_append, List.mem_append]
        cases List.mem_append.mp hb' with
        | inl hb' => exact .inl (.inl (List.mem_map_of_mem hb'))
        | inr hb' => exact .inr (List.mem_map_of_mem hb')
      · refine ⟨hdr', ?_, hIsFree⟩
        exact List.mem_append_right _ (List.mem_append_left _ hNew)
    · rintro ⟨hdr', hb, hIsFree⟩
      refine hCases (fun b => b = (x, hdr') → _) (fun b hb hEq => .inl ?_)
        (fun b hb hEq => .inr ⟨hdr', hEq ▸ hb, hIsFree⟩) _ hb rfl
      have hAddr : b.1 = x := congrArg Prod.fst hEq
      have hFreeBlock : b.2.isFree = true := by
        rw [← relinked_isFree, hEq]
        exact hIsFree
      refine ⟨(h.free_iff x).mpr ⟨b.2, ?_, hFreeBlock⟩, ?_⟩
      · rw [← hAddr]
        exact mem_others hb
      · rw [← hAddr]
        exact h.others_ne hb

/-! ## The list -/

theorem nextFptr_relinked (h : d.Holds (l ++ (a, hdr) :: l') free)
    (hOther : ∀ b ∈ l ++ l', d'.readAt b.1 = some (relinked prev address b).2) (hx : x ∈ free)
    (hne : x ≠ a) :
    d'.nextFptr x = if prev.map Prod.fst = some x then some address else d.nextFptr x := by
  obtain ⟨hdr', hb, -⟩ := (h.free_iff x).mp hx
  have hb' : (x, hdr') ∈ l ++ l' := mem_others_of_ne hb hne
  rw [nextFptr, nextFptr, hOther _ hb', h.stored _ hb, relinked]
  dsimp only
  split <;> rfl

theorem chain_relink (h : d.Holds (l ++ (a, hdr) :: l') (pre ++ a :: post))
    (hOther : ∀ b ∈ l ++ l', d'.readAt b.1 = some (relinked prev address b).2)
    (hPrev : prev.map Prod.fst = pre.getLast?)
    (hRest : Segment d'.nextFptr hdr.blockNdFptr post 0 → Segment d'.nextFptr address rest 0) :
    Segment d'.nextFptr (Segment.head d.fileHeader.gxdFsFptr address pre) (pre ++ rest) 0 := by
  obtain ⟨hPre, y, hNext, hPost⟩ := Segment.split h.chain
  have hRead : d.readAt a = some hdr := h.stored (a, hdr) (by simp)
  rw [nextFptr, hRead] at hNext
  obtain rfl : hdr.blockNdFptr = y := Option.some.inj hNext
  obtain ⟨hNodupPre, hNodupPost, hApart⟩ := List.nodup_append.mp h.nodup
  have hKeep (x : Int) (hx : x ∈ pre ++ a :: post) (hne : x ≠ a) (hLast : pre.getLast? ≠ some x) :
      d'.nextFptr x = d.nextFptr x := by
    rw [h.nextFptr_relinked hOther hx hne, if_neg (by rwa [hPrev])]
  have hNe (x : Int) (hx : x ∈ pre) : x ≠ a := hApart x hx a List.mem_cons_self
  refine Segment.relink hPre (hRest (hPost.congr fun x hx => ?_)) ?_ ?_ hNodupPre
  · refine hKeep x (by simp [hx]) ?_ fun hLast => ?_
    · rintro rfl
      exact (List.nodup_cons.mp hNodupPost).1 hx
    · exact hApart x (List.mem_of_getLast? hLast) x (List.mem_cons_of_mem a hx) rfl
  · exact fun x hx hLast => hKeep x (List.mem_append_left _ hx) (hNe x hx) hLast
  · intro x hLast
    have hx := List.mem_of_getLast? hLast
    rw [h.nextFptr_relinked hOther (List.mem_append_left _ hx) (hNe x hx), hPrev, if_pos hLast]

theorem relink_head (hPrev : prev.map Prod.fst = pre.getLast?) :
    (d.relink prev address).fileHeader.gxdFsFptr =
      Segment.head d.fileHeader.gxdFsFptr address pre := by
  rw [relink_gxdFsFptr]
  cases pre with
  | nil =>
    obtain rfl : prev = none := by simpa using hPrev
    rfl
  | cons x pre =>
    cases prev with
    | none =>
      rw [List.getLast?_cons] at hPrev
      cases hPrev
    | some p => rfl

end Holds

/-! ## Reuse -/

/-- A free block that a walk has found, with the block before it on the list. -/
structure Located (d : Database) (l l' : List (Int × BlockHeader)) (pre post : List Int) (a : Int)
    (hdr : BlockHeader) (prev : Option (Int × BlockHeader)) : Prop where
  holds : d.Holds (l ++ (a, hdr) :: l') (pre ++ a :: post)
  prev_eq : prev.map Prod.fst = pre.getLast?
  prev_mem : ∀ p, prev = some p → p ∈ l ++ l'

namespace Located

variable {d d' : Database} {l l' mid : List (Int × BlockHeader)} {pre post : List Int}
  {a address x : Int} {hdr : BlockHeader} {b : Int × BlockHeader} {prev : Option (Int × BlockHeader)}
  {bytes : Nat} (h : d.Located l l' pre post a hdr prev)

include h

theorem prev_mem_blocks : ∀ p, prev = some p → p ∈ l ++ (a, hdr) :: l' :=
  fun p hp => mem_others (h.prev_mem p hp)

/-- What the relinking and marking of a block writes lies in the block before it and in the header of
its own. -/
theorem touches_reuse : Touches
    ((prev.toList.map fun p => (p.1, sizeOfBlockHeader)) ++ [(a, d.rev.blockHeaderSize)]) d
    ((d.relink prev address).mark bytes a) := by
  have hRelink := h.holds.touches_relink address h.prev_mem_blocks
  have hBounds := h.holds.bounds List.mem_append_cons_self
  have hHeader := h.holds.header_le List.mem_append_cons_self
  refine hRelink.trans ?_
  rw [← hRelink.rev]
  refine Touches.mark a bytes ?_ ?_
  · rw [hRelink.rev, hRelink.fileSize]
    exact h.holds.fileHeaderSize_le
  · rw [hRelink.rev, hRelink.fileSize]
    dsimp only at hBounds hHeader
    omega

theorem readAt_reuse (bytes : Nat) (hLow : 0 ≤ address) (hHigh : address < 2 ^ 63) (hb : b ∈ l ++ l') :
    ((d.relink prev address).mark bytes a).readAt b.1 = some (relinked prev address b).2 := by
  have hRelink := h.holds.touches_relink address h.prev_mem_blocks
  have hBounds := h.holds.bounds List.mem_append_cons_self
  have hHeader := h.holds.header_le List.mem_append_cons_self
  have hBounds' := h.holds.bounds (mem_others hb)
  have hHeader' := h.holds.header_le (mem_others hb)
  have hApart := h.holds.tiles.apart hb
  dsimp only at hBounds hHeader hApart
  rw [← h.holds.readAt_relink (mem_others hb) h.prev_mem_blocks hLow hHigh]
  refine (Touches.mark a bytes ?_ ?_).readAt ?_ ?_
  · rw [hRelink.rev, hRelink.fileSize]
    exact h.holds.fileHeaderSize_le
  · rw [hRelink.rev, hRelink.fileSize]
    omega
  · rw [hRelink.rev]
    exact hBounds'.2.1
  · intro p hp
    obtain rfl := List.mem_singleton.mp hp
    rw [hRelink.rev]
    dsimp only
    omega

theorem readAt_reuse_self (hBytes : bytes ≤ hdr.blockLength) :
    ((d.relink prev address).mark bytes a).readAt a = some (.normal bytes) := by
  have hRelink := h.holds.touches_relink address h.prev_mem_blocks
  have hBounds := h.holds.bounds List.mem_append_cons_self
  have hHeader := h.holds.header_le List.mem_append_cons_self
  have hFits := (h.holds.fits List.mem_append_cons_self).length
  dsimp only at hBounds hHeader hFits
  refine readAt_mark (by omega) ?_ ?_
  · rw [hRelink.rev]
    exact hBounds.2.1
  · rw [hRelink.rev, hRelink.fileSize]
    omega

theorem readAt_reuse_inside (hLow : a + d.rev.blockHeaderSize ≤ x)
    (hHigh : x + sizeOfBlockHeader ≤ a + hdr.blockLength) :
    ((d.relink prev address).mark bytes a).readAt x = d.readAt x := by
  have hBounds := h.holds.bounds List.mem_append_cons_self
  dsimp only at hBounds
  refine h.touches_reuse.readAt (by omega) fun p hp => ?_
  rcases List.mem_append.mp hp with hp | hp
  · obtain ⟨q, hq, rfl⟩ := List.mem_map.mp hp
    have hq' := h.prev_mem q (Option.mem_toList.mp hq)
    have hApart := h.holds.tiles.apart hq'
    have hHeader := h.holds.header_le (mem_others hq')
    dsimp only at hApart ⊢
    omega
  · obtain rfl := List.mem_singleton.mp hp
    exact .inr hLow

theorem not_mem_of_inside (hLow : a < x) (hHigh : x < a + hdr.blockLength) :
    x ∉ pre ++ a :: post := by
  intro hx
  obtain ⟨hdr', hb, -⟩ := (h.holds.free_iff x).mp hx
  have hPos := h.holds.blockLength_pos hb
  have hApart := h.holds.tiles.apart_of_ne hb List.mem_append_cons_self hLow.ne'
  dsimp only at hApart hPos
  omega

theorem self_not_mem : a ∉ pre ∧ a ∉ post := by
  obtain ⟨-, hPost, hApart⟩ := List.nodup_append.mp h.holds.nodup
  refine ⟨fun ha => ?_, (List.nodup_cons.mp hPost).1⟩
  exact hApart a ha a List.mem_cons_self rfl

theorem mem_reused (mid : List (Int × BlockHeader)) (hFree : ∀ b ∈ mid, b.2.isFree = true) :
    x ∈ pre ++ (mid.map Prod.fst ++ post) ↔ (x ∈ pre ++ a :: post ∧ x ≠ a) ∨
      ∃ hdr, (x, hdr) ∈ (a, .normal bytes) :: mid ∧ hdr.isFree = true := by
  obtain ⟨hPre, hPost⟩ := h.self_not_mem
  have hMid : (∃ hdr, (x, hdr) ∈ (a, .normal bytes) :: mid ∧ hdr.isFree = true) ↔
      x ∈ mid.map Prod.fst := by
    constructor
    · rintro ⟨hdr', _ | ⟨_, hb⟩, hIsFree⟩
      · rw [BlockHeader.normal_isFree] at hIsFree
        cases hIsFree
      · exact List.mem_map_of_mem hb
    · intro hx
      obtain ⟨b, hb, rfl⟩ := List.mem_map.mp hx
      exact ⟨b.2, List.mem_cons_of_mem _ hb, hFree b hb⟩
  rw [hMid]
  simp only [List.mem_append, List.mem_cons]
  constructor
  · rintro (hx | hx | hx)
    · exact .inl ⟨.inl hx, fun hEq => hPre (hEq ▸ hx)⟩
    · exact .inr hx
    · exact .inl ⟨.inr (.inr hx), fun hEq => hPost (hEq ▸ hx)⟩
  · rintro (⟨hx | rfl | hx, hne⟩ | hx)
    · exact .inl hx
    · exact absurd rfl hne
    · exact .inr (.inr hx)
    · exact .inr (.inl hx)

theorem reuse (hOverhead : d.overhead ≤ bytes) (hBytes : bytes ≤ hdr.blockLength) (hLow : 0 ≤ address)
    (hHigh : address < 2 ^ 63)
    (hTiles : Tiles BlockHeader.blockLength (a + bytes) mid (a + hdr.blockLength))
    (hMid : ∀ b ∈ mid, d.readAt b.1 = some b.2 ∧ b.2.Sound d.overhead ∧ b.2.isFree = true)
    (hChain : Segment d.nextFptr address (mid.map Prod.fst) hdr.blockNdFptr)
    (hNodup : (pre ++ (mid.map Prod.fst ++ post)).Nodup) :
    ((d.relink prev address).mark bytes a).Holds
      (l.map (relinked prev address) ++
        ((a, .normal bytes) :: mid ++ l'.map (relinked prev address)))
      (pre ++ (mid.map Prod.fst ++ post)) := by
  have hHeaderSize : d.rev.blockHeaderSize ≤ d.overhead := Nat.le_add_right _ _
  have hInside (b) (hb : b ∈ mid) :
      ((d.relink prev address).mark bytes a).readAt b.1 = d.readAt b.1 := by
    have hBounds := hTiles.bounds hb
    have hSound := (hMid b hb).2.1.overhead
    have hLe := d.rev.sizeOfBlockHeader_le
    exact h.readAt_reuse_inside (by omega) (by omega)
  have hOther (b) (hb : b ∈ l ++ l') := h.readAt_reuse bytes hLow hHigh hb
  refine h.holds.replace (by simp) (by simp) (by simp) h.touches_reuse.fileSize
    ⟨rfl, hTiles⟩ ?_ hLow hHigh hOther ?_ hNodup ?_
  · rintro b (_ | ⟨_, hb⟩)
    · exact ⟨h.readAt_reuse_self hBytes, BlockHeader.normal_sound hOverhead⟩
    · exact ⟨(hInside b hb).trans (hMid b hb).1, (hMid b hb).2.1⟩
  · rw [mark_gxdFsFptr, Holds.relink_head h.prev_eq]
    refine h.holds.chain_relink hOther h.prev_eq fun hPost => segment_append.mpr ⟨_, ?_, hPost⟩
    refine hChain.congr fun x hx => ?_
    obtain ⟨b, hb, rfl⟩ := List.mem_map.mp hx
    rw [nextFptr, nextFptr, hInside b hb]
  · exact fun x => h.mem_reused mid fun b hb => (hMid b hb).2.2

end Located

end DataReel.Database
