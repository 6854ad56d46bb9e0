import DataReel.Database.Alloc
import DataReel.Library.Loop

/-! # Where walks over the free space list end

A walk reads one block header a turn and there are finitely many places to
read one at. It recognizes a block that points to itself, and goes on for ever
in a larger circle of free blocks that it has no use for.
-/

namespace DataReel.Database

variable (d : Database)

/-- The next link and the position after the read, where a walk goes on from a link. -/
def nextLink (locate : Int → Int → Int) (accept : Int → BlockHeader → Bool) (link : Int × Int) :
    Option (Int × Int) :=
  if link.1 = 0 then none
  else
    match d.readAt (locate link.2 link.1) with
    | none => none
    | some hdr =>
      if hdr.test ∧ hdr.isFree ∧ link.1 ≠ hdr.blockNdFptr ∧ !accept link.1 hdr then
        some (hdr.blockNdFptr, locate link.2 link.1 + sizeOfBlockHeader)
      else none

/-- The links from the head of the list lead into a circle of free blocks that the walk passes. -/
def ListCircles (locate : Int → Int → Int) (accept : Int → BlockHeader → Bool) (position : Int) :
    Prop := Loop.Circles (d.nextLink locate accept) (d.fileHeader.gxdFsFptr, position)

variable {d} {locate : Int → Int → Int} {accept : Int → BlockHeader → Bool} {address position : Int}
  {n : Nat}

theorem walk_eq_none_iff : d.walk locate accept n address position = none ↔
    (Loop.after (d.nextLink locate accept) n (address, position)).isSome := by
  induction n generalizing address position with
  | zero => simp [walk, Loop.after]
  | succ n ih =>
    rw [walk, Loop.after, nextLink]
    dsimp only
    by_cases hZero : address = 0
    · rw [if_pos hZero, if_pos hZero]
      simp
    · rw [if_neg hZero, if_neg hZero]
      cases d.readAt (locate position address) with
      | none => simp
      | some hdr =>
        dsimp only
        cases hdr.test <;> cases hdr.isFree <;> cases accept address hdr <;>
          by_cases hSelf : address = hdr.blockNdFptr <;> simp [hSelf, ih]

theorem walk_ends_iff : (∃ n r, d.walk locate accept n address position = some r) ↔
    Loop.Ends (d.nextLink locate accept) (address, position) := by
  constructor
  · rintro ⟨n, r, hRun⟩
    refine ⟨n, ?_⟩
    by_contra hTurns
    rw [walk_eq_none_iff.mpr (Option.isSome_iff_ne_none.mpr hTurns)] at hRun
    cases hRun
  · rintro ⟨n, hEnd⟩
    refine ⟨n, Option.ne_none_iff_exists'.mp fun hNone => ?_⟩
    have hSome := walk_eq_none_iff.mp hNone
    rw [hEnd] at hSome
    cases hSome

theorem nextLink_cases {link link' : Int × Int} (h : d.nextLink locate accept link = some link') :
    ∃ hdr, d.readAt (locate link.2 link.1) = some hdr ∧
      link' = (hdr.blockNdFptr, locate link.2 link.1 + sizeOfBlockHeader) := by
  rw [nextLink] at h
  split at h
  · cases h
  · split at h
    · cases h
    · rename_i hdr hRead
      split at h
      · exact ⟨hdr, hRead, (Option.some.inj h).symm⟩
      · cases h

theorem readAt_some {hdr : BlockHeader} (h : d.readAt address = some hdr) :
    0 ≤ address ∧ address + sizeOfBlockHeader ≤ d.fileSize := by
  rw [readAt] at h
  split at h
  · assumption
  · cases h

theorem nextLink_place (link link' : Int × Int) (h : d.nextLink locate accept link = some link') :
    (locate link.2 link.1).toNat < d.fileSize.toNat := by
  obtain ⟨hdr, hRead, -⟩ := nextLink_cases h
  have hPlace := readAt_some hRead
  simp only [sizeOfBlockHeader] at hPlace
  omega

theorem nextLink_unique (link other link' other' : Int × Int)
    (h : d.nextLink locate accept link = some link')
    (hOther : d.nextLink locate accept other = some other')
    (hSame : (locate link.2 link.1).toNat = (locate other.2 other.1).toNat) : link' = other' := by
  obtain ⟨hdr, hRead, rfl⟩ := nextLink_cases h
  obtain ⟨hdr', hRead', rfl⟩ := nextLink_cases hOther
  have hPlace := (readAt_some hRead).1
  have hPlace' := (readAt_some hRead').1
  have hEq : locate link.2 link.1 = locate other.2 other.1 := by omega
  rw [hEq, hRead'] at hRead
  obtain rfl := Option.some.inj hRead
  rw [hEq]

/-- A walk ends exactly if it does not go round. -/
theorem walk_ends_iff_not_circles :
    (∃ n r, d.walk locate accept n d.fileHeader.gxdFsFptr position = some r) ↔
      ¬ d.ListCircles locate accept position := by
  rw [walk_ends_iff]
  exact Loop.ends_iff (fun link => (locate link.2 link.1).toNat) d.fileSize.toNat nextLink_place
    nextLink_unique

/-- A walk that has not ended after as many turns as the file has bytes does not end. -/
theorem walk_turns (h : d.walk locate accept (d.fileSize.toNat + 1) address position = none)
    (n : Nat) : d.walk locate accept n address position = none := by
  rw [walk_eq_none_iff, Option.isSome_iff_ne_none] at h
  have hCircles := Loop.circles_of_turns (fun link => (locate link.2 link.1).toNat)
    d.fileSize.toNat nextLink_place nextLink_unique h
  rw [walk_eq_none_iff, Option.isSome_iff_ne_none]
  exact fun hEnd => hCircles.not_ends ⟨n, hEnd⟩

/-! ## The calls -/

theorem map_ends_iff {α β : Type} {f : α → β} {x : Nat → Option α} :
    (∃ n r, (x n).map f = some r) ↔ ∃ n r, x n = some r := by
  constructor
  · rintro ⟨n, r, hRun⟩
    obtain ⟨a, ha, -⟩ := Option.map_eq_some_iff.mp hRun
    exact ⟨n, a, ha⟩
  · rintro ⟨n, a, ha⟩
    exact ⟨n, f a, by rw [ha, Option.map_some]⟩

theorem walk_ends_of_empty (hEmpty : d.fileHeader.gxdFsFptr = 0) :
    ∃ n r, d.walk locate accept n d.fileHeader.gxdFsFptr position = some r :=
  ⟨1, ([], .none), by rw [walk, if_pos hEmpty]⟩

theorem alloc_ends_iff {method : ReclaimMethod} {bytes : Nat}
    (hReclaim : d.fileHeader.gxdFsFptr ≠ 0 → ∀ n, ∃ f : List (Int × BlockHeader) × ListEnd → _,
      d.reclaim n position ((bytes + d.overhead) % 2 ^ 64) method =
        if d.fileHeader.gxdFsFptr = gxFSListCorrupt then some (0, d)
        else (d.walk locate accept n d.fileHeader.gxdFsFptr position).map f) :
    (∃ n r, d.alloc n position bytes method = some r) ↔
      d.fileHeader.gxdFsFptr = gxFSListCorrupt ∨ ¬ d.ListCircles locate accept position := by
  rw [← walk_ends_iff_not_circles]
  simp only [alloc, map_ends_iff]
  by_cases hEmpty : d.fileHeader.gxdFsFptr = 0
  · refine iff_of_true ⟨0, (0, d), ?_⟩ (.inr (walk_ends_of_empty hEmpty))
    rw [reclaim.eq_def, if_pos hEmpty]
  · constructor
    · rintro ⟨n, r, hRun⟩
      obtain ⟨f, hf⟩ := hReclaim hEmpty n
      rw [hf] at hRun
      split at hRun
      · rename_i hCorrupt
        exact .inl hCorrupt
      · obtain ⟨a, ha, -⟩ := Option.map_eq_some_iff.mp hRun
        exact .inr ⟨n, a, ha⟩
    · rintro (hCorrupt | ⟨n, r, hWalk⟩)
      · obtain ⟨f, hf⟩ := hReclaim hEmpty 0
        exact ⟨0, (0, d), by rw [hf, if_pos hCorrupt]⟩
      · obtain ⟨f, hf⟩ := hReclaim hEmpty n
        refine ⟨n, Option.ne_none_iff_exists'.mp ?_⟩
        rw [hf, hWalk]
        split <;> exact nofun

theorem alloc_firstFit_ends_iff (d : Database) (position : Int) (bytes : Nat) :
    (∃ n r, d.alloc n position bytes .firstFit = some r) ↔
      d.fileHeader.gxdFsFptr = gxFSListCorrupt ∨ ¬ d.ListCircles seekTo
        (fun _ hdr => d.fits ((bytes + d.overhead) % 2 ^ 64) hdr) position := by
  exact alloc_ends_iff fun hNonempty n => ⟨_, by rw [reclaim.eq_def, if_neg hNonempty]; rfl⟩

theorem alloc_bestFit_ends_iff (d : Database) (position : Int) (bytes : Nat) :
    (∃ n r, d.alloc n position bytes .bestFit = some r) ↔
      d.fileHeader.gxdFsFptr = gxFSListCorrupt ∨ ¬ d.ListCircles seekTo
        (fun _ hdr => hdr.blockLength = (bytes + d.overhead) % 2 ^ 64) position := by
  exact alloc_ends_iff fun hNonempty n => ⟨_, by rw [reclaim.eq_def, if_neg hNonempty]; rfl⟩

theorem unDelete_ends_iff (d : Database) (position objectAddress : Int) :
    (∃ n r, d.unDelete n position objectAddress = some r) ↔
      (∀ hdr, d.readBlockHdr position (objectAddress - d.blockHeaderSize) = some hdr →
        hdr.status ≠ gxDeletedBlock) ∨
      ¬ d.ListCircles readPosition (fun address _ => address = objectAddress - d.blockHeaderSize)
        (readPosition position (objectAddress - d.blockHeaderSize) + sizeOfBlockHeader) := by
  rw [← walk_ends_iff_not_circles]
  simp only [unDelete]
  cases d.readBlockHdr position (objectAddress - d.blockHeaderSize) with
  | none => exact iff_of_true ⟨0, _, rfl⟩ (.inl nofun)
  | some hdr =>
    dsimp only
    by_cases hStatus : hdr.status = gxDeletedBlock
    · simp only [hStatus, ne_eq, not_true_eq_false, if_false, map_ends_iff]
      refine ⟨.inr, fun h => h.resolve_left fun hNot => hNot hdr rfl hStatus⟩
    · refine iff_of_true ⟨0, (false, d), if_pos hStatus⟩ (.inl ?_)
      rintro _ ⟨⟩
      exact hStatus

theorem deletedBlocks_ends_iff (d : Database) (position : Int) :
    (∃ n r, d.deletedBlocks n position = some r) ↔
      d.testFileHeader.rev.hasStats = true ∨
      d.testFileHeader.fileHeader.gxdFsFptr = gxFSListCorrupt ∨
      ¬ d.testFileHeader.ListCircles seekTo (fun _ hdr => hdr.blockNdFptr = gxFSListCorrupt)
        position := by
  rw [← walk_ends_iff_not_circles]
  simp only [deletedBlocks]
  by_cases hStats : d.testFileHeader.rev.hasStats = true
  · refine iff_of_true ⟨0, _, if_pos hStats⟩ (.inl hStats)
  · by_cases hCorrupt : d.testFileHeader.fileHeader.gxdFsFptr = gxFSListCorrupt
    · simp only [hStats, hCorrupt, if_true, Bool.false_eq_true, if_false]
      exact iff_of_true ⟨0, _, rfl⟩ (.inr (.inl trivial))
    · simp only [hStats, hCorrupt, Bool.false_eq_true, if_false, map_ends_iff, false_or]

/-- Exactly when the calls that walk the free space list of any file return. -/
theorem listCalls_end_iff (d : Database) (position : Int) :
    (∀ bytes, (∃ n r, d.alloc n position bytes .firstFit = some r) ↔
      d.fileHeader.gxdFsFptr = gxFSListCorrupt ∨ ¬ d.ListCircles seekTo
        (fun _ hdr => d.fits ((bytes + d.overhead) % 2 ^ 64) hdr) position) ∧
    (∀ bytes, (∃ n r, d.alloc n position bytes .bestFit = some r) ↔
      d.fileHeader.gxdFsFptr = gxFSListCorrupt ∨ ¬ d.ListCircles seekTo
        (fun _ hdr => hdr.blockLength = (bytes + d.overhead) % 2 ^ 64) position) ∧
    (∀ objectAddress, (∃ n r, d.unDelete n position objectAddress = some r) ↔
      (∀ hdr, d.readBlockHdr position (objectAddress - d.blockHeaderSize) = some hdr →
        hdr.status ≠ gxDeletedBlock) ∨
      ¬ d.ListCircles readPosition (fun address _ => address = objectAddress - d.blockHeaderSize)
        (readPosition position (objectAddress - d.blockHeaderSize) + sizeOfBlockHeader)) ∧
    ((∃ n r, d.deletedBlocks n position = some r) ↔
      d.testFileHeader.rev.hasStats = true ∨
      d.testFileHeader.fileHeader.gxdFsFptr = gxFSListCorrupt ∨
      ¬ d.testFileHeader.ListCircles seekTo (fun _ hdr => hdr.blockNdFptr = gxFSListCorrupt)
        position) := by
  exact ⟨d.alloc_firstFit_ends_iff position, d.alloc_bestFit_ends_iff position,
    d.unDelete_ends_iff position, d.deletedBlocks_ends_iff position⟩

/-- A file of revision A with two removed blocks and a deleted one. -/
def threeFree : Option Database := do
  let d := create .A 0
  let (a, d) ← d.alloc 1 0 8 .none
  let (b, d) ← d.alloc 1 0 8 .none
  let (c, d) ← d.alloc 1 0 8 .none
  let (_, d) := d.delete 0 c false
  let (_, d) := d.delete 0 b true
  let (_, d) := d.delete 0 a true
  -- The damage: the second block of the list points back to the first.
  let hdr ← d.readAt (b - d.blockHeaderSize)
  some (d.writeBlockHdr { hdr with blockNdFptr := a - d.blockHeaderSize } (b - d.blockHeaderSize))

/-- The walk is at the head of the list again after two turns, and after two more. -/
abbrev TurnsRound (next : Int × Int → Option (Int × Int)) (position : Int) : Prop :=
  Loop.after next 2 (56, position) = some (56, 136) ∧
    Loop.after next 2 (56, 136) = some (56, 136)

theorem TurnsRound.circles {next : Int × Int → Option (Int × Int)} (h : TurnsRound next position) :
    Loop.Circles next (56, position) := ⟨2, 1, (56, 136), h.1, h.2⟩

theorem threeFree_headers : ∀ d ∈ threeFree, d.fileHeader.gxdFsFptr = 56 ∧
    d.testFileHeader.fileHeader.gxdFsFptr = 56 ∧ d.testFileHeader.rev.hasStats = false ∧
    d.blockHeaderSize = 32 ∧ (d.readBlockHdr 0 152).map BlockHeader.status = some gxDeletedBlock := by
  decide +kernel

theorem threeFree_turns : ∀ d ∈ threeFree,
    TurnsRound (d.nextLink seekTo fun _ hdr => d.fits ((1000 + d.overhead) % 2 ^ 64) hdr) 0 ∧
    TurnsRound (d.nextLink seekTo fun _ hdr =>
      hdr.blockLength = (1000 + d.overhead) % 2 ^ 64) 0 ∧
    TurnsRound (d.nextLink readPosition fun address _ => address = 152) 184 ∧
    TurnsRound (d.testFileHeader.nextLink seekTo fun _ hdr =>
      hdr.blockNdFptr = gxFSListCorrupt) 0 := by
  decide +kernel

/-- None of the calls returns on this file: there is no block large enough, and the deleted block
was behind the circle. -/
theorem threeFree_never_ends : ∃ d, threeFree = some d ∧
    (¬ ∃ n r, d.alloc n 0 1000 .firstFit = some r) ∧
    (¬ ∃ n r, d.alloc n 0 1000 .bestFit = some r) ∧
    (¬ ∃ n r, d.unDelete n 0 184 = some r) ∧
    (¬ ∃ n r, d.deletedBlocks n 0 = some r) := by
  have hSome : threeFree.isSome := by decide +kernel
  obtain ⟨d, hd⟩ := Option.isSome_iff_exists.mp hSome
  obtain ⟨hHead, hHead', hStats, hSize, hDeleted⟩ := threeFree_headers d hd
  obtain ⟨hFirst, hBest, hUn, hCount⟩ := threeFree_turns d hd
  have hNotCorrupt : (56 : Int) ≠ gxFSListCorrupt := by decide
  refine ⟨d, hd, ?_, ?_, ?_, ?_⟩
  · rw [alloc_firstFit_ends_iff, ListCircles, hHead]
    exact not_or.mpr ⟨hNotCorrupt, not_not.mpr hFirst.circles⟩
  · rw [alloc_bestFit_ends_iff, ListCircles, hHead]
    exact not_or.mpr ⟨hNotCorrupt, not_not.mpr hBest.circles⟩
  · obtain ⟨hdr, hRead, hStatus⟩ := Option.map_eq_some_iff.mp hDeleted
    rw [unDelete_ends_iff, ListCircles, hHead, hSize]
    exact not_or.mpr ⟨fun h => h hdr hRead hStatus, not_not.mpr hUn.circles⟩
  · rw [deletedBlocks_ends_iff, ListCircles, hHead', hStats]
    exact not_or.mpr ⟨Bool.false_ne_true, not_or.mpr ⟨hNotCorrupt, not_not.mpr hCount.circles⟩⟩

end DataReel.Database
