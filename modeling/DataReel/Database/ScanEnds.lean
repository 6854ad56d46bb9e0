import DataReel.Database.ListEnds
import DataReel.Database.Rebuild
import Mathlib.Data.Int.Interval
import Mathlib.Data.Finite.Prod

/-! # When block scans end

A scan goes on by a length that a block header has in the file, so that a
damaged one may lead it into a circle. The scans of InfoHog and the rebuilding
of a file test the lengths they go on by.
-/

namespace DataReel

open Loop

theorem fauSum_bounds (address : Int) (length : Nat) :
    -2 ^ 63 ≤ fauSum address length ∧ fauSum address length < 2 ^ 63 := by
  have hWord := wordOfInt_lt (address + length)
  rw [fauSum, intOfWord]
  split <;> omega

theorem fauSum_eq {address : Int} {length : Nat} (hLow : -2 ^ 63 ≤ address + length)
    (hHigh : address + length < 2 ^ 63) : fauSum address length = address + length :=
  intOfWord_wordOfInt hLow hHigh

namespace Database

variable {d : Database} {position address : Int} {n : Nat} {hdr : BlockHeader}

theorem readBlockHdr_some (h : d.readBlockHdr position address = some hdr) :
    d.readAt (readPosition position address) = some hdr ∧ hdr.test = true :=
  Option.filter_eq_some_iff.mp h

theorem readAt_of_readBlockHdr (hNe : address ≠ gxCurrAddress)
    (h : d.readBlockHdr position address = some hdr) : d.readAt address = some hdr := by
  have hRead := (readBlockHdr_some h).1
  rwa [readPosition, if_neg hNe] at hRead

theorem searchBlock_bounds {found : Int} (h : d.searchBlock n position address = some found) :
    0 ≤ found ∧ found ≤ max 0 d.fileSize := by
  induction n generalizing position address with
  | zero => cases h
  | succ n ih =>
    rw [searchBlock] at h
    split at h
    · cases h
      omega
    · split at h
      · cases h
        omega
      · rename_i hRead
        have hBounds := readAt_some hRead
        have hSize : (sizeOfBlockHeader : Int) = 32 := rfl
        split at h
        · obtain rfl := Option.some.inj h
          rw [readPosition] at hBounds
          split at hBounds
          · rw [if_pos ‹_›]
            omega
          · rw [if_neg ‹_›]
            omega
        · exact ih h

theorem firstBlock_bounds (d : Database) (position offset : Int) : 0 ≤ d.firstBlock position offset ∧
    d.firstBlock position offset ≤ max 0 d.fileSize := by
  rw [firstBlock]
  cases h : d.findFirstBlockTested position offset with
  | none => exact ⟨Int.le_refl 0, le_max_left ..⟩
  | some found =>
    rw [findFirstBlockTested] at h
    split at h
    · cases h
      exact ⟨Int.le_refl 0, le_max_left ..⟩
    · split at h
      · cases h
        exact ⟨Int.le_refl 0, le_max_left ..⟩
      · exact searchBlock_bounds h

/-! ## The count of the engine -/

/-- Where the count goes on from a block address and a file position. -/
def countNext (d : Database) (s : Int × Int) : Option (Int × Int) := (d.countTurn s).map Prod.snd

theorem countNext_ends_iff (s : Int × Int) : Ends d.countNext s ↔ ¬ Circles d.countNext s := by
  refine ends_iff_of_finite (S := Set.Ico (-2 ^ 63) (2 ^ 63 + max 0 d.fileSize) ×ˢ
    Set.Ico 0 (2 ^ 63 + max 0 d.fileSize)) ((Set.finite_Ico _ _).prod (Set.finite_Ico _ _)) ?_
  intro s t h
  obtain ⟨r, hTurn, rfl⟩ := Option.map_eq_some_iff.mp h
  rw [countTurn] at hTurn
  split at hTurn
  · cases hTurn
  · obtain ⟨hdr, hRead, rfl⟩ := Option.map_eq_some_iff.mp hTurn
    have hBounds := readAt_some hRead
    have hSum := fauSum_bounds s.1 hdr.blockLength
    have hFound := d.firstBlock_bounds (s.2 + sizeOfBlockHeader) s.1
    have hSize : (sizeOfBlockHeader : Int) = 32 := rfl
    rw [Set.mem_prod, Set.mem_Ico, Set.mem_Ico]
    split
    · dsimp only
      rw [seekTo]
      split <;> omega
    · dsimp only
      omega

/-- Exactly when `TotalBlocks` returns. -/
theorem totalBlocks_returns_iff (d : Database) (position : Int) :
    (∃ n, (d.totalBlocks n position).1.isSome) ↔ d.testFileHeader.rev.hasStats = true ∨
      ¬ Circles d.testFileHeader.countNext (d.testFileHeader.firstBlock position 0,
        d.testFileHeader.firstBlock position 0) := by
  rw [← countNext_ends_iff]
  simp only [totalBlocks]
  cases hStats : d.testFileHeader.rev.hasStats with
  | true => exact iff_of_true ⟨0, rfl⟩ (.inl rfl)
  | false =>
    simp only [Bool.false_eq_true, if_false, false_or]
    refine returns_iff_ends (π := fun s : Int × Int × Int => s.2) (I := fun _ => True) ?_ ?_ trivial
    · intro s r _ h
      rw [totalBlocksTurn] at h
      split at h
      · rename_i hTurn
        rw [countNext, hTurn]
        rfl
      · cases h
    · intro s t _ h
      rw [totalBlocksTurn] at h
      split at h
      · cases h
      · rename_i hTurn
        obtain rfl := Sum.inr.inj h
        rw [countNext, hTurn]
        exact ⟨trivial, rfl⟩

/-! ## Scans of records -/

/-- The whole of a record can be read. -/
def HoldsRecord (d : Database) (position : Int) (hdr : BlockHeader) : Prop :=
  d.recordLength hdr = 0 ∨ position + d.recordLength hdr ≤ d.fileSize

instance : Decidable (d.HoldsRecord position hdr) := inferInstanceAs (Decidable (_ ∨ _))

/-- Where a scan of records goes on from a block address and a file position: behind a block that is
not in use, or that is and holds a record. -/
def recordNext (d : Database) (eof : Int) (s : Int × Int) : Option (Int × Int) :=
  if eof ≤ fauSum s.1 d.blockHeaderSize then none
  else
    (d.readBlockHdr s.2 s.1).bind fun hdr =>
      let position := readPosition s.2 s.1 + d.blockHeaderSize
      if hdr.status ≠ gxNormalBlock then some (fauSum s.1 hdr.blockLength, position)
      else if d.HoldsRecord position hdr then
        some (fauSum s.1 hdr.blockLength, position + d.recordLength hdr)
      else none

theorem recordNext_cases {eof : Int} {s t : Int × Int} (h : d.recordNext eof s = some t) :
    ∃ hdr, d.readAt (readPosition s.2 s.1) = some hdr ∧ t.1 = fauSum s.1 hdr.blockLength ∧
      (t.2 = readPosition s.2 s.1 + d.blockHeaderSize ∨
        hdr.status = gxNormalBlock ∧ d.HoldsRecord (readPosition s.2 s.1 + d.blockHeaderSize) hdr ∧
        t.2 = readPosition s.2 s.1 + d.blockHeaderSize + d.recordLength hdr) := by
  rw [recordNext] at h
  split at h
  · cases h
  · obtain ⟨hdr, hRead, h⟩ := Option.bind_eq_some_iff.mp h
    refine ⟨hdr, (readBlockHdr_some hRead).1, ?_⟩
    dsimp only at h
    split at h
    · obtain rfl := Option.some.inj h
      exact ⟨rfl, .inl rfl⟩
    · rename_i hStatus
      split at h
      · rename_i hHolds
        obtain rfl := Option.some.inj h
        exact ⟨rfl, .inr ⟨not_not.mp hStatus, hHolds, rfl⟩⟩
      · cases h

theorem blockHeaderSize_le (d : Database) : d.blockHeaderSize ≤ 56 := by
  rw [blockHeaderSize]
  cases d.rev <;> decide

theorem recordNext_ends_iff (eof : Int) (s : Int × Int) :
    Ends (d.recordNext eof) s ↔ ¬ Circles (d.recordNext eof) s := by
  refine ends_iff_of_finite (S := Set.Ico (-2 ^ 63) (2 ^ 63) ×ˢ Set.Ico 0 (max 0 d.fileSize + 57))
    ((Set.finite_Ico _ _).prod (Set.finite_Ico _ _)) ?_
  intro s t h
  obtain ⟨hdr, hRead, hAddress, hPosition⟩ := recordNext_cases h
  have hBounds := readAt_some hRead
  have hSum := fauSum_bounds s.1 hdr.blockLength
  have hSize : (sizeOfBlockHeader : Int) = 32 := rfl
  have hHeader := d.blockHeaderSize_le
  rw [Set.mem_prod, Set.mem_Ico, Set.mem_Ico, hAddress]
  refine ⟨hSum, ?_⟩
  cases hPosition with
  | inl hPosition => omega
  | inr hRecord =>
    obtain ⟨-, hHolds, hPosition⟩ := hRecord
    cases hHolds with
    | inl hZero => omega
    | inr hLe => omega

end Database

namespace RecordScan

variable {σ α : Type} {S : RecordScan σ α} {d : Database} {eof : Int}

/-- The scan does no more with the file than to read. -/
def Reads (S : RecordScan σ α) : Prop :=
  ∀ address position hdr d state r, S.visit address position hdr (d, state) = .inr r →
    d.HoldsRecord position hdr ∧ r.1 = d ∧ r.2.1 = position + d.recordLength hdr

/-- The scan goes on behind each record that it can read. -/
def Passes (S : RecordScan σ α) : Prop :=
  ∀ address position hdr d state, d.HoldsRecord position hdr →
    ∃ r, S.visit address position hdr (d, state) = .inr r

theorem turn_along (hReads : S.Reads) (s t : Database × Int × Int × σ) (hFile : s.1 = d)
    (hTurn : S.turn eof s = .inr t) :
    t.1 = d ∧ d.recordNext eof (s.2.1, s.2.2.1) = some (t.2.1, t.2.2.1) := by
  obtain ⟨e, address, position, state⟩ := s
  obtain rfl : e = d := hFile
  rw [turn] at hTurn
  dsimp only at hTurn
  split at hTurn
  · cases hTurn
  · rename_i hGuard
    split at hTurn
    · cases hTurn
    · rename_i hdr hRead
      rw [Database.recordNext, if_neg hGuard, hRead, Option.bind_some]
      dsimp only
      split at hTurn
      · rename_i hStatus
        cases hVisit : S.visit address (Database.readPosition position address + e.blockHeaderSize) hdr
            (e, state) with
        | inl a =>
          rw [hVisit] at hTurn
          cases hTurn
        | inr r =>
          obtain ⟨hHolds, hSame, hPosition⟩ := hReads _ _ _ _ _ _ hVisit
          rw [hVisit] at hTurn
          obtain rfl := Sum.inr.inj hTurn
          rw [if_neg (not_not.mpr hStatus), if_pos hHolds]
          exact ⟨hSame, by rw [← hPosition]⟩
      · rename_i hStatus
        obtain rfl := Sum.inr.inj hTurn
        rw [if_pos hStatus]
        exact ⟨rfl, rfl⟩

theorem turn_stops (hPasses : S.Passes) (s : Database × Int × Int × σ) (a : α) (hFile : s.1 = d)
    (hTurn : S.turn eof s = .inl a) : d.recordNext eof (s.2.1, s.2.2.1) = none := by
  obtain ⟨e, address, position, state⟩ := s
  obtain rfl : e = d := hFile
  rw [turn] at hTurn
  dsimp only at hTurn
  rw [Database.recordNext]
  split at hTurn
  · rw [if_pos ‹_›]
  · rename_i hGuard
    rw [if_neg hGuard]
    split at hTurn
    · rename_i hRead
      rw [hRead, Option.bind_none]
    · rename_i hdr hRead
      rw [hRead, Option.bind_some]
      dsimp only
      split at hTurn
      · rename_i hStatus
        rw [if_neg (not_not.mpr hStatus)]
        refine if_neg fun hHolds => ?_
        obtain ⟨r, hVisit⟩ := hPasses address _ hdr e state hHolds
        rw [hVisit] at hTurn
        cases hTurn
      · cases hTurn

/-- A scan that reads records returns if the block headers do not lead into a circle. -/
theorem returns_of_not_circles (hReads : S.Reads) {address position : Int} {state : σ}
    (hNot : ¬ Circles (d.recordNext eof) (address, position)) :
    Returns (S.turn eof) (d, address, position, state) :=
  returns_of_ends (π := fun s : Database × Int × Int × σ => (s.2.1, s.2.2.1)) (I := fun s => s.1 = d)
    (turn_along hReads) rfl ((Database.recordNext_ends_iff eof _).mpr hNot)

/-- A scan that passes all records does not return if they do. -/
theorem not_circles_of_returns (hReads : S.Reads) (hPasses : S.Passes) {address position : Int}
    {state : σ} (hReturns : Returns (S.turn eof) (d, address, position, state)) :
    ¬ Circles (d.recordNext eof) (address, position) :=
  (Database.recordNext_ends_iff eof _).mp
    (ends_of_returns (π := fun s : Database × Int × Int × σ => (s.2.1, s.2.2.1))
      (I := fun s => s.1 = d) (turn_stops hPasses) (turn_along hReads) rfl hReturns)

end RecordScan

section Tables

variable {ρ ι : Type} {load : List UInt8 → ρ → Option RecordError × ρ} {d : Database}

theorem readRecord_of_not_holds {position : Int} {hdr : BlockHeader} {record : ρ}
    (hNot : ¬ d.HoldsRecord position hdr) :
    d.readRecord load position hdr record = (some .other, record) := if_neg hNot

theorem findScan_reads {equal : ρ → Bool} {allFields : Bool} :
    (findScan load equal allFields).Reads := by
  intro address position hdr d record r hVisit
  by_cases hHolds : d.HoldsRecord position hdr
  · simp only [findScan] at hVisit
    split at hVisit
    iterate 2
      split at hVisit
      · cases hVisit
      · obtain rfl := Sum.inr.inj hVisit
        exact ⟨hHolds, rfl, rfl⟩
    · cases hVisit
  · simp only [findScan, readRecord_of_not_holds hHolds] at hVisit
    cases hVisit

theorem verifyScan_reads {verify : ρ → Bool} : (verifyScan load verify false).Reads := by
  intro address position hdr d state r hVisit
  obtain ⟨record, v⟩ := state
  by_cases hHolds : d.HoldsRecord position hdr
  · simp only [verifyScan, Bool.false_eq_true, if_false] at hVisit
    split at hVisit
    · obtain rfl := Sum.inr.inj hVisit
      exact ⟨hHolds, rfl, rfl⟩
    · cases hVisit
    · cases hVisit
    · split at hVisit
      · obtain rfl := Sum.inr.inj hVisit
        exact ⟨hHolds, rfl, rfl⟩
      · cases hVisit
  · simp only [verifyScan, readRecord_of_not_holds hHolds] at hVisit
    cases hVisit

theorem rebuildIndexScan_reads {insertKey : ι → ρ → Int → Option ι} :
    (rebuildIndexScan load insertKey).Reads := by
  intro address position hdr d state r hVisit
  obtain ⟨record, index, keys⟩ := state
  by_cases hHolds : d.HoldsRecord position hdr
  · simp only [rebuildIndexScan] at hVisit
    split at hVisit
    · obtain rfl := Sum.inr.inj hVisit
      exact ⟨hHolds, rfl, rfl⟩
    · cases hVisit
    · split at hVisit
      · cases hVisit
      · obtain rfl := Sum.inr.inj hVisit
        exact ⟨hHolds, rfl, rfl⟩
  · simp only [rebuildIndexScan, readRecord_of_not_holds hHolds] at hVisit
    cases hVisit

/-- Records of other tables only, which every scan passes. -/
def foreign (_ : List UInt8) (record : ρ) : Option RecordError × ρ := (some .badTableId, record)

theorem readRecord_foreign {position : Int} {hdr : BlockHeader} {record : ρ}
    (hHolds : d.HoldsRecord position hdr) :
    d.readRecord foreign position hdr record = (some .badTableId, record) := if_pos hHolds

theorem findScan_passes : (findScan (ρ := ρ) foreign (fun _ => false) false).Passes := by
  intro address position hdr d record hHolds
  simp only [findScan, readRecord_foreign hHolds]
  exact ⟨_, rfl⟩

theorem verifyScan_passes {verify : ρ → Bool} {autoFix : Bool} :
    (verifyScan foreign verify autoFix).Passes := by
  intro address position hdr d state hHolds
  simp only [verifyScan, readRecord_foreign hHolds]
  exact ⟨_, rfl⟩

theorem rebuildIndexScan_passes {insertKey : ι → ρ → Int → Option ι} :
    (rebuildIndexScan foreign insertKey).Passes := by
  intro address position hdr d state hHolds
  simp only [rebuildIndexScan, readRecord_foreign hHolds]
  exact ⟨_, rfl⟩

end Tables

namespace Database

/-- The object as a scan finds it after `GetEOF` and the test of the header. -/
def scanned (d : Database) : Database := d.getEOF.2.testFileHeader

/-- The block headers lead a scan of records from the first one into a circle. -/
def RecordsCircle (d : Database) (position : Int) : Prop :=
  Circles (d.scanned.recordNext d.getEOF.1)
    (d.scanned.firstBlock position 0, d.scanned.firstBlock position 0)

end Database

theorem RecordScan.run_isSome_iff {σ α : Type} {S : RecordScan σ α} {empty : Nat → Database → Option α}
    {d : Database} {position : Int} {state : σ} :
    (∃ n, (S.run empty n d position state).isSome) ↔
      (d.scanned.firstBlock position 0 = 0 → ∃ n, (empty n d.scanned).isSome) ∧
      (d.scanned.firstBlock position 0 ≠ 0 → Returns (S.turn d.getEOF.1)
        (d.scanned, d.scanned.firstBlock position 0, d.scanned.firstBlock position 0, state)) := by
  simp only [RecordScan.run]
  change (∃ n, (if d.scanned.firstBlock position 0 = 0 then _ else _ : Option α).isSome) ↔ _
  by_cases hStart : d.scanned.firstBlock position 0 = 0
  · simp only [hStart, if_true, forall_const, ne_eq, not_true_eq_false, false_implies, and_true]
    rfl
  · simp only [hStart, if_false, false_implies, ne_eq, not_false_eq_true, forall_const, true_and]
    rfl

section Tables

variable (d : Database)

/-- Exactly when `gxRDBMS::Find` returns whatever the records are. -/
theorem rdbmsFind_returns_iff (position : Int) :
    (∀ (ρ : Type) (load : List UInt8 → ρ → Option RecordError × ρ) (equal : ρ → Bool) (allFields : Bool)
      (record : ρ), ∃ n, (rdbmsFind load equal allFields n d position record).isSome) ↔
      (d.scanned.firstBlock position 0 ≠ 0 → ¬ d.RecordsCircle position) := by
  constructor
  · intro h hStart
    have hReturns := (RecordScan.run_isSome_iff.mp (h Unit foreign (fun _ => false) false ())).2 hStart
    exact RecordScan.not_circles_of_returns findScan_reads findScan_passes hReturns
  · intro h ρ load equal allFields record
    refine RecordScan.run_isSome_iff.mpr ⟨fun _ => ⟨0, rfl⟩, fun hStart => ?_⟩
    exact RecordScan.returns_of_not_circles findScan_reads (h hStart)

/-- Exactly when `gxRDBMS::VerifyDataFile` without repairs returns whatever the records are. -/
theorem verifyDataFile_returns_iff (position : Fin 3 → Int) :
    (∀ (ρ : Type) (load : List UInt8 → ρ → Option RecordError × ρ) (verify : ρ → Bool) (record : ρ),
      ∃ n, (verifyDataFile load verify false n d position record).isSome) ↔
      (d.scanned.firstBlock (position 0) 0 = 0 →
        ∃ n, (d.scanned.normalBlocks n (position 1) (position 2)).isSome) ∧
      (d.scanned.firstBlock (position 0) 0 ≠ 0 → ¬ d.RecordsCircle (position 0)) := by
  constructor
  · intro h
    obtain ⟨hEmpty, hReturns⟩ := RecordScan.run_isSome_iff.mp (h Unit foreign (fun _ => true) ())
    simp only [Option.isSome_map] at hEmpty
    exact ⟨hEmpty, fun hStart =>
      RecordScan.not_circles_of_returns verifyScan_reads verifyScan_passes (hReturns hStart)⟩
  · rintro ⟨hEmpty, hNot⟩ ρ load verify record
    refine RecordScan.run_isSome_iff.mpr ⟨fun hStart => ?_, fun hStart => ?_⟩
    · simp only [Option.isSome_map]
      exact hEmpty hStart
    · exact RecordScan.returns_of_not_circles verifyScan_reads (hNot hStart)

/-- Exactly when `gxRDBMS::rebuild_index` returns whatever the records are. -/
theorem rebuildIndex_returns_iff (position : Fin 3 → Int) :
    (∀ (ρ ι : Type) (load : List UInt8 → ρ → Option RecordError × ρ)
      (insertKey : ι → ρ → Int → Option ι) (record : ρ) (index : ι),
      ∃ n, (rebuildIndex load insertKey n d position record index).isSome) ↔
      (d.scanned.firstBlock (position 0) 0 = 0 →
        ∃ n, (d.scanned.normalBlocks n (position 1) (position 2)).isSome) ∧
      (d.scanned.firstBlock (position 0) 0 ≠ 0 → ¬ d.RecordsCircle (position 0)) := by
  constructor
  · intro h
    obtain ⟨hEmpty, hReturns⟩ :=
      RecordScan.run_isSome_iff.mp (h Unit Unit foreign (fun _ _ _ => none) () ())
    simp only [Option.isSome_map] at hEmpty
    exact ⟨hEmpty, fun hStart =>
      RecordScan.not_circles_of_returns rebuildIndexScan_reads rebuildIndexScan_passes
        (hReturns hStart)⟩
  · rintro ⟨hEmpty, hNot⟩ ρ ι load insertKey record index
    refine RecordScan.run_isSome_iff.mpr ⟨fun hStart => ?_, fun hStart => ?_⟩
    · simp only [Option.isSome_map]
      exact hEmpty hStart
    · exact RecordScan.returns_of_not_circles rebuildIndexScan_reads (hNot hStart)

end Tables

/-! ## Repairs -/

namespace Database

variable {d d' : Database} {eof : Int}

/-- The headers lead a scan of records forward, or to an address that no read has. -/
def Forward (d : Database) (eof : Int) (start : Int × Int) : Prop :=
  ∀ n s t, after (d.recordNext eof) n start = some s → d.recordNext eof s = some t →
    s.1 < t.1 ∨ t.1 < gxCurrAddress

theorem delete_touches {position address : Int} {hdr : BlockHeader} (hNe : address ≠ gxCurrAddress)
    (hRead : d.readBlockHdr position address = some hdr)
    (hBehind : (d.rev.fileHeaderSize : Int) ≤ address) :
    Touches [(address, sizeOfBlockHeader)] d
      (d.delete position (address + d.blockHeaderSize) false).2 := by
  have hPlace : readPosition position address = address := if_neg hNe
  have hBounds := readAt_some (readBlockHdr_some hRead).1
  rw [hPlace] at hBounds
  rw [delete.eq_def]
  dsimp only
  rw [Int.add_sub_cancel, hRead]
  dsimp only
  split
  · exact (Touches.refl d).mono (by simp)
  · have hWrite := Touches.writeBlockHdr
      (d := { d with fileStats := { d.fileStats with deletedBlocks := d.fileStats.deletedBlocks + 1 } })
      { hdr with
        blockStatus := hdr.setStatus gxDeletedBlock
        blockNdFptr := d.fileHeader.gxdFsFptr } hBounds.2
    have hCount : Touches [] d
        { d with fileStats := { d.fileStats with deletedBlocks := d.fileStats.deletedBlocks + 1 } } :=
      Touches.of_file_eq rfl rfl rfl
    have hBlock := hCount.trans hWrite
    have hOther : readPosition (position + sizeOfBlockHeader) address = address := if_neg hNe
    simp only [Bool.false_eq_true, if_false, hOther]
    split
    · exact hBlock
    · have hList := hBlock.trans (Touches.setFsFptr _ address)
      refine hList.trans (Touches.writeFileHdr ?_)
      rw [hList.rev, hList.fileSize]
      omega

end Database

namespace Database

variable {d : Database} {eof address position : Int} {hdr : BlockHeader}

theorem readAt_blockLength_lt (h : d.readAt address = some hdr) : hdr.blockLength < 2 ^ 64 := by
  rw [readAt] at h
  split at h
  · obtain rfl := Option.some.inj h
    change d.file.read (address + 8) 8 < 256 ^ 8
    exact Bytes.read_lt
  · cases h

theorem HoldsRecord.next (h : d.HoldsRecord (address + d.blockHeaderSize) hdr)
    (hRead : d.readAt address = some hdr) (hSize : d.fileSize < 2 ^ 63) :
    address + sizeOfBlockHeader ≤ fauSum address hdr.blockLength ∨
      fauSum address hdr.blockLength < gxCurrAddress := by
  have hBounds := readAt_some hRead
  have hLength := readAt_blockLength_lt hRead
  have hHeader : (sizeOfBlockHeader : Int) = 32 := rfl
  have hCurr : gxCurrAddress = -1 := rfl
  have hOverhead : (d.overhead : Int) ≤ d.blockHeaderSize + 8 ∧ sizeOfBlockHeader ≤ d.overhead ∧
      d.overhead ≤ 64 := by
    rw [overhead, blockHeaderSize]
    cases d.rev <;> decide
  have hFits : (d.overhead : Int) ≤ hdr.blockLength ∧ address + hdr.blockLength < 2 ^ 63 + 64 := by
    rw [HoldsRecord, recordLength, wordOfInt] at h
    omega
  rw [fauSum, wordOfInt, intOfWord]
  split <;> omega

end Database

namespace Database.Forward

variable {d : Database} {eof : Int} {start : Int × Int}

/-- A state of a scan with repairs: the file is as it was from the block address on. -/
structure Reached {σ : Type} (d : Database) (eof : Int) (start : Int × Int)
    (s : Database × Int × Int × σ) : Prop where
  fileSize : s.1.fileSize = d.fileSize
  rev : s.1.rev = d.rev
  file : ∀ x, s.2.1 ≤ x → s.1.file x = d.file x
  behind : (d.rev.fileHeaderSize : Int) ≤ s.2.1
  along : ∃ n position, after (d.recordNext eof) n start = some (s.2.1, position)

theorem Reached.next {σ : Type} {s : Database × Int × Int × σ} {e : Database} {next position : Int}
    {state : σ} (h : Reached d eof start s) (hForward : d.Forward eof start) {t : Int × Int}
    (hAlong : ∀ p, d.recordNext eof (s.2.1, p) = some t) (hNext : t.1 = next)
    (hSize : e.fileSize = d.fileSize) (hRev : e.rev = d.rev)
    (hFile : ∀ x, next ≤ x → e.file x = s.1.file x) :
    Reached d eof start (e, next, position, state) ∧ s.2.1 < next ∨ next < gxCurrAddress := by
  obtain ⟨n, p, hReached⟩ := h.along
  have hStep := hAlong p
  have hWay := hForward n _ t hReached hStep
  rw [hNext] at hWay
  refine hWay.imp_left fun hLess => ⟨⟨hSize, hRev, fun x hx => ?_, ?_, n + 1, t.2, ?_⟩, hLess⟩
  · dsimp only at hx
    rw [hFile x hx, h.file x (by omega)]
  · have := h.behind
    dsimp only
    omega
  · rw [after_succ hReached, hStep, ← hNext]

end Database.Forward

section Repairs

variable {ρ : Type} {load : List UInt8 → ρ → Option RecordError × ρ} {verify : ρ → Bool} {d : Database}
  {eof : Int} {start : Int × Int}

theorem verifyScan_visit {address position : Int} {hdr : BlockHeader} {e : Database}
    {state : ρ × Verified} {r : Database × Int × ρ × Verified}
    (hVisit : (verifyScan load verify true).visit address position hdr (e, state) = .inr r) :
    e.HoldsRecord position hdr ∧ (r.1 = e ∨ ∃ next,
      r.1 = (e.delete next (address + e.blockHeaderSize) false).2) := by
  obtain ⟨record, v⟩ := state
  by_cases hHolds : e.HoldsRecord position hdr
  · refine ⟨hHolds, ?_⟩
    simp only [verifyScan, if_true] at hVisit
    split at hVisit
    · obtain rfl := Sum.inr.inj hVisit
      exact .inl rfl
    · split at hVisit
      · obtain rfl := Sum.inr.inj hVisit
        exact .inr ⟨_, rfl⟩
      · cases hVisit
    · cases hVisit
    · split at hVisit
      · obtain rfl := Sum.inr.inj hVisit
        exact .inl rfl
      · split at hVisit
        · obtain rfl := Sum.inr.inj hVisit
          exact .inr ⟨_, rfl⟩
        · cases hVisit
  · simp only [verifyScan, readRecord_of_not_holds hHolds] at hVisit
    cases hVisit

open Database in
theorem verifyScan_forward (hSize : d.fileSize < 2 ^ 63) (hForward : d.Forward eof start)
    (s t : Database × Int × Int × ρ × Verified)
    (h : Forward.Reached d eof start s ∨ s.2.1 < gxCurrAddress)
    (hTurn : (verifyScan load verify true).turn eof s = .inr t) :
    (Forward.Reached d eof start t ∨ t.2.1 < gxCurrAddress) ∧
      (if t.2.1 < 0 then 0 else (d.fileSize - t.2.1).toNat + 1) <
        (if s.2.1 < 0 then 0 else (d.fileSize - s.2.1).toNat + 1) := by
  obtain ⟨e, address, position, state⟩ := s
  have hCurr : gxCurrAddress = -1 := rfl
  have hHeader : (sizeOfBlockHeader : Int) = 32 := rfl
  rw [RecordScan.turn] at hTurn
  dsimp only at hTurn h ⊢
  split at hTurn
  · cases hTurn
  · rename_i hGuard
    split at hTurn
    · cases hTurn
    · rename_i hdr hRead
      have hBounds := readAt_some (readBlockHdr_some hRead).1
      have h : Forward.Reached d eof start (e, address, position, state) := h.resolve_right fun hLow => by
        rw [readPosition, if_neg (by omega)] at hBounds
        omega
      have hBehind := h.behind
      have hPos := d.rev.fileHeaderSize_pos
      have hNe : address ≠ gxCurrAddress := by
        dsimp only at hBehind
        omega
      have hPlace (p : Int) : readPosition p address = address := if_neg hNe
      rw [hPlace] at hTurn hBounds
      have hAt : e.readBlockHdr address address = some hdr := by
        rw [readBlockHdr, hPlace]
        rwa [readBlockHdr, hPlace] at hRead
      have hSame : d.readAt address = some hdr := by
        rw [← readAt_congr h.fileSize fun x hx _ => h.file x hx, ← (hPlace position)]
        exact (readBlockHdr_some hRead).1
      have hHeaderSize : e.blockHeaderSize = d.blockHeaderSize := by
        rw [blockHeaderSize, h.rev, blockHeaderSize]
      have hAlong (p : Int) : d.recordNext eof (address, p) =
          if hdr.status ≠ gxNormalBlock then
            some (fauSum address hdr.blockLength, address + d.blockHeaderSize)
          else if d.HoldsRecord (address + d.blockHeaderSize) hdr then
            some (fauSum address hdr.blockLength, address + d.blockHeaderSize + d.recordLength hdr)
          else none := by
        rw [recordNext, ← hHeaderSize, if_neg hGuard, readBlockHdr, hPlace, hSame, Option.filter_some,
          if_pos (readBlockHdr_some hRead).2, Option.bind_some]
      suffices hNext : Forward.Reached d eof start t ∧ address < t.2.1 ∨ t.2.1 < gxCurrAddress by
        refine ⟨hNext.imp_left And.left, ?_⟩
        rw [h.fileSize] at hBounds
        split <;> rw [if_neg (by omega)] <;> omega
      split at hTurn
      · rename_i hStatus
        cases hVisit : (verifyScan load verify true).visit address (address + e.blockHeaderSize) hdr
            (e, state) with
        | inl a =>
          rw [hVisit] at hTurn
          cases hTurn
        | inr r =>
          obtain ⟨hHolds, hFile⟩ := verifyScan_visit hVisit
          have hWay := hHolds.next (readAt_of_readBlockHdr hNe hAt) (h.fileSize.trans_lt hSize)
          rw [hVisit] at hTurn
          obtain rfl := Sum.inr.inj hTurn
          have hHolds' : d.HoldsRecord (address + d.blockHeaderSize) hdr := by
            rwa [HoldsRecord, recordLength, overhead, ← h.fileSize, ← h.rev, ← hHeaderSize]
          have hTouches : Touches [(address, sizeOfBlockHeader)] e r.1 := by
            cases hFile with
            | inl hSameFile =>
              rw [hSameFile]
              exact (Touches.refl e).mono (by simp)
            | inr hDeleted =>
              obtain ⟨p, hDeleted⟩ := hDeleted
              rw [hDeleted]
              have hHeaderAt : e.readBlockHdr p address = some hdr := by
                rwa [readBlockHdr, hPlace, ← hPlace address]
              exact delete_touches hNe hHeaderAt (by rw [h.rev]; exact hBehind)
          rcases hWay with hFar | hOut
          · refine h.next hForward (fun p => (hAlong p).trans ((if_neg (not_not.mpr hStatus)).trans
              (if_pos hHolds'))) rfl (hTouches.fileSize.trans h.fileSize) (hTouches.rev.trans h.rev) ?_
            intro x hx
            refine hTouches.file x ?_ fun p hp => ?_
            · rw [h.rev]
              dsimp only at hBehind
              omega
            · obtain rfl := List.mem_singleton.mp hp
              right
              dsimp only
              omega
          · exact .inr hOut
      · rename_i hStatus
        obtain rfl := Sum.inr.inj hTurn
        refine h.next hForward (fun p => (hAlong p).trans (if_pos hStatus)) rfl h.fileSize h.rev ?_
        exact fun x _ => rfl

end Repairs

theorem Database.scanned_fileSize (d : Database) : d.scanned.fileSize = d.fileSize := by
  have hRead (e : Database) : e.readFileHdr.2.fileSize = e.fileSize := by
    simp only [readFileHdr]
    split
    · rfl
    · split <;> rfl
  have hTest (e : Database) : e.testFileHeader.fileSize = e.fileSize := by
    simp only [testFileHeader, apply_ite Database.fileSize, hRead, ite_self]
  have hEof : d.getEOF.2.fileSize = d.fileSize := by
    simp only [getEOF, apply_ite Prod.snd, apply_ite Database.fileSize, hRead, ite_self]
  exact (hTest _).trans hEof

/-- `gxRDBMS::VerifyDataFile` with repairs returns if the block headers lead forward from a first block
behind the file headers. -/
theorem verifyDataFile_returns_of_forward (d : Database) (hSize : d.fileSize < 2 ^ 63)
    (position : Fin 3 → Int)
    (hEmpty : d.scanned.firstBlock (position 0) 0 = 0 →
      ∃ n, (d.scanned.normalBlocks n (position 1) (position 2)).isSome)
    (hForward : d.scanned.firstBlock (position 0) 0 ≠ 0 →
      (d.scanned.rev.fileHeaderSize : Int) ≤ d.scanned.firstBlock (position 0) 0 ∧
      d.scanned.Forward d.getEOF.1
        (d.scanned.firstBlock (position 0) 0, d.scanned.firstBlock (position 0) 0))
    {ρ : Type} (load : List UInt8 → ρ → Option RecordError × ρ) (verify : ρ → Bool) (record : ρ) :
    ∃ n, (verifyDataFile load verify true n d position record).isSome := by
  refine RecordScan.run_isSome_iff.mpr ⟨fun hStart => ?_, fun hStart => ?_⟩
  · simp only [Option.isSome_map]
    exact hEmpty hStart
  · obtain ⟨hBehind, hForward⟩ := hForward hStart
    refine returns_of_measure _ (verifyScan_forward (d.scanned_fileSize.trans_lt hSize) hForward) ?_
    exact .inl ⟨rfl, rfl, fun _ _ => rfl, hBehind, 0, _, rfl⟩

/-! ## Scans of objects -/

theorem BlockHeader.ofWords_blockLength_lt {l : List Nat} (hl : ∀ w ∈ l, w < 2 ^ 64) :
    (BlockHeader.ofWords l).blockLength < 2 ^ 64 := by
  rw [BlockHeader.ofWords.eq_def]
  split
  · exact hl _ (List.mem_cons_of_mem _ List.mem_cons_self)
  · decide

namespace ObjectScan

variable {σ α : Type} {S : ObjectScan σ α} {d : Database} {eof address : Int} {hdr : BlockHeader}

theorem step_forward (d : Database) (hLow : 0 ≤ address) (hHigh : address < 2 ^ 63)
    (hLength : hdr.blockLength < 2 ^ 64) :
    address < step d address hdr ∨ step d address hdr < gxCurrAddress := by
  have hCurr : gxCurrAddress = -1 := rfl
  have hSize := d.rev.blockHeaderSize_pos
  rw [step]
  split
  · rw [fauSum, intOfWord, wordOfInt]
    split <;> omega
  · rename_i hNot
    rw [not_or, not_lt, Database.blockHeaderSize] at hNot
    obtain ⟨-, hNot⟩ := hNot
    have hShort : hdr.blockLength < 2 ^ 63 ∧ 0 < hdr.blockLength := by
      rw [intOfWord] at hNot
      split at hNot <;> omega
    rw [fauSum, intOfWord, wordOfInt]
    split <;> omega

theorem turn_inr {s t : Int × Int × List Nat × σ} (hTurn : S.turn d eof s = .inr t) :
    ¬ eof ≤ fauSum s.1 d.blockHeaderSize ∧
    (S.noHeader.isSome → 0 ≤ Database.readPosition s.2.1 s.1 ∧
      Database.readPosition s.2.1 s.1 + sizeOfBlockHeader ≤ d.fileSize) ∧
    t.2.2.1 = (if Database.readPosition s.2.1 s.1 < 0 then s.2.2.1
      else d.readOver (Database.readPosition s.2.1 s.1) s.2.2.1) ∧
    t.1 = step d s.1 (BlockHeader.ofWords t.2.2.1) := by
  obtain ⟨address, position, words, state⟩ := s
  rw [turn] at hTurn
  dsimp only at hTurn ⊢
  split at hTurn
  · cases hTurn
  · rename_i hGuard
    refine ⟨hGuard, ?_⟩
    split at hTurn
    · cases hTurn
    · rename_i hHeader
      refine ⟨fun hTests => ?_, ?_⟩
      · by_contra hNot
        rw [if_neg hNot] at hHeader
        rw [hHeader] at hTests
        cases hTests
      · generalize (if Database.readPosition position address < 0 then words
          else d.readOver (Database.readPosition position address) words) = words' at hTurn ⊢
        generalize (if Database.readPosition position address < 0 then position else _) = stop at hTurn
        split at hTurn
        · generalize S.visit _ _ = r at hTurn
          cases r with
          | inl a => cases hTurn
          | inr r =>
            obtain rfl := Sum.inr.inj hTurn
            exact ⟨rfl, rfl⟩
        · obtain rfl := Sum.inr.inj hTurn
          exact ⟨rfl, rfl⟩

theorem readOver_lt {start : Int} {words : List Nat} : ∀ w ∈ d.readOver start words, w < 2 ^ 64 :=
  Bytes.readWords_lt

/-- A scan that tests what it reads returns. -/
theorem returns_of_tested (hTests : S.noHeader.isSome) (hSize : d.fileSize < 2 ^ 63)
    {position : Int} {words : List Nat} {state : σ} (hLow : 0 ≤ address) :
    Returns (S.turn d eof) (address, position, words, state) := by
  have hCurr : gxCurrAddress = -1 := rfl
  have hHeader : (sizeOfBlockHeader : Int) = 32 := rfl
  refine returns_of_measure (I := fun s : Int × Int × List Nat × σ => 0 ≤ s.1 ∨ s.1 < gxCurrAddress)
    (fun s => if s.1 < 0 then 0 else (d.fileSize - s.1).toNat + 1) ?_ (.inl hLow)
  intro s t hState hTurn
  obtain ⟨-, hRead, hWords, hNext⟩ := turn_inr hTurn
  have hBounds := hRead hTests
  have hAddress : 0 ≤ s.1 := hState.resolve_right fun hOut => by
    rw [Database.readPosition, if_neg (by omega)] at hBounds
    omega
  rw [Database.readPosition, if_neg (by omega)] at hBounds hWords
  rw [if_neg (by omega)] at hWords
  have hForward := step_forward d hAddress (by omega)
    (BlockHeader.ofWords_blockLength_lt (hWords ▸ readOver_lt))
  rw [← hNext] at hForward
  refine ⟨hForward.imp_left (by omega), ?_⟩
  split <;> rw [if_neg (by omega)] <;> omega

/-- Where a scan that does not test what it reads goes on from a block address and a header in
memory. -/
def next (d : Database) (eof : Int) (s : Int × List Nat) : Option (Int × List Nat) :=
  if eof ≤ fauSum s.1 d.blockHeaderSize then none
  else some (step d s.1 (BlockHeader.ofWords (d.readOver s.1 s.2)), d.readOver s.1 s.2)

/-- No sum of an address that a scan comes to and the length there runs over. -/
def NoOverflow (d : Database) (eof : Int) (start : Int × List Nat) : Prop :=
  ∀ n s, after (next d eof) n start = some s → 0 ≤ s.1

theorem returns_of_noOverflow {position : Int} {words : List Nat} {state : σ}
    (hHigh : address < 2 ^ 63) (hNo : NoOverflow d eof (address, words)) :
    Returns (S.turn d eof) (address, position, words, state) := by
  have hCurr : gxCurrAddress = -1 := rfl
  refine returns_of_measure (I := fun s : Int × Int × List Nat × σ => s.1 < 2 ^ 63 ∧
    ∃ n, after (next d eof) n (address, words) = some (s.1, s.2.2.1))
    (fun s => (2 ^ 63 - s.1).toNat) ?_ ⟨hHigh, 0, rfl⟩
  rintro s t ⟨hBelow, n, hAfter⟩ hTurn
  obtain ⟨hGuard, -, hWords, hNext⟩ := turn_inr hTurn
  have hAddress := hNo _ _ hAfter
  dsimp only at hAddress
  rw [Database.readPosition, if_neg (by omega), if_neg (by omega)] at hWords
  have hStep : after (next d eof) (n + 1) (address, words) = some (t.1, t.2.2.1) := by
    rw [after_succ hAfter, next, if_neg hGuard, hNext, hWords]
  have hAgain := hNo _ _ hStep
  have hLength := BlockHeader.ofWords_blockLength_lt (l := t.2.2.1) (hWords ▸ readOver_lt)
  have hBounds : t.1 < 2 ^ 63 := by
    rw [hNext, step]
    split <;> exact (fauSum_bounds _ _).2
  dsimp only at hAgain
  refine ⟨⟨hBounds, n + 1, hStep⟩, ?_⟩
  have hForward := step_forward d hAddress hBelow hLength
  rw [← hNext] at hForward
  omega

end ObjectScan

theorem Database.scanned_firstBlock_bounds (d : Database) (position : Int) :
    0 ≤ d.scanned.firstBlock position 0 ∧ d.scanned.firstBlock position 0 ≤ max 0 d.fileSize := by
  rw [← d.scanned_fileSize]
  exact d.scanned.firstBlock_bounds position 0

/-- Where the scans of objects start: the first block and the words of a new header. -/
def Database.objectStart (d : Database) (position : Int) : Int × List Nat :=
  (d.scanned.firstBlock position 0, [gxCheckWord, 0, gxNormalBlock, 0])

theorem ObjectScan.run_isSome {σ α : Type} {S : ObjectScan σ α} {empty : α} {d : Database}
    {position : Int} {state : σ}
    (h : d.scanned.firstBlock position 0 ≠ 0 → Returns (S.turn d.scanned d.getEOF.1)
      (d.scanned.firstBlock position 0, d.scanned.firstBlock position 0,
        [gxCheckWord, 0, gxNormalBlock, 0], state)) :
    ∃ n, (S.run empty n d position state).isSome := by
  simp only [ObjectScan.run]
  change ∃ n, (if d.scanned.firstBlock position 0 = 0 then _ else _ : Option α).isSome
  by_cases hStart : d.scanned.firstBlock position 0 = 0
  · exact ⟨0, by rw [if_pos hStart]; rfl⟩
  · obtain ⟨n, hn⟩ := h hStart
    exact ⟨n, by rw [if_neg hStart]; exact hn⟩

section Objects

variable {ω ι : Type} (O : ObjectReads ω) {d : Database}

/-- `InfoHog::Find` without an index always returns. -/
theorem hogFind_returns (hSize : d.fileSize < 2 ^ 63) (sameKey : ω → Bool) (position : Int) (o : ω) :
    ∃ n, (hogFind O sameKey n d position o).isSome :=
  ObjectScan.run_isSome fun _ => ObjectScan.returns_of_tested rfl (d.scanned_fileSize.trans_lt hSize)
    (d.scanned_firstBlock_bounds position).1

theorem objectScan_returns {σ α : Type} {S : ObjectScan σ α} {empty : α} {position : Int} {state : σ}
    (hSize : d.fileSize < 2 ^ 63)
    (hNo : ObjectScan.NoOverflow d.scanned d.getEOF.1 (d.objectStart position)) :
    ∃ n, (S.run empty n d position state).isSome := by
  have hStart := (d.scanned_firstBlock_bounds position).2
  exact ObjectScan.run_isSome fun _ => ObjectScan.returns_of_noOverflow (by omega) hNo

end Objects

/-! ## Rebuilding -/

namespace Database

variable {d : Database}

theorem blockSearchFrom_bounds {n : Nat} {offset : Int} (h : d.blockSearchFrom n offset ≠ 0) :
    offset ≤ d.blockSearchFrom n offset ∧ 0 ≤ offset ∧
      d.blockSearchFrom n offset + sizeOfBlockHeader < d.fileSize := by
  induction n generalizing offset with
  | zero => exact absurd rfl h
  | succ n ih =>
    rw [blockSearchFrom] at h ⊢
    split at h
    · exact absurd rfl h
    · rename_i hEnd
      rw [if_neg hEnd]
      split at h
      · exact absurd rfl h
      · rename_i hRead
        split at h
        · rw [if_pos ‹_›]
          exact ⟨Int.le_refl _, (readAt_some hRead).1, by omega⟩
        · rw [if_neg ‹_›]
          obtain ⟨hFound, -, hFits⟩ := ih h
          exact ⟨by omega, (readAt_some hRead).1, hFits⟩

namespace Rebuilding

variable {s t : Rebuilding} {memory : Nat}

theorem searchOn_inr {currAddr : Int} (h : s.searchOn d currAddr = .inr t) :
    currAddr ≤ t.addr ∧ 0 ≤ currAddr ∧ t.addr + sizeOfBlockHeader < d.fileSize := by
  rw [searchOn] at h
  dsimp only at h
  split at h
  · cases h
  · rename_i hFound
    obtain rfl := Sum.inr.inj h
    exact blockSearchFrom_bounds hFound

theorem writeObject_addr (object : List UInt8) : (s.writeObject object).addr = s.addr := by
  rw [writeObject]
  split <;> rfl

/-- A turn goes forward or, where the sum of address and length runs over, to an address from which
the search finds nothing. -/
theorem turn_inr (hSize : d.fileSize < 2 ^ 63) (hTurn : s.turn d memory = .inr t) :
    0 ≤ s.addr + sizeOfBlockHeader ∧ (s.addr < t.addr ∧ t.addr ≤ d.fileSize ∨
      0 ≤ s.addr ∧ s.addr ≤ d.fileSize ∧ t.addr + sizeOfBlockHeader < gxCurrAddress) := by
  have hCurr : gxCurrAddress = -1 := rfl
  have hHeader : (sizeOfBlockHeader : Int) = 32 := rfl
  rw [turn] at hTurn
  split at hTurn
  · cases hTurn
  · split at hTurn
    · have hSearch := searchOn_inr hTurn
      omega
    · rename_i hdr hRead
      have hBounds := readAt_some hRead
      have hLength := readAt_blockLength_lt hRead
      have hPositive : sizeOfBlockHeader ≤ d.blockHeaderSize := by
        rw [blockHeaderSize]
        cases d.rev <;> decide
      dsimp only at hTurn
      have hBad (h : s.searchOn d (s.addr + sizeOfBlockHeader) = .inr t) :
          0 ≤ s.addr + sizeOfBlockHeader ∧ (s.addr < t.addr ∧ t.addr ≤ d.fileSize ∨
            0 ≤ s.addr ∧ s.addr ≤ d.fileSize ∧ t.addr + sizeOfBlockHeader < gxCurrAddress) := by
        have hSearch := searchOn_inr h
        omega
      split at hTurn
      · exact hBad hTurn
      · split at hTurn
        · exact hBad hTurn
        · rename_i hGood
          rw [not_or, not_lt, not_lt] at hGood
          obtain ⟨hLong, hEnd⟩ := hGood
          -- The length is not negative, so that the sum is behind the block or has run over.
          have hNext : s.addr < fauSum s.addr hdr.blockLength ∧
              fauSum s.addr hdr.blockLength ≤ d.fileSize ∨
              fauSum s.addr hdr.blockLength + sizeOfBlockHeader < gxCurrAddress := by
            rw [intOfWord] at hLong
            rw [fauSum, wordOfInt, intOfWord] at hEnd ⊢
            split <;> split at hLong <;> omega
          have hAddr (h : t.addr = fauSum s.addr hdr.blockLength) :
              0 ≤ s.addr + sizeOfBlockHeader ∧ (s.addr < t.addr ∧ t.addr ≤ d.fileSize ∨
                0 ≤ s.addr ∧ s.addr ≤ d.fileSize ∧ t.addr + sizeOfBlockHeader < gxCurrAddress) := by
            rw [h]
            omega
          split at hTurn
          · obtain rfl := Sum.inr.inj hTurn
            exact hAddr rfl
          · split at hTurn
            · exact hBad hTurn
            · split at hTurn
              · cases hTurn
              · split at hTurn
                · cases hTurn
                · split at hTurn
                  · cases hTurn
                  · obtain rfl := Sum.inr.inj hTurn
                    exact hAddr (writeObject_addr _)

theorem returns (hSize : d.fileSize < 2 ^ 63) (hLow : 0 ≤ s.addr) :
    Returns (fun s => turn d s memory) s := by
  have hCurr : gxCurrAddress = -1 := rfl
  refine returns_of_measure
    (I := fun s => 0 ≤ s.addr ∨ s.addr + sizeOfBlockHeader < gxCurrAddress)
    (fun s => if s.addr < 0 then 0 else (d.fileSize - s.addr).toNat + 1) ?_ (.inl hLow)
  intro s t hState hTurn
  have hNext := turn_inr hSize hTurn
  have hHeader : (sizeOfBlockHeader : Int) = 32 := rfl
  refine ⟨by omega, ?_⟩
  split <;> rw [if_neg (by omega)] <;> omega

end Rebuilding

/-- `Rebuild` always returns. -/
theorem rebuild_returns (hSize : d.fileSize < 2 ^ 63) (memory : Nat) (rev : Revision) (staticArea : Nat)
    (copyStaticData : Bool) : ∃ n, (d.rebuild n memory rev staticArea copyStaticData).isSome := by
  simp only [rebuild]
  split
  · exact ⟨0, rfl⟩
  · rename_i hFound
    simp only [Option.isSome_map]
    have hBounds := blockSearchFrom_bounds hFound
    exact Rebuilding.returns hSize (hBounds.2.1.trans hBounds.1)

end Database

/-! ## All scans -/

namespace Database

/-- A file of revision A with a deleted block whose length is damaged. -/
def zeroLength : Option Database := do
  let (a, d) ← (create .A 0).alloc 1 0 8 .none
  let (_, d) := d.delete 0 a false
  let hdr ← d.readAt (a - d.blockHeaderSize)
  some (d.writeBlockHdr { hdr with blockLength := 0 } (a - d.blockHeaderSize))

theorem zeroLength_size : ∀ d ∈ zeroLength, d.fileSize = 104 := by
  decide +kernel

theorem zeroLength_turns : ∀ d ∈ zeroLength,
    d.testFileHeader.rev.hasStats = false ∧ d.testFileHeader.firstBlock 0 0 = 56 ∧
    d.scanned.firstBlock 0 0 = 56 ∧
    Loop.after d.testFileHeader.countNext 1 (56, 56) = some (56, 56) ∧
    Loop.after (d.scanned.recordNext d.getEOF.1) 1 (56, 56) = some (56, 88) ∧
    Loop.after (d.scanned.recordNext d.getEOF.1) 1 (56, 88) = some (56, 88) := by
  decide +kernel

end Database

end DataReel
