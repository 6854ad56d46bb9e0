import DataReel.Table.RdbmsKeys
import DataReel.Table.StoredRecords

/-! # The rows of a table

A table agrees with an index if each record has a key there, made of it and with the address of its
block, and no other key is there. The records are read back from their blocks.
-/

namespace DataReel

namespace Database.Undamaged

variable {d : Database} {a : Int} {l : List UInt8}

/-- What a read of the header of a block in use finds. -/
theorem readBlockHdr (h : d.Undamaged) (hObject : d.object (a + d.blockHeaderSize) = some l)
    (position : Int) : Database.readPosition position a = a ∧
      ∃ hdr, d.readBlockHdr position a = some hdr ∧ d.recordLength hdr = l.length := by
  obtain ⟨blocks, free, hIntact⟩ := h
  have hHolds := hIntact.holds
  obtain ⟨b, hb, hUse, hAt, rfl⟩ := hHolds.object_eq_some_iff.mp hObject
  obtain rfl : b.1 = a := by omega
  have hPlace := hHolds.bounds hb
  have hLimit := hHolds.limit
  have hSize := hHolds.fileSize
  have hSound := hHolds.sound b hb
  have hOverhead := hSound.overhead
  refine ⟨readPosition_pos position hPlace.1, b.2, ?_, ?_⟩
  · rw [Database.readBlockHdr, readPosition_pos position hPlace.1, hHolds.stored b hb, Option.filter_some,
      if_pos hSound.test]
  · rw [recordLength, payload_length, wordOfInt]
    omega

end Database.Undamaged

/-- A record with its key in an index. -/
structure Row where
  key : RdbmsKey
  record : Record

namespace Table

variable (M : Table)

/-- The record definition is good, and the record that is made of it leaves out no field. -/
structure Ready : Prop where
  created : M.created.1 = .noError
  wellFormed : M.created.2.WellFormed M.types
  fields : M.created.2.dbRecord ≠ []
  excludeFields : M.created.2.excludeFields = []

/-- A record of the table is in the block that its key names, and the words of its 64-bit integers
fit. -/
structure Stored (d : Database) (row : Row) : Prop where
  wellFormed : row.record.WellFormed M.types
  ofTable : Record.OfTable M.created.2 row.record
  diskLength : row.record.diskLength M.types ≤ vectorMax
  wide : Record.WideFit M.types row.record
  block : ∃ disk rest, row.record.createDiskRecord M.types = some (.ok disk) ∧
    d.object (row.key.kid + d.blockHeaderSize) = some (disk ++ rest)

/-- An index of the table, whose keys are made of a field, agrees with its data file. -/
structure Agrees (d : Database) (dup useBinarySearch useSingleCompare : Bool) (t : Btree RdbmsKey)
    (field : Nat) (rows : List Row) : Prop where
  ready : M.Ready
  undamaged : d.Undamaged
  counted : d.Counted
  stored : ∀ row ∈ rows, M.Stored d row
  /-- Every block in use is that of one row. -/
  blocks : d.objects.Perm (rows.map fun row => row.key.kid + d.blockHeaderSize)
  index : ∃ A, t.Stores (rdbmsKey dup useBinarySearch useSingleCompare) A
  /-- The rows are in the order of their keys. -/
  keys : t.keys = rows.map Row.key
  made : ∀ row ∈ rows, row.record.createKey M.types field M.compareCase = some row.key.k

variable {M} {d d' : Database} {row : Row} {r : Record}

namespace Stored

theorem congr (h : M.Stored d row) (hObject : d'.object = d.object) (hRev : d'.rev = d.rev) :
    M.Stored d' row := by
  obtain ⟨disk, rest, hCreate, hBlock⟩ := h.block
  refine { h with block := ⟨disk, rest, hCreate, ?_⟩ }
  rw [hObject, Database.blockHeaderSize, hRev]
  exact hBlock

theorem dbRecord_ne (h : M.Stored d row) (hReady : M.Ready) : row.record.dbRecord ≠ [] := by
  intro hNil
  have hPos := hReady.wellFormed.numFields_pos hReady.fields
  have hLe := h.wellFormed.numFields_le
  have hNum := h.ofTable.definition.numFields
  rw [hNil, List.length_nil] at hLe
  omega

theorem excludeFields (h : M.Stored d row) (hReady : M.Ready) : row.record.excludeFields = [] := by
  rw [← h.ofTable.excludeFields, hReady.excludeFields]

/-- A row is read back. -/
theorem read (h : M.Stored d row) (hReady : M.Ready) (hFile : d.Undamaged) (hr : r.WellFormed M.types)
    (hTable : Record.OfTable M.created.2 r) (position : Int) :
    ∃ r', M.read d position row.key.kid r = some (.returned .noError r') ∧
      Record.Alike M.types r' row.record ∧ Record.OfTable M.created.2 r' := by
  obtain ⟨disk, rest, hCreate, hBlock⟩ := h.block
  obtain ⟨hPosition, hdr, hHdr, hLength⟩ := hFile.readBlockHdr hBlock position
  have hBounds := hFile.bounds hBlock
  have hMax : (disk ++ rest).length ≤ vectorMax := by
    rw [vectorMax]
    omega
  have hBytes : d.file.get (row.key.kid + d.blockHeaderSize) (disk ++ rest).length = disk ++ rest := by
    have hGet := hFile.get hBlock (i := 0) (k := (disk ++ rest).length) (Nat.zero_add _).le
    rwa [Int.natCast_zero, Int.add_zero, List.drop_zero, List.take_length] at hGet
  have hRow : Record.OfTable row.record r :=
    ⟨⟨h.ofTable.definition.tableName.symm.trans hTable.definition.tableName,
      h.ofTable.definition.recordDef.symm.trans hTable.definition.recordDef,
      h.ofTable.definition.numFields.symm.trans hTable.definition.numFields⟩,
      h.ofTable.excludeFields.symm.trans hTable.excludeFields⟩
  obtain ⟨r', hLoad, hAlike, hOf⟩ := Record.loadDiskRecord_row h.wellFormed (h.dbRecord_ne hReady)
    h.diskLength (h.excludeFields hReady) hr hRow hCreate hMax
  refine ⟨r', ?_, hAlike, h.ofTable.trans hOf⟩
  rw [Table.read, hHdr, Option.bind_some]
  simp only [hPosition, hLength]
  rw [if_neg (by omega), if_pos (.inr (by omega)), hBytes, hLoad]

end Stored

namespace Agrees

variable {dup useBinarySearch useSingleCompare : Bool} {t : Btree RdbmsKey} {field : Nat}
  {rows : List Row} (h : M.Agrees d dup useBinarySearch useSingleCompare t field rows)

include h

theorem length : d.objects.length = rows.length := by
  rw [h.blocks.length_eq, List.length_map]

theorem nodup : (rows.map Row.key).Nodup := by
  obtain ⟨A, hStores⟩ := h.index
  rw [← h.keys]
  exact hStores.keys_nodup

/-- `NormalBlocks` is the number of the rows. -/
theorem normalBlocksRun {n : Nat} (hn : d.fileSize.toNat < n) (position position' : Int) :
    d.normalBlocksRun n position position' = some ((rows.length : Int), d.testFileHeader) := by
  rw [h.undamaged.normalBlocksRun_eq h.counted hn, h.length]

theorem stored_test (hRow : row ∈ rows) : M.Stored d.testFileHeader row := by
  obtain ⟨-, hRev, -, -, hObject⟩ := h.undamaged.testFileHeader
  exact (h.stored row hRow).congr hObject hRev

end Agrees

end Table

end DataReel
