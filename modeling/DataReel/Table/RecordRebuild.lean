import DataReel.Table.RecordFaults
import DataReel.Table.VerifyIndex

/-! # Indexes that are rebuilt

A scan of the data file gives a new index one key for each record, whatever index was there before. It fails only
where two records have one checksum of the key field and the index takes one key of a value.
-/

namespace DataReel

open Record (Alike OfTable)

namespace Database

variable {d : Database} {b c : Int × BlockHeader} {pre post : List (Int × BlockHeader)}

/-- A scan reads the bytes of an object in use. -/
theorem Undamaged.readRecord_eq (h : d.Undamaged) (hb : b ∈ d.scanBlocks) (hUse : b.2.status = gxNormalBlock) :
    ∃ l, d.object (b.1 + d.blockHeaderSize) = some l ∧ ∀ {ρ : Type}
      (load : List UInt8 → ρ → Option RecordError × ρ) (record : ρ),
      d.readRecord load (b.1 + d.blockHeaderSize) b.2 record = load l record := by
  obtain ⟨l, hObject⟩ := Option.isSome_iff_exists.mp (h.object_scanBlocks hb hUse)
  refine ⟨l, hObject, fun load record => ?_⟩
  have hBounds := h.bounds hObject
  obtain ⟨blocks, free, hIntact⟩ := h
  have hHolds := hIntact.holds
  rw [scanBlocks, hHolds.blocks_eq] at hb
  obtain ⟨hb, -⟩ := List.mem_filter.mp hb
  obtain rfl : d.payload b = l := Option.some.inj ((hHolds.object_eq_some_iff.mpr
    ⟨b, hb, (hHolds.sound b hb).status_iff.mp hUse, rfl, rfl⟩).symm.trans hObject)
  have hOver := (hHolds.sound b hb).overhead
  have hBlock := hHolds.bounds hb
  have hLimit := hHolds.limit
  rw [payload_length] at hBounds
  have hLength : d.recordLength b.2 = b.2.blockLength - d.overhead := by
    rw [recordLength, wordOfInt]
    omega
  rw [readRecord, hLength, if_pos (.inr (by omega))]
  rfl

/-- A scan comes to the blocks in the order of their addresses. -/
theorem Undamaged.scanBlocks_pairwise (h : d.Undamaged) : d.scanBlocks.Pairwise fun b c => b.1 < c.1 := by
  obtain ⟨blocks, free, hIntact⟩ := h
  rw [scanBlocks, hIntact.holds.blocks_eq]
  exact (hIntact.holds.tiles.pairwise fun b => hIntact.holds.blockLength_pos).sublist List.filter_sublist

end Database

namespace RecordTable

/-- The records in some of the blocks. -/
def within (R : FAU → Option Record) (blocks : List (Int × BlockHeader)) : FAU → Option Record :=
  fun a => if blocks.any fun b => b.2.status = gxNormalBlock ∧ b.1 = a then R a else none

/-- No two records have one checksum of a key field, but where keys may be equal. -/
def Distinct (M : RecordTable) (R : FAU → Option Record) (field : Nat) : Prop :=
  M.dup = false → ∀ a b r s, R a = some r → R b = some s → M.keyValue field r = M.keyValue field s → a = b

variable {M : RecordTable} {R : FAU → Option Record} {d : Database} {F : TableFiles} {t : Btree RdbmsKey}
  {r s : Record} {field i : Nat} {a : FAU} {b : Int × BlockHeader} {pre post : List (Int × BlockHeader)}

theorem within_eq_some : within R pre a = some r ↔
    R a = some r ∧ ∃ b ∈ pre, b.2.status = gxNormalBlock ∧ b.1 = a := by
  simp only [within, List.any_eq_true, decide_eq_true_eq, Option.ite_none_right_eq_some]
  exact And.comm

theorem within_skip (h : b.2.status ≠ gxNormalBlock) : within R (pre ++ [b]) = within R pre := by
  refine funext fun a => Option.ext fun r => ?_
  rw [within_eq_some, within_eq_some]
  simp only [List.mem_append, List.mem_singleton]
  refine and_congr_right fun _ => ⟨?_, fun ⟨c, hc, hRest⟩ => ⟨c, .inl hc, hRest⟩⟩
  rintro ⟨c, hc | rfl, hUse, hAt⟩
  · exact ⟨c, hc, hUse, hAt⟩
  · exact absurd hUse h

theorem within_add (hUse : b.2.status = gxNormalBlock) (hRecord : R b.1 = some s) :
    within R (pre ++ [b]) = Function.update (within R pre) b.1 (some s) := by
  refine funext fun a => Option.ext fun r => ?_
  rw [within_eq_some]
  simp only [List.mem_append, List.mem_singleton]
  by_cases ha : a = b.1
  · subst ha
    rw [Function.update_self, hRecord]
    exact ⟨And.left, fun hSome => ⟨hSome, b, .inr rfl, hUse, rfl⟩⟩
  · rw [Function.update_of_ne ha, within_eq_some]
    refine and_congr_right fun _ => ⟨?_, fun ⟨c, hc, hRest⟩ => ⟨c, .inl hc, hRest⟩⟩
    rintro ⟨c, hc | rfl, hHere, hAt⟩
    · exact ⟨c, hc, hHere, hAt⟩
    · exact absurd hAt.symm ha

theorem within_scanBlocks (hM : M.Ready) (h : M.InData R d) : within R d.scanBlocks = R := by
  refine funext fun a => Option.ext fun r => within_eq_some.trans ⟨And.left, fun hRecord => ⟨hRecord, ?_⟩⟩
  obtain ⟨disk, -, hLength, hBlock⟩ := h.object_eq hM hRecord
  have hPos : 0 < disk.length := by
    rw [hLength, Record.diskLength]
    have hHeader : 0 < Record.headerSizeOf M.types := by cases M.types <;> decide
    omega
  obtain ⟨b, hb, hUse, hAt⟩ := h.undamaged.mem_scanBlocks hBlock hPos
  exact ⟨b, hb, hUse, by omega⟩

theorem InData.test (h : M.InData R d) : M.InData R d.testFileHeader := by
  obtain ⟨hFile, hRev, -, -, hObject⟩ := h.undamaged.testFileHeader
  refine ⟨hFile, h.sound, fun a l => ?_⟩
  rw [hObject, Database.blockHeaderSize, hRev, ← Database.blockHeaderSize]
  exact h.blocks a l

/-- A scan loads the record of a block. -/
theorem InData.readRecord (h : M.InData R d) (hM : M.Ready) (hb : b ∈ d.scanBlocks)
    (hUse : b.2.status = gxNormalBlock) : ∃ s, R b.1 = some s ∧
      ∀ r, r.WellFormed M.types → OfTable M.created.2 r → ∃ r',
        d.readRecord M.loadScanned (b.1 + d.blockHeaderSize) b.2 (some r) = (none, some r') ∧
          Alike M.types r' s ∧ M.Sound r' := by
  obtain ⟨l, hObject, hRead⟩ := h.undamaged.readRecord_eq hb hUse
  obtain ⟨s, hRecord, hCreate⟩ := (h.blocks b.1 l).mp hObject
  have hs := h.sound b.1 s hRecord
  refine ⟨s, hRecord, fun r hr hOf => ?_⟩
  have hMax : (l ++ []).length ≤ vectorMax := by
    obtain ⟨disk, hDisk, hLength⟩ := hs.createDiskRecord hM
    have hLimit := hs.diskLength
    obtain rfl : disk = l := by
      rw [hCreate] at hDisk
      cases hDisk
      rfl
    rw [List.append_nil]
    omega
  have hRow : OfTable s r :=
    ⟨⟨hs.ofTable.definition.tableName.symm.trans hOf.definition.tableName,
      hs.ofTable.definition.recordDef.symm.trans hOf.definition.recordDef,
      hs.ofTable.definition.numFields.symm.trans hOf.definition.numFields⟩,
      hs.ofTable.excludeFields.symm.trans hOf.excludeFields⟩
  obtain ⟨r', hLoad, hAlike, hOf'⟩ := Record.loadDiskRecord_row hs.wellFormed (hs.dbRecord_ne hM) hs.diskLength
    (hs.ofTable.excludeFields.symm.trans hM.table.excludeFields) hr hRow hCreate hMax
  rw [List.append_nil] at hLoad
  refine ⟨r', ?_, hAlike, hs.of_alike hAlike (hs.ofTable.trans hOf')⟩
  rw [hRead, loadScanned, hLoad]

section Insert

variable (hM : M.Ready) (hAt : M.indexField i = some field) (hField : field ∈ M.fields) (hs : M.Sound s)
  (hKey : M.keyValue field s ≠ 0) (hr : M.Sound r) (hAlike : Alike M.types r s) (h : M.Indexes R field t)

include hM hAt hField hs hKey hr hAlike h

/-- A key is inserted for a record that a scan has loaded. -/
theorem insertKey_done (hFree : R a = none) (hNew : M.dup = false → ¬ M.Clashes R field s)
    (hRoom : t.f.Room maxLevels) : ∃ t', M.insertKey i (some t) (some r) a = some (some t') ∧
      M.Indexes (Function.update R a (some s)) field t' ∧ ∀ n, t.f.Room (maxLevels + n) → t'.f.Room n := by
  have hSame := hM.keyValue_alike hField hr hs hAlike
  have hUnused : M.Unused R field (M.keyAt field a s) := by
    intro b s' hRecord hValue
    constructor
    · by_contra hDup
      exact hNew (Bool.eq_false_iff.mpr hDup) ⟨b, s', hRecord, hValue⟩
    · rintro rfl
      rw [hRecord] at hFree
      cases hFree
  obtain ⟨t', hStep, hIndexed⟩ := h.insert hFree hUnused hRoom
  refine ⟨t', ?_, hIndexed⟩
  rw [insertKey, hAt, Option.bind_eq_bind, Option.bind_some, Option.bind_some, hr.createKey hM, hSame]
  dsimp only
  rw [if_neg hKey]
  rw [keyAt] at hStep
  rw [hStep]

theorem insertKey_refused (hDup : M.dup = false) (hClash : M.Clashes R field s) (a : FAU) :
    M.insertKey i (some t) (some r) a = none := by
  have hStep := h.insert_refused hDup hClash a
  rw [keyAt] at hStep
  rw [insertKey, hAt, Option.bind_eq_bind, Option.bind_some, Option.bind_some, hr.createKey hM,
    hM.keyValue_alike hField hr hs hAlike]
  dsimp only
  rw [if_neg hKey, hStep]

end Insert

/-- The visits of a scan give the index a key of each record, or come to one whose key is refused. -/
theorem rebuild_visits (hM : M.Ready) (h : M.InData R d) (hKeyed : ∀ a r, R a = some r → M.Keyed r)
    (hAt : M.indexField i = some field) (hField : field ∈ M.fields) (hBlocks : d.scanBlocks = pre ++ post)
    (hIndexes : M.Indexes (within R pre) field t) (hRoom : t.f.Room (maxLevels * post.length))
    (hr : r.WellFormed M.types) (hOf : OfTable M.created.2 r) (keys : Nat) :
    ∃ code t' keys', (rebuildIndexScan M.loadScanned (M.insertKey i)).visits d post (some r, some t, keys) =
        (code, some t', keys') ∧
      ((code = 1 ∧ M.Indexes R field t') ∨ (code = -5 ∧ ¬ M.Distinct R field)) := by
  induction post generalizing pre t r keys with
  | nil =>
    refine ⟨1, t, keys, rfl, .inl ⟨rfl, ?_⟩⟩
    rwa [← List.append_nil pre, ← hBlocks, within_scanBlocks hM h] at hIndexes
  | cons b post ih =>
    have hb : b ∈ d.scanBlocks := by
      rw [hBlocks]
      exact List.mem_append_right _ List.mem_cons_self
    have hNext : d.scanBlocks = (pre ++ [b]) ++ post := by rw [hBlocks, List.append_assoc, List.singleton_append]
    rw [List.length_cons, Nat.mul_succ, Nat.add_comm] at hRoom
    rw [RecordScan.visits]
    by_cases hUse : b.2.status = gxNormalBlock
    · rw [if_pos hUse]
      obtain ⟨s, hRecord, hRead⟩ := h.readRecord hM hb hUse
      obtain ⟨r', hLoad, hAlike, hSound⟩ := hRead r hr hOf
      have hs := h.sound b.1 s hRecord
      have hKey := hKeyed b.1 s hRecord field hField
      have hFree : within R pre b.1 = none := by
        refine Option.eq_none_iff_forall_ne_some.mpr fun u hu => ?_
        obtain ⟨-, c, hc, -, hSame⟩ := within_eq_some.mp hu
        have hLt := (List.pairwise_append.mp (hBlocks ▸ h.undamaged.scanBlocks_pairwise)).2.2 c hc b
          List.mem_cons_self
        omega
      by_cases hClash : M.dup = false ∧ M.Clashes (within R pre) field s
      · have hRefused := insertKey_refused hM hAt hField hs hKey hSound hAlike hIndexes hClash.1 hClash.2 b.1
        refine ⟨-5, t, keys, ?_, .inr ⟨rfl, fun hDistinct => ?_⟩⟩
        · simp only [rebuildIndexScan, hLoad, hRefused]
        · obtain ⟨c, u, hu, hValue⟩ := hClash.2
          obtain ⟨hOther, -⟩ := within_eq_some.mp hu
          obtain rfl := hDistinct hClash.1 c b.1 u s hOther hRecord hValue
          rw [hFree] at hu
          cases hu
      · obtain ⟨t', hInsert, hIndexed, hRooms⟩ := insertKey_done hM hAt hField hs hKey hSound hAlike hIndexes hFree
          (fun hDup hTaken => hClash ⟨hDup, hTaken⟩) (hRoom.mono (Nat.le_add_right _ _))
        rw [← within_add hUse hRecord] at hIndexed
        obtain ⟨code, t'', keys', hRun, hCases⟩ := ih hNext hIndexed (hRooms _ hRoom) hSound.wellFormed
          hSound.ofTable (keys + 1)
        refine ⟨code, t'', keys', ?_, hCases⟩
        rw [← hRun]
        simp only [rebuildIndexScan, hLoad, hInsert]
    · rw [if_neg hUse]
      rw [← within_skip hUse] at hIndexes
      exact ih hNext hIndexes (hRoom.mono (Nat.le_add_left _ _)) hr hOf keys

/-- The field of each index is that of `insert_key`. -/
theorem Ready.indexField_eq (hM : M.Ready) (hi : M.fields[i]? = some field) : M.indexField i = some field := by
  rw [fields] at hi
  rw [indexField]
  by_cases hAll : M.primaryKey = -1
  · have hNone : ¬ M.HasSecKeys := by
      have hTrees := hM.numTrees
      rw [if_pos hAll] at hTrees
      rintro ⟨-, hMore⟩
      omega
    have hKey : M.keyField = 2 ^ 64 - 1 := by
      rw [Table.keyField, if_pos hAll]
      rfl
    rw [if_neg hNone, hKey] at hi
    rw [if_pos hAll]
    cases i with
    | zero => exact hi
    | succ i => cases hi
  · have hKey : M.keyField = fieldAt M.primaryKey := by rw [Table.keyField, if_neg hAll, fieldAt]
    rw [if_neg hAll]
    cases i with
    | zero =>
      rw [if_pos rfl, ← hKey]
      exact hi
    | succ i =>
      rw [if_neg (Nat.succ_ne_zero i), Nat.add_sub_cancel, ← List.getElem?_map]
      rw [List.getElem?_cons_succ] at hi
      split at hi
      · exact hi
      · cases hi

theorem Ready.index_le (hM : M.Ready) (hTrees : M.numTrees < 2 ^ 31) (hi : M.fields[i]? = some field) :
    ¬ wordOfInt (M.numTrees - 1) < i := by
  obtain ⟨hIn, -⟩ := List.getElem?_eq_some_iff.mp hi
  have hNum := hM.numTrees
  rw [fields, List.length_cons] at hIn
  have hLength : (i : Int) ≤ M.numTrees - 1 := by
    split at hIn
    · rename_i hSec
      have hMore := hSec.2
      rw [List.length_map] at hIn
      split at hNum <;> omega
    · rw [List.length_nil] at hIn
      split at hNum <;> omega
  rw [wordOfInt]
  omega

/-- A scan comes to a block exactly if there is a first one. -/
theorem firstBlock_ne_iff (h : d.Undamaged) (position : Int) :
    d.testFileHeader.firstBlock position 0 ≠ 0 ↔ d.scanBlocks ≠ [] := by
  obtain ⟨blocks, free, hIntact⟩ := h
  obtain ⟨hTested, -⟩ := hIntact.test
  rw [hTested.holds.firstBlock_eq, ← hIntact.scanBlocks_test.1]
  rcases hTested.holds.scanBlocks_cases with ⟨hNone, -⟩ | ⟨b, l, rfl, hStart, hSome, -⟩
  · rw [hNone]
    exact ⟨fun hNe => absurd rfl hNe, fun hNe => absurd rfl hNe⟩
  · have hPos := (hTested.holds.bounds (b := b) List.mem_cons_self).1
    rw [hStart]
    exact ⟨fun _ => hSome, fun _ => by omega⟩

/-- A data file of records without blocks that a scan comes to has no object. -/
theorem objects_eq_nil (hM : M.Ready) (h : M.InData R d) (hNone : d.scanBlocks = []) : d.objects = [] := by
  refine List.eq_nil_iff_forall_not_mem.mpr fun a ha => ?_
  obtain ⟨blocks, free, hIntact⟩ := h.undamaged
  obtain ⟨l, hl⟩ := Option.isSome_iff_exists.mp (hIntact.holds.mem_objects_iff.mp ha)
  obtain ⟨c, rfl⟩ : ∃ c : FAU, a = c + d.blockHeaderSize := ⟨a - d.blockHeaderSize, by omega⟩
  obtain ⟨r, hRecord, -⟩ := (h.blocks c l).mp hl
  rw [← within_scanBlocks hM h, hNone] at hRecord
  obtain ⟨-, b, hb, -⟩ := within_eq_some.mp hRecord
  cases hb

/-- `rebuild_index` gives the index one key for each record, unless it refuses one. -/
theorem rebuildIndex_run (hM : M.Ready) (hTrees : M.numTrees < 2 ^ 31) (h : M.InData R F.data)
    (hKeyed : ∀ a r, R a = some r → M.Keyed r)
    (hLimit : F.data.fileHeader.gxdEof + F.data.blockHeaderSize < 2 ^ 63) (hCounted : F.data.Counted)
    (hi : M.fields[i]? = some field) (hNew : t.Stores M.keyClass KeySet.empty)
    (hRoom : t.f.Room (maxLevels * F.data.scanBlocks.length)) (position : Fin 3 → Int) :
    ∃ (code : Int) (keys : Nat) (t' : Btree RdbmsKey), M.rebuildIndex position i t F = some (code, keys,
        ⟨F.data.testFileHeader, F.dataError, code = 1 ∧ F.data.scanBlocks ≠ [], F.indexes.set i t'⟩) ∧
      ((code = 1 ∧ M.Indexes R field t' ∧ M.Distinct R field) ∨ (code = -5 ∧ ¬ M.Distinct R field)) := by
  have hField : field ∈ M.fields := List.mem_of_getElem? hi
  have hSize : F.data.fileSize.toNat < findTurns := by
    obtain ⟨blocks, free, hIntact⟩ := h.undamaged
    have hEnd := hIntact.holds.limit
    have hEof := hIntact.holds.fileSize
    rw [findTurns]
    omega
  have hEmpty : M.Indexes (within R []) field t := by
    refine ⟨_, hNew, fun key => ⟨fun hMem => absurd hMem List.not_mem_nil, ?_⟩⟩
    rintro ⟨a, r, hRecord, -⟩
    obtain ⟨-, b, hb, -⟩ := within_eq_some.mp hRecord
    cases hb
  have hBlocks : F.data.testFileHeader.scanBlocks = F.data.scanBlocks := by
    obtain ⟨blocks, free, hIntact⟩ := h.undamaged
    exact hIntact.scanBlocks_test.1
  obtain ⟨code, t', keys, hRun, hCases⟩ : ∃ code t' keys, DataReel.rebuildIndex M.loadScanned (M.insertKey i)
      findTurns F.data position (some M.created.2) (some t) = some (code, some t', keys) ∧
        ((code = 1 ∧ M.Indexes R field t' ∧ M.Distinct R field) ∨ (code = -5 ∧ ¬ M.Distinct R field)) := by
    rw [DataReel.rebuildIndex, h.undamaged.recordScan_eq rebuildIndexScan_reads hLimit hSize]
    by_cases hNone : F.data.scanBlocks = []
    · have hTest : F.data.testFileHeader.fileSize.toNat < findTurns := by
        rwa [h.undamaged.testFileHeader.2.2.2.1]
      have hZero : F.data.testFileHeader.normalBlocks findTurns (position 1) (position 2) = some 0 := by
        rw [Database.normalBlocks_eq, h.undamaged.testFileHeader.1.normalBlocksRun_eq
          (hCounted.test h.undamaged) hTest, h.undamaged.objects_test, objects_eq_nil hM h hNone]
        rfl
      rw [if_pos hNone, hZero]
      rw [← hNone, within_scanBlocks hM h] at hEmpty
      refine ⟨1, t, 0, rfl, .inl ⟨rfl, hEmpty, fun _ a b r s hRecord => ?_⟩⟩
      rw [← within_scanBlocks hM h, hNone] at hRecord
      obtain ⟨-, c, hc, -⟩ := within_eq_some.mp hRecord
      cases hc
    · rw [if_neg hNone]
      obtain ⟨code, t', keys, hRun, hCases⟩ := rebuild_visits hM h.test hKeyed (hM.indexField_eq hi) hField
        (show _ = [] ++ _ from hBlocks) hEmpty hRoom hM.table.wellFormed (OfTable.refl _) 0
      refine ⟨code, t', keys, congrArg some hRun, ?_⟩
      rcases hCases with ⟨hOne, hIndexes⟩ | hFailed
      · exact .inl ⟨hOne, hIndexes, fun hDup a b r s hRecord hOther hValue =>
          hIndexes.unique hDup hRecord hOther hValue⟩
      · exact .inr hFailed
  refine ⟨code, keys, t', ?_, hCases⟩
  rw [rebuildIndex, if_neg (hM.index_le hTrees hi), hRun]
  simp only [Option.bind_eq_bind, Option.bind_some, h.undamaged.getEOF, firstBlock_ne_iff h.undamaged]
  rfl

/-! ## All indexes -/

/-- The calls that rebuild indexes: the file positions, the number of the index and the tree that `CreateIndex`
makes. A call answers what it returns if it does. -/
def rebuilds (M : RecordTable) : Machine ((Fin 3 → Int) × Nat × Btree RdbmsKey) (Option Int) TableFiles where
  step c F :=
    match M.rebuildIndex c.1 c.2.1 c.2.2 F with
    | none => (none, F)
    | some (code, _, F) => (some code, F)

/-- The data file has records, whatever the indexes have. -/
structure Rebuildable (M : RecordTable) (R : FAU → Option Record) (F : TableFiles) : Prop where
  data : M.InData R F.data
  keyed : ∀ a r, R a = some r → M.Keyed r
  limit : F.data.fileHeader.gxdEof + F.data.blockHeaderSize < 2 ^ 63
  counted : F.data.Counted
  blocks : F.data.scanBlocks ≠ []
  indexes : F.indexes.length = M.fields.length

/-- There is such an index, and its new tree is empty and has room for a key of each block. -/
structure Fresh (M : RecordTable) (blocks : Nat) (c : (Fin 3 → Int) × Nat × Btree RdbmsKey) : Prop where
  index : c.2.1 < M.fields.length
  tree : c.2.2.Stores M.keyClass KeySet.empty
  room : c.2.2.f.Room (maxLevels * blocks)

theorem Rebuildable.step (h : M.Rebuildable R F) (hM : M.Ready) (hTrees : M.numTrees < 2 ^ 31)
    (hDistinct : ∀ field ∈ M.fields, M.Distinct R field) {c : (Fin 3 → Int) × Nat × Btree RdbmsKey}
    (hc : M.Fresh F.data.scanBlocks.length c) :
    ∃ F' t', M.rebuilds.step c F = (some 1, F') ∧ M.Rebuildable R F' ∧ F'.usingIndex = true ∧
      F'.data.scanBlocks = F.data.scanBlocks ∧ F'.indexes = F.indexes.set c.2.1 t' ∧
      ∀ field, M.fields[c.2.1]? = some field → M.Indexes R field t' := by
  obtain ⟨field, hi⟩ : ∃ field, M.fields[c.2.1]? = some field := ⟨_, List.getElem?_eq_getElem hc.index⟩
  obtain ⟨code, keys, t', hRun, hCases⟩ := rebuildIndex_run hM hTrees h.data h.keyed h.limit h.counted hi hc.tree
    hc.room c.1
  have hStep : M.rebuilds.step c F = (some code, ⟨F.data.testFileHeader, F.dataError,
      code = 1 ∧ F.data.scanBlocks ≠ [], F.indexes.set c.2.1 t'⟩) := by
    simp only [rebuilds, hRun]
  obtain ⟨hBlocks, hSize, hEof⟩ : F.data.testFileHeader.scanBlocks = F.data.scanBlocks ∧
      F.data.testFileHeader.blockHeaderSize = F.data.blockHeaderSize ∧
      F.data.testFileHeader.fileHeader.gxdEof = F.data.fileHeader.gxdEof := by
    obtain ⟨blocks, free, hIntact⟩ := h.data.undamaged
    exact hIntact.scanBlocks_test
  rcases hCases with ⟨rfl, hIndexes, -⟩ | ⟨-, hNot⟩
  · refine ⟨_, t', hStep, ⟨h.data.test, h.keyed, ?_, h.counted.test h.data.undamaged, ?_, ?_⟩,
      decide_eq_true ⟨rfl, h.blocks⟩, hBlocks, rfl, fun field' hField => ?_⟩
    · rw [hSize, hEof]
      exact h.limit
    · rw [hBlocks]
      exact h.blocks
    · rw [List.length_set]
      exact h.indexes
    · exact Option.some.inj (hi.symm.trans hField) ▸ hIndexes
  · exact absurd (hDistinct field (List.mem_of_getElem? hi)) hNot

/-- The indexes that were rebuilt have one key for each record. -/
def Rebuilt (M : RecordTable) (R : FAU → Option Record) (done : Nat → Prop) (F : TableFiles) : Prop :=
  ∀ i field t, done i → M.fields[i]? = some field → F.indexes[i]? = some t → M.Indexes R field t

theorem rebuilds_run (hM : M.Ready) (hTrees : M.numTrees < 2 ^ 31)
    (hDistinct : ∀ field ∈ M.fields, M.Distinct R field) {calls : List ((Fin 3 → Int) × Nat × Btree RdbmsKey)}
    (h : M.Rebuildable R F) (hCalls : ∀ c ∈ calls, M.Fresh F.data.scanBlocks.length c) {done : Nat → Prop}
    (hDone : M.Rebuilt R done F) (hUsing : calls = [] → F.usingIndex = true) :
    (∀ reply ∈ (M.rebuilds.run calls F).1, reply = some 1) ∧ M.Rebuildable R (M.rebuilds.run calls F).2 ∧
      (M.rebuilds.run calls F).2.usingIndex = true ∧
      M.Rebuilt R (fun i => done i ∨ ∃ c ∈ calls, c.2.1 = i) (M.rebuilds.run calls F).2 := by
  induction calls generalizing F done with
  | nil =>
    refine ⟨fun reply hMem => absurd hMem List.not_mem_nil, h, hUsing rfl, ?_⟩
    rintro i field t (hHere | ⟨c, hc, -⟩)
    · exact hDone i field t hHere
    · cases hc
  | cons c calls ih =>
    obtain ⟨hc, hCalls⟩ := List.forall_mem_cons.mp hCalls
    obtain ⟨F', t', hStep, hNext, hOn, hBlocks, hSet, hIndexes⟩ := h.step hM hTrees hDistinct hc
    have hDone' : M.Rebuilt R (fun i => done i ∨ c.2.1 = i) F' := by
      intro i field t hHere hi ht
      rw [hSet] at ht
      by_cases hSame : c.2.1 = i
      · subst hSame
        rw [List.getElem?_set_self (h.indexes ▸ hc.index)] at ht
        exact Option.some.inj ht ▸ hIndexes field hi
      · rw [List.getElem?_set_ne hSame] at ht
        exact hDone i field t (hHere.resolve_right hSame) hi ht
    obtain ⟨hReplies, hLast, hOn', hAll⟩ := ih hNext (hBlocks ▸ hCalls) hDone' fun _ => hOn
    rw [Machine.run, hStep]
    refine ⟨List.forall_mem_cons.mpr ⟨rfl, hReplies⟩, hLast, hOn', fun i field t hHere => hAll i field t ?_⟩
    rcases hHere with hHere | ⟨c', hc', hAt⟩
    · exact .inl (.inl hHere)
    · rcases List.mem_cons.mp hc' with rfl | hc'
      · exact .inl (.inr hAt)
      · exact .inr ⟨c', hc', hAt⟩

instance (d : Database) : Decidable d.Counted :=
  decidable_of_iff ((d.testFileHeader.rev.hasStats = true →
      d.testFileHeader.fileStats.numBlocks = d.blocks.length ∧
        d.testFileHeader.fileStats.deletedBlocks + d.testFileHeader.fileStats.removedBlocks =
          d.blocks.countP fun b => b.2.isFree) ∧
      (d.testFileHeader.rev.hasStats = false → d.blocks = [] ∨ d.scanBlocks ≠ []))
    ⟨fun h => ⟨h.1, h.2⟩, fun h => ⟨h.stats, h.start⟩⟩

theorem boolTree_stores (M : RecordTable) : boolTree.Stores M.keyClass KeySet.empty := by
  have hCreate : Btree.create (.ofRevision .E 11 24) 11 24 1 none = .ok () boolTree := rfl
  exact Btree.create_stores (by decide) (by decide) hCreate

end RecordTable

/-! ## Indexes that are off -/

/-- The indexes are off, and they are what they were. -/
structure TableFiles.Off (F F' : TableFiles) : Prop where
  usingIndex : F'.usingIndex = false
  indexes : F'.indexes = F.indexes

namespace RecordTable

variable {M : RecordTable} {F F' F₀ : TableFiles} {position : Int} {r r' old new : Record} {err : TableError}
  {s : Found} {a b : FAU}

theorem readAt_off (h : F₀.Off F) (hRun : M.readAt position r a F = some (err, r', F')) : F₀.Off F' := by
  rw [readAt] at hRun
  repeat' split at hRun
  all_goals cases hRun
  all_goals exact ⟨h.usingIndex, h.indexes⟩

theorem findByScan_off (h : F₀.Off F) {field : Nat} {caseCmp alphaCmp : Bool}
    (hRun : M.findByScan position r field caseCmp alphaCmp F = some s) : F₀.Off s.files := by
  simp only [findByScan, Option.bind_eq_bind, Option.bind_eq_some_iff] at hRun
  obtain ⟨p, -, hRun⟩ := hRun
  split at hRun
  · cases hRun
    exact ⟨h.usingIndex, h.indexes⟩
  · simp only [Option.bind_eq_some_iff] at hRun
    obtain ⟨found, -, v, -, hRun⟩ := hRun
    cases hRun
    exact ⟨h.usingIndex, h.indexes⟩

theorem find_off (h : F₀.Off F) {field : Nat} {caseCmp alphaCmp : Bool}
    (hRun : M.find position r field caseCmp alphaCmp F = some s) : F₀.Off s.files := by
  rw [find] at hRun
  split at hRun
  · split at hRun
    · rw [h.usingIndex, if_neg Bool.false_ne_true] at hRun
      exact findByScan_off h hRun
    · exact findByScan_off h hRun
  · cases hRun
    exact ⟨h.usingIndex, h.indexes⟩

theorem findSecKeys_off {numbers : List Int} (h : F₀.Off F)
    (hRun : M.findSecKeys position numbers r F = some s) : F₀.Off s.files := by
  induction numbers generalizing r F with
  | nil =>
    cases hRun
    exact h
  | cons number numbers ih =>
    simp only [findSecKeys, Option.bind_eq_bind, Option.bind_eq_some_iff] at hRun
    obtain ⟨s', hFind, hRun⟩ := hRun
    split at hRun
    · cases hRun
      exact find_off h hFind
    · exact ih (find_off h hFind) hRun

theorem findRecordKey_off (h : F₀.Off F) (hRun : M.findRecordKey position r F = some s) : F₀.Off s.files := by
  simp only [findRecordKey, Option.bind_eq_bind, Option.bind_eq_some_iff] at hRun
  obtain ⟨s', hFind, hRun⟩ := hRun
  split at hRun
  · cases hRun
    exact find_off h hFind
  · split at hRun
    · exact findSecKeys_off (find_off h hFind) hRun
    · cases hRun
      exact find_off h hFind

theorem write_off (h : F₀.Off F) (hRun : M.write position r a F = some (err, b, F')) : F₀.Off F' := by
  rw [write] at hRun
  split at hRun
  · cases hRun
    exact ⟨h.usingIndex, h.indexes⟩
  · simp only [Option.bind_eq_bind, Option.bind_eq_some_iff] at hRun
    obtain ⟨created, -, hRun⟩ := hRun
    cases created with
    | error err =>
      cases hRun
      exact ⟨h.usingIndex, h.indexes⟩
    | ok disk =>
      simp only [Option.bind_eq_some_iff, addKeys, h.usingIndex, Bool.false_eq_true, if_false] at hRun
      obtain ⟨⟨c, d⟩, -, ⟨err', F''⟩, hAdd, hRun⟩ := hRun
      cases hAdd
      cases hRun
      exact ⟨rfl, h.indexes⟩

theorem deleteKeys_off (h : F₀.Off F) (r : Record) (a : FAU) : M.deleteKeys r a F = some (.noError, a, F) := by
  rw [deleteKeys, h.usingIndex, if_neg Bool.false_ne_true]

theorem delete_off (h : F₀.Off F) (position objectAddress : Int) : F₀.Off (F.delete position objectAddress).2 :=
  ⟨h.usingIndex, h.indexes⟩

theorem reinsert_off (h : F₀.Off F) {done : Bool} (hRun : M.reinsert position old new a F = some (done, b, F')) :
    F₀.Off F' := by
  have hBlock : F₀.Off (deleteBlock position a F).2 := by
    rw [deleteBlock]
    split
    · exact ⟨h.usingIndex, h.indexes⟩
    · exact delete_off h _ _
  simp only [reinsert, deleteKeys_off h, Option.bind_eq_bind, Option.bind_some, ne_eq, not_true_eq_false,
    if_false] at hRun
  split at hRun
  · simp only [Option.bind_eq_some_iff] at hRun
    obtain ⟨⟨err, c, F''⟩, hWrite, hRun⟩ := hRun
    cases hRun
    exact write_off hBlock hWrite
  · cases hRun
    exact hBlock

theorem overWriteRecord_off (h : F₀.Off F) {done : Bool}
    (hRun : M.overWriteRecord position r a F = some (done, b, F')) : F₀.Off F' := by
  rw [overWriteRecord] at hRun
  split at hRun
  · cases hRun
    exact ⟨h.usingIndex, h.indexes⟩
  · split at hRun
    · cases hRun
      exact ⟨h.usingIndex, h.indexes⟩
    · simp only [Option.bind_eq_bind, Option.bind_eq_some_iff] at hRun
      obtain ⟨size, -, hRun⟩ := hRun
      split at hRun
      · simp only [Option.bind_eq_some_iff] at hRun
        obtain ⟨⟨err, old, F''⟩, hRead, hRun⟩ := hRun
        have hOff := readAt_off h hRead
        cases err with
        | noError => exact reinsert_off hOff hRun
        | _ =>
          cases hRun
          exact hOff
      · simp only [Option.bind_eq_some_iff] at hRun
        obtain ⟨created, -, hRun⟩ := hRun
        cases created <;> cases hRun <;> exact ⟨h.usingIndex, h.indexes⟩

theorem findRecord_off (h : F₀.Off F) {loadRecord : Bool} {o : RecordOutcome}
    (hRun : M.findRecord position r loadRecord F = some o) : F₀.Off o.files := by
  simp only [findRecord, Option.bind_eq_bind, Option.bind_eq_some_iff] at hRun
  obtain ⟨s, hFind, hRun⟩ := hRun
  have hOff := findRecordKey_off h hFind
  split at hRun
  · cases hRun
    exact ⟨hOff.usingIndex, hOff.indexes⟩
  · split at hRun
    · simp only [readRecord, Option.bind_eq_bind, Option.bind_eq_some_iff] at hRun
      obtain ⟨o', ⟨⟨err, r', F'⟩, hRead, hReply⟩, hRun⟩ := hRun
      cases hReply
      cases hRun
      exact readAt_off hOff hRead
    · cases hRun
      exact hOff

theorem addRecord_off (h : F₀.Off F) {o : RecordOutcome} (hRun : M.addRecord position r F = some o) :
    F₀.Off o.files := by
  simp only [addRecord, Option.bind_eq_bind] at hRun
  split at hRun
  · simp only [Option.bind_some, ne_eq, not_true_eq_false, if_false, Option.bind_eq_some_iff] at hRun
    obtain ⟨⟨err, c, F'⟩, hWrite, hRun⟩ := hRun
    cases hRun
    exact write_off h hWrite
  · obtain ⟨s, hFind, hRun⟩ := Option.bind_eq_some_iff.mp hRun
    have hOff := findRecordKey_off h hFind
    split at hRun
    · cases hRun
      exact ⟨hOff.usingIndex, hOff.indexes⟩
    · simp only [Option.bind_eq_some_iff] at hRun
      obtain ⟨⟨err, c, F'⟩, hWrite, hRun⟩ := hRun
      cases hRun
      exact write_off hOff hWrite

theorem deleteRecord_off (h : F₀.Off F) {o : RecordOutcome} (hRun : M.deleteRecord position r F = some o) :
    F₀.Off o.files := by
  rw [deleteRecord] at hRun
  split at hRun
  · cases hRun
    exact ⟨h.usingIndex, h.indexes⟩
  · rw [h.usingIndex, if_neg Bool.false_ne_true] at hRun
    simp only [Option.bind_eq_bind, Option.bind_eq_some_iff] at hRun
    obtain ⟨s, hFind, hRun⟩ := hRun
    have hOff := find_off h hFind
    split at hRun
    · cases hRun
      exact hOff
    · cases hRun
      exact delete_off hOff _ _

theorem rekey_off (h : F₀.Off F) (old new : Record) (a : FAU) :
    M.rekey old new a F = some (.noError, F.setDataError .noError) := by
  rw [rekey, h.usingIndex, if_neg Bool.false_ne_true]

theorem changeRecord_off (h : F₀.Off F) {add : Bool} {o : RecordOutcome}
    (hRun : M.changeRecord position old new add 0 F = some o) : F₀.Off o.files := by
  simp only [changeRecord, Option.bind_eq_bind, Option.bind_eq_some_iff] at hRun
  obtain ⟨⟨err, r, c, F'⟩, hChange, hRun⟩ := hRun
  cases hRun
  change F₀.Off F'
  rw [changeOrAddRecord] at hChange
  split at hChange
  · cases hChange
    exact ⟨h.usingIndex, h.indexes⟩
  · simp only [if_true, Option.bind_eq_bind, Option.bind_eq_some_iff] at hChange
    obtain ⟨o, hFound, hChange⟩ := hChange
    have hOff := findRecord_off h hFound
    split at hChange
    · split at hChange
      · simp only [Option.bind_eq_some_iff] at hChange
        obtain ⟨⟨err, c, F''⟩, hWrite, hChange⟩ := hChange
        cases hChange
        exact write_off hOff hWrite
      · cases hChange
        exact ⟨hOff.usingIndex, hOff.indexes⟩
    · split at hChange
      · cases hChange
        exact hOff
      · simp only [Option.bind_eq_some_iff] at hChange
        obtain ⟨m, -, n, -, hChange⟩ := hChange
        split at hChange
        · simp only [Option.bind_eq_some_iff] at hChange
          obtain ⟨⟨done, c, F''⟩, hMove, hChange⟩ := hChange
          have hMoved := reinsert_off hOff hMove
          split at hChange <;> cases hChange
          · exact ⟨hMoved.usingIndex, hMoved.indexes⟩
          · exact hMoved
        · simp only [Option.bind_eq_some_iff] at hChange
          obtain ⟨⟨done, c, F''⟩, hOver, hChange⟩ := hChange
          have hDone := overWriteRecord_off hOff hOver
          split at hChange
          · cases hChange
            exact hDone
          · split at hChange
            · cases hChange
              exact ⟨hDone.usingIndex, hDone.indexes⟩
            · rw [rekey_off hDone] at hChange
              cases hChange
              exact ⟨hDone.usingIndex, hDone.indexes⟩

theorem putField_off (h : F₀.Off F) {data : List UInt8} {col : Nat} {done : Bool}
    (hRun : M.putField position old new data col a F = some (done, b, F')) : F₀.Off F' := by
  simp only [putField, Option.bind_eq_bind, Option.bind_eq_some_iff] at hRun
  obtain ⟨m, -, n, -, hRun⟩ := hRun
  split at hRun
  · exact reinsert_off h hRun
  · obtain ⟨offset, -, hRun⟩ := Option.bind_eq_some_iff.mp hRun
    cases offset with
    | error err =>
      cases hRun
      exact ⟨h.usingIndex, h.indexes⟩
    | ok offset =>
      simp only [rekeyField, h.usingIndex, Bool.false_eq_true, if_false, Option.bind_some] at hRun
      cases hRun
      exact ⟨rfl, h.indexes⟩

theorem changeRecordField_off (h : F₀.Off F) {data : List UInt8} {col : Nat} {done : Bool}
    (hRun : M.changeRecordField position data col a F = some (done, b, F')) : F₀.Off F' := by
  rw [changeRecordField] at hRun
  split at hRun
  · cases hRun
    exact ⟨h.usingIndex, h.indexes⟩
  split at hRun
  · cases hRun
    exact ⟨h.usingIndex, h.indexes⟩
  obtain ⟨⟨err, prev, F''⟩, hRead, hRun⟩ := Option.bind_eq_some_iff.mp hRun
  have hOff := readAt_off h hRead
  cases err with
  | noError =>
    obtain ⟨⟨err, record⟩, -, hRun⟩ := Option.bind_eq_some_iff.mp hRun
    dsimp only at hRun
    split at hRun
    · cases hRun
      exact ⟨hOff.usingIndex, hOff.indexes⟩
    · split at hRun
      · exact putField_off hOff hRun
      · obtain ⟨hdr, -, hRun⟩ := Option.bind_eq_some_iff.mp hRun
        exact putField_off hOff hRun
  | _ =>
    cases hRun
    exact hOff

/-- A call on records turns no index on and changes none where they are off. -/
theorem perform_off (h : F₀.Off F) {c : TableCall} {o : RecordOutcome} (hRun : c.perform M position F = some o) :
    F₀.Off o.files := by
  cases c with
  | add r => exact addRecord_off h hRun
  | find r loadRecord => exact findRecord_off h hRun
  | delete r => exact deleteRecord_off h hRun
  | change old new orAdd => exact changeRecord_off h hRun
  | changeField data col a =>
    obtain ⟨⟨done, b, F'⟩, hChange, rfl⟩ := Option.map_eq_some_iff.mp hRun
    exact changeRecordField_off h hChange

end RecordTable

end DataReel
