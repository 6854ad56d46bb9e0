import DataReel.Table.ListRun

/-! # Pages of a sort order list

A page is asked for by the numbers of its first and its last record, from one. The loop counts the
keys from zero, so that a page behind the first one begins a record late, and a list loses records
that compare equal.
-/

namespace DataReel

open Record (Alike ofFields ofFields_wellFormed)

section Follows

variable {dup useBinarySearch useSingleCompare : Bool} {t : Btree RdbmsKey}
  {A : KeySet (rdbmsKey dup useBinarySearch useSingleCompare).comparison}

/-- Where the values of the keys are different, a walk goes through all of them. -/
theorem Btree.Stores.follows (h : t.Stores (rdbmsKey dup useBinarySearch useSingleCompare) A)
    (hSorted : (rdbmsKey false useBinarySearch useSingleCompare).comparison.Sorted t.keys)
    {l : List RdbmsKey} {key : RdbmsKey} {rs : List Row} (hKeys : t.keys = l ++ key :: rs.map Row.key) :
    Follows (rdbmsKey false useBinarySearch useSingleCompare) t key rs ∧
      (gxBtree (rdbmsKey false useBinarySearch useSingleCompare)).step (.findNext (lastKey key rs)) t =
        (.zero, t) := by
  have hNext := h.findNext (rdbmsKey_strictOrder false useBinarySearch useSingleCompare) hSorted hKeys
  induction rs generalizing l key with
  | nil => exact ⟨trivial, hNext⟩
  | cons row rs ih =>
    have hKeys' : t.keys = (l ++ [key]) ++ row.key :: rs.map Row.key := by
      rw [hKeys, List.append_assoc]
      rfl
    have hRest := ih hKeys' (h.findNext (rdbmsKey_strictOrder _ _ _) hSorted hKeys')
    exact ⟨⟨hNext, hRest.1⟩, hRest.2⟩

end Follows

namespace Table

/-- A list holds the records of rows. -/
def Lists (M : Table) (list : List ListRecord) (rows : List Row) : Prop :=
  ∃ order : List Row, order.Perm rows ∧
    List.Forall₂ (fun e row => Alike M.types e.record row.record) list order

/-- The lists for pages of a size are of the rows one after another. -/
def Pages (M : Table) (K : KeyClass RdbmsKey) (d : Database) (t : Btree RdbmsKey) (rows : List Row)
    (indexNumber keyNumber : Nat) (caseCmp alphaCmp : Bool) (listLimit : FAU) (n : Nat)
    (position : Nat → Fin 3 → Int) (size : Nat) : Prop :=
  ∀ page, page * size < rows.length → ∃ list reads,
    M.sortOrderList K d indexNumber keyNumber caseCmp alphaCmp listLimit ((page * size : Nat) + 1)
        (min ((page + 1) * size) rows.length : Nat) n (position page) t = some ⟨.noError, list, reads⟩ ∧
      M.Lists list ((rows.drop (page * size)).take size)

section Walk

variable {keyNumber : Nat} {caseCmp alphaCmp : Bool} {listLimit listStart listEnd : Int}
  {rows rs : List Row} {row : Row}

/-- From the first row on, the rows to the end of the page are read. -/
theorem picks_first {keyCount recordCount : Int} (hKeys : 1 ≤ keyCount) (hEnd : listEnd ≤ listLimit)
    (hCount : recordCount ≤ listEnd) :
    (sortOrderWalk keyNumber caseCmp alphaCmp listLimit 1 listEnd).picks keyCount recordCount rs =
      rs.take (listEnd - recordCount).toNat := by
  induction rs generalizing keyCount recordCount with
  | nil => simp [ListWalk.picks]
  | cons row rs ih =>
    rw [ListWalk.picks]
    by_cases hFull : recordCount = listEnd
    · have hComplete : (sortOrderWalk keyNumber caseCmp alphaCmp listLimit 1 listEnd).complete
          recordCount = true := by simp [sortOrderWalk, hFull]
      rw [if_pos hComplete, hFull, Int.sub_self]
      rfl
    · have hMore : ¬ (sortOrderWalk keyNumber caseCmp alphaCmp listLimit 1 listEnd).complete
          recordCount = true := by
        have hNot : ¬ (listEnd - 1 + 1 ≤ recordCount ∨ listLimit ≤ recordCount ∨
            listEnd ≤ recordCount) := by omega
        simpa only [sortOrderWalk, decide_eq_true_eq] using hNot
      have hTakes : (sortOrderWalk keyNumber caseCmp alphaCmp listLimit 1 listEnd).takes keyCount =
          true := by simpa [sortOrderWalk] using hKeys
      obtain ⟨k, hk⟩ : ∃ k, (listEnd - recordCount).toNat = k + 1 :=
        ⟨(listEnd - recordCount).toNat - 1, by omega⟩
      have hk' : (listEnd - (recordCount + 1)).toNat = k := by omega
      rw [if_neg hMore, if_pos hTakes, ih (by omega) (by omega), hk, hk', List.take_succ_cons]

theorem reads_first {size : Nat} (hSize : 1 ≤ size) (hEnd : (size : Int) ≤ listLimit) :
    (sortOrderWalk keyNumber caseCmp alphaCmp listLimit 1 size).reads rows = rows.take size := by
  cases rows with
  | nil => simp [ListWalk.reads]
  | cons row rs =>
    obtain ⟨k, rfl⟩ : ∃ k, size = k + 1 := ⟨size - 1, by omega⟩
    have hFirst : (sortOrderWalk keyNumber caseCmp alphaCmp listLimit 1 (k + 1 : Nat)).takesFirst = true := by
      simp [sortOrderWalk]
    have hk : ((k + 1 : Nat) - 1 : Int).toNat = k := by omega
    rw [ListWalk.reads, if_pos hFirst, picks_first le_rfl hEnd (by omega), hk, List.take_succ_cons]

/-- A page behind the first one reads only rows behind its first one. -/
theorem mem_picks {keyCount recordCount : Int}
    (h : row ∈ (sortOrderWalk keyNumber caseCmp alphaCmp listLimit listStart listEnd).picks keyCount
      recordCount rs) : row ∈ rs.drop (listStart - keyCount).toNat := by
  induction rs generalizing keyCount recordCount with
  | nil => cases h
  | cons row' rs ih =>
    rw [ListWalk.picks] at h
    by_cases hTakes : listStart ≤ keyCount
    · have hNone (k : Int) (hk : keyCount ≤ k) : (listStart - k).toNat = 0 := by omega
      rw [hNone keyCount le_rfl, List.drop_zero]
      split at h
      · cases h
      · split at h
        · rcases List.mem_cons.mp h with rfl | h
          · exact List.mem_cons_self
          · exact List.mem_cons_of_mem _ (List.mem_of_mem_drop (ih h))
        · exact List.mem_cons_of_mem _ (List.mem_of_mem_drop (ih h))
    · have hSkips : ¬ (sortOrderWalk keyNumber caseCmp alphaCmp listLimit listStart listEnd).takes
          keyCount = true := by simpa [sortOrderWalk] using hTakes
      obtain ⟨k, hk⟩ : ∃ k, (listStart - keyCount).toNat = k + 1 :=
        ⟨(listStart - keyCount).toNat - 1, by omega⟩
      have hk' : (listStart - (keyCount + 1)).toNat = k := by omega
      rw [if_neg hSkips] at h
      split at h
      · cases h
      · have hMem := ih h
        rw [hk'] at hMem
        rwa [hk, List.drop_succ_cons]

theorem mem_reads (hStart : 1 < listStart)
    (h : row ∈ (sortOrderWalk keyNumber caseCmp alphaCmp listLimit listStart listEnd).reads rows) :
    row ∈ rows.drop listStart.toNat := by
  cases rows with
  | nil => cases h
  | cons first rs =>
    have hFirst : ¬ (sortOrderWalk keyNumber caseCmp alphaCmp listLimit listStart listEnd).takesFirst =
        true := by
      have hNot : ¬ (listStart = 0 ∨ listStart = 1) := by omega
      simpa only [sortOrderWalk, decide_eq_true_eq] using hNot
    rw [ListWalk.reads, if_neg hFirst] at h
    obtain ⟨k, hk⟩ : ∃ k, listStart.toNat = k + 1 := ⟨listStart.toNat - 1, by omega⟩
    have hk' : (listStart - 1).toNat = k := by omega
    rw [hk, List.drop_succ_cons, ← hk']
    exact mem_picks h

end Walk

section Lists

variable {M : Table} {d : Database} {rows rs : List Row} {list : List ListRecord} {l : List Record}

theorem Lists.of_perm (hList : List.Forall₂ (M.Entry rows) list l) (hPerm : l.Perm (rs.map Row.record)) :
    M.Lists list rs := by
  have hSelf : List.Forall₂ (fun r row => r = Row.record row) (rs.map Row.record) rs := by
    rw [List.forall₂_map_left_iff, List.forall₂_same]
    exact fun row _ => rfl
  obtain ⟨order, hOrder, hRows⟩ := List.perm_comp_forall₂ hPerm hSelf
  refine ⟨order, hRows, ?_⟩
  rw [← List.forall₂_map_right_iff, List.forall₂_eq_eq_eq] at hOrder
  rw [hOrder, List.forall₂_map_right_iff] at hList
  exact hList.imp fun e row hEntry => hEntry.alike

theorem Lists.length (h : M.Lists list rs) : list.length = rs.length := by
  obtain ⟨order, hPerm, hList⟩ := h
  exact hList.length_eq.trans hPerm.length_eq

/-- Each of the rows is that of a record that is put in. -/
theorem Lists.mem {row : Row} (h : M.Lists list rs) (hList : List.Forall₂ (M.Entry rows) list l)
    (hRow : row ∈ rs) : ∃ r ∈ l, Alike M.types row.record r := by
  obtain ⟨order, hPerm, hOrder⟩ := h
  obtain ⟨e, he, hAlike⟩ := forall₂_exists hOrder.flip (hPerm.mem_iff.mpr hRow)
  obtain ⟨r, hr, hEntry⟩ := forall₂_exists hList he
  exact ⟨r, hr, hAlike.symm.trans hEntry.alike⟩

end Lists

namespace Agrees

variable {M : Table} {d : Database} {dup useBinarySearch useSingleCompare : Bool} {t : Btree RdbmsKey}
  {field : Nat} {rows : List Row}

theorem readable (h : M.Agrees d dup useBinarySearch useSingleCompare t field rows) :
    M.Readable d.testFileHeader rows :=
  ⟨h.ready, h.undamaged.testFileHeader.1, fun _ hRow => h.stored_test hRow⟩

/-- Records with the same contents have the same keys. -/
theorem createKey_alike (h : M.Agrees d dup useBinarySearch useSingleCompare t field rows) {row row' : Row}
    (hRow : row ∈ rows) (hRow' : row' ∈ rows) (hSame : Alike M.types row.record row'.record) (i : Nat) :
    row.record.createKey M.types i M.compareCase = row'.record.createKey M.types i M.compareCase := by
  have hStored := h.stored row hRow
  have hStored' := h.stored row' hRow'
  rw [Record.createKey_eq hStored.wellFormed (hStored.dbRecord_ne h.ready) hStored.diskLength hStored.wide,
    Record.keyImages_same hSame.contents hSame.definition.numFields,
    Record.createKey_eq hStored'.wellFormed (hStored'.dbRecord_ne h.ready) hStored'.diskLength hStored'.wide]

theorem key_eq (h : M.Agrees d dup useBinarySearch useSingleCompare t field rows) {row row' : Row}
    (hRow : row ∈ rows) (hRow' : row' ∈ rows) (hSame : Alike M.types row.record row'.record) :
    row.key.k = row'.key.k := by
  have hKey := h.createKey_alike hRow hRow' hSame field
  rw [h.made row hRow, h.made row' hRow'] at hKey
  exact Option.some.inj hKey

variable {row : Row} {rs : List Row}
  (h : M.Agrees d false useBinarySearch useSingleCompare t field (row :: rs))

include h

theorem sorted : (rdbmsKey false useBinarySearch useSingleCompare).comparison.Sorted t.keys := by
  obtain ⟨A, hStores⟩ := h.index
  rw [hStores.keys]
  exact A.sorted

theorem values_nodup : ((row :: rs).map fun row => row.key.k).Nodup := by
  have hSorted := h.sorted
  rw [h.keys] at hSorted
  have hLess := List.pairwise_map.mp hSorted
  exact List.pairwise_map.mpr (hLess.imp fun {a b} hLt => (rdbmsKey_lt_false.mp hLt).ne)

/-- A list of part of the rows. -/
theorem sortOrderList_eq {indexNumber keyNumber n : Nat} (caseCmp alphaCmp : Bool)
    (listLimit : Int) {listStart listEnd : Int} (hIndex : indexNumber ≤ wordOfInt (M.numTrees - 1))
    (hKey : keyNumber = 2 ^ 64 - 1 ∨ keyNumber ≤ M.created.2.numFields) (hStart : 1 ≤ listStart)
    (hEnd : listStart ≤ listEnd) (hRows : listEnd ≤ ((row :: rs).length : Nat))
    (hFile : d.fileSize.toNat < n) (hn : rs.length < n) (position : Fin 3 → Int) :
    let W := sortOrderWalk keyNumber caseCmp alphaCmp listLimit listStart listEnd
    ∃ list l, M.sortOrderList (rdbmsKey false useBinarySearch useSingleCompare) d indexNumber keyNumber
        caseCmp alphaCmp listLimit listStart listEnd n position t =
        some ⟨.noError, list, (W.reads (row :: rs)).map (·.key.kid)⟩ ∧
      setInsertAll M.rowLess ((W.reads (row :: rs)).map Row.record) [] = some l ∧
      List.Forall₂ (M.Entry (row :: rs)) list l := by
  intro W
  obtain ⟨A, hStores⟩ := h.index
  have hFollows := hStores.follows (l := []) h.sorted h.keys
  have hFirst : (gxBtree (rdbmsKey false useBinarySearch useSingleCompare)).step .findFirst t =
      (.found row.key, t) := by
    rw [hStores.findFirst, h.keys]
    rfl
  obtain ⟨list, l, hRun, hAll, hList⟩ := h.readable.listKeys_eq (W := W) (w := fun _ => true) hFirst
    (fun _ hRow => hRow) (fun _ _ _ _ => rfl) hFollows.1 (.inl hFollows.2) hn (position 2)
  rw [List.filter_eq_self.mpr fun _ _ => rfl] at hAll
  refine ⟨list, l, ?_, hAll, hList⟩
  have hBlocks : ((row :: rs).length : Int) ≠ 0 := by
    rw [List.length_cons]
    omega
  have hTests : M.listTests keyNumber ((row :: rs).length : Nat)
      (decide (¬ ((row :: rs).length : Int) < listStart ∧ ¬ ((row :: rs).length : Int) < listEnd ∧
        ¬ listEnd < listStart ∧ ¬ ((row :: rs).length : Int) < listEnd - listStart)) = none := by
    rw [listTests, if_neg hBlocks, decide_eq_true (by omega), if_neg (by decide),
      if_neg (not_not.mpr h.ready.created), if_neg]
    rintro ⟨hNot, hLess⟩
    exact hKey.elim hNot (Nat.not_le.mpr hLess)
  rw [sortOrderList, if_neg (Nat.not_lt.mpr hIndex)]
  simp only [h.normalBlocksRun hFile, Option.bind_eq_bind, Option.bind_some, Option.pure_def]
  rw [hTests]
  exact hRun

section Pages

variable {indexNumber keyNumber size n : Nat} {caseCmp alphaCmp : Bool} {listLimit : Int}
  {position : Nat → Fin 3 → Int} (hIndex : indexNumber ≤ wordOfInt (M.numTrees - 1))
  (hKey : keyNumber = 2 ^ 64 - 1 ∨ keyNumber ≤ M.created.2.numFields) (hFile : d.fileSize.toNat < n)
  (hn : rs.length < n)

include hIndex hKey hFile hn

/-- The second page is without its first row. -/
theorem pages_fit (hSize : 1 ≤ size) (hPages : M.Pages (rdbmsKey false useBinarySearch useSingleCompare) d t
    (row :: rs) indexNumber keyNumber caseCmp alphaCmp listLimit n position size) :
    (row :: rs).length ≤ size := by
  by_contra hMore
  obtain ⟨list, reads, hRun, hLists⟩ := hPages 1 (by omega)
  rw [Nat.one_mul] at hRun hLists
  have hStart : (1 : Int) ≤ (size : Int) + 1 := by omega
  have hEnd : (size : Int) + 1 ≤ (min ((1 + 1) * size) (row :: rs).length : Nat) := by omega
  obtain ⟨list', l, hRun', hAll, hList⟩ := h.sortOrderList_eq caseCmp alphaCmp listLimit hIndex hKey hStart
    hEnd (by omega) hFile hn (position 1)
  obtain ⟨-, rfl, -⟩ : _ ∧ list = list' ∧ _ := by
    simpa only [Option.some.injEq, Listed.mk.injEq] using hRun.symm.trans hRun'
  obtain ⟨first, rest, hSplit⟩ : ∃ first rest, (row :: rs).drop size = first :: rest := by
    exact List.exists_cons_of_ne_nil (by rw [ne_eq, List.drop_eq_nil_iff]; omega)
  have hFirst : first ∈ ((row :: rs).drop size).take size := by
    obtain ⟨k, rfl⟩ : ∃ k, size = k + 1 := ⟨size - 1, by omega⟩
    rw [hSplit, List.take_succ_cons]
    exact List.mem_cons_self
  obtain ⟨r, hr, hAlike⟩ := hLists.mem hList hFirst
  obtain ⟨other, hOther, rfl⟩ := List.mem_map.mp ((setInsertAll_subset hAll r hr).resolve_right nofun)
  have hLater := mem_reads (by omega) hOther
  have hBehind : (((size : Nat) : Int) + 1).toNat = size + 1 := by omega
  rw [hBehind, ← List.drop_drop, hSplit, List.drop_one, List.tail_cons] at hLater
  have hSame := h.key_eq (List.mem_of_mem_drop (hSplit ▸ List.mem_cons_self))
    (List.mem_of_mem_drop (hSplit ▸ List.mem_cons_of_mem first hLater)) hAlike
  have hRows : row :: rs = (row :: rs).take size ++ first :: rest := by
    rw [← hSplit, List.take_append_drop]
  have hNodup := h.values_nodup
  rw [hRows, List.map_append, List.map_cons] at hNodup
  have hAlone := (List.nodup_cons.mp (List.nodup_append.mp hNodup).2.1).1
  exact hAlone (hSame ▸ List.mem_map_of_mem hLater)

/-- A page for all rows. -/
theorem first_page (caseCmp alphaCmp : Bool) (hLimit : ((row :: rs).length : Int) ≤ listLimit)
    (position : Fin 3 → Int) :
    ∃ list l, M.sortOrderList (rdbmsKey false useBinarySearch useSingleCompare) d indexNumber keyNumber
        caseCmp alphaCmp listLimit 1 (row :: rs).length n position t =
        some ⟨.noError, list, (row :: rs).map (·.key.kid)⟩ ∧
      setInsertAll M.rowLess ((row :: rs).map Row.record) [] = some l ∧
      List.Forall₂ (M.Entry (row :: rs)) list l := by
  have hReads : (sortOrderWalk keyNumber caseCmp alphaCmp listLimit 1 (row :: rs).length).reads
      (row :: rs) = row :: rs := by
    rw [reads_first (by rw [List.length_cons]; omega) hLimit, List.take_length]
  have hRun := h.sortOrderList_eq caseCmp alphaCmp listLimit hIndex hKey le_rfl
    (by rw [List.length_cons]; omega) le_rfl hFile hn position
  dsimp only at hRun
  rwa [hReads] at hRun

end Pages

end Agrees

end Table

/-! ## A table with one BOOL field -/

/-- A record of one field of one byte. -/
def boolRecord (b : UInt8) : Record := ofFields .portable [(.bool, [b])]

def boolTable : Table := ⟨.portable, (.noError, boolRecord 0), 1, 1, true, true⟩

/-- `AddBlock` and a write of the bytes. -/
def Database.put (d : Database) (disk : List UInt8) : Database :=
  match d.alloc (d.fileSize.toNat + 1) 0 disk.length .none with
  | some (a, d) => d.writeBytes a disk
  | none => d

theorem Database.Undamaged.put {d : Database} (h : d.Undamaged) (disk : List UInt8)
    (hFit : d.fileHeader.gxdEof + (disk.length + d.overhead) < 2 ^ 63) : (d.put disk).Undamaged := by
  obtain ⟨a, d', l, hAlloc, hUndamaged, -, -, hl, hObject⟩ := h.alloc 0 disk.length hFit .none
  have hAt : d'.object a = some l := by rw [hObject, Function.update_self]
  have hWrite := (hUndamaged.writeBytes hAt 0 disk (by omega)).1
  rw [Database.put, hAlloc]
  rwa [Int.natCast_zero, Int.add_zero] at hWrite

def boolDisk (b : UInt8) : List UInt8 := [168, 90, 106, 133, 1, 0, 0, 0, 6, 1, 0, 0, 0, b]

theorem boolTable_ready : boolTable.Ready :=
  ⟨rfl, ofFields_wellFormed (by decide) (by decide), by decide, rfl⟩

theorem boolRecord_wellFormed (b : UInt8) : (boolRecord b).WellFormed .portable := by
  have hMax : 1 ≤ recordMaxFields := by decide
  have hField : Field.overhead .portable + 1 ≤ vectorMax := by decide
  exact ofFields_wellFormed hMax fun f hf => (List.mem_singleton.mp hf) ▸ hField

theorem boolTable_stored {d : Database} {b : UInt8} {key : RdbmsKey}
    (hCreate : (boolRecord b).createDiskRecord .portable = some (.ok (boolDisk b)))
    (hLength : (boolRecord b).diskLength .portable ≤ vectorMax)
    (h : d.object (key.kid + d.blockHeaderSize) = some (boolDisk b)) :
    boolTable.Stored d ⟨key, boolRecord b⟩ := by
  constructor
  · exact boolRecord_wellFormed b
  · exact ⟨⟨rfl, rfl, rfl⟩, rfl⟩
  · exact hLength
  · exact fun _ _ _ _ _ => rfl
  · exact ⟨boolDisk b, [], hCreate, by rw [h, List.append_nil]⟩

/-- The file after the records are put in. -/
def boolFile (bs : List UInt8) : Database :=
  bs.foldl (fun d b => d.put (boolDisk b)) (Database.create .E 0)

def boolTree : Btree RdbmsKey :=
  match Btree.create (.ofRevision .E 11 24) 11 24 1 none with
  | .ok _ t | .error _ t => t

/-- The index after the keys are put in. -/
def boolIndex (dup : Bool) (keys : List RdbmsKey) : Btree RdbmsKey :=
  keys.foldl (fun t key => ((gxBtree (rdbmsKey dup true true)).step (.insert ⟨0, key⟩ false) t).2) boolTree

def boolRows (l : List (RdbmsKey × UInt8)) : List Row := l.map fun p => ⟨p.1, boolRecord p.2⟩

theorem boolIndex_stores (dup : Bool) {keys : List RdbmsKey}
    (hRoom : boolTree.f.Room (maxLevels * keys.length)) :
    ∃ A, (boolIndex dup keys).Stores (rdbmsKey dup true true) A := by
  have hK := rdbmsKey_strictOrder dup true true
  have hTree : Btree.create (.ofRevision .E 11 24) 11 24 1 none = .ok () boolTree := rfl
  have hStart := Btree.create_stores (K := rdbmsKey dup true true) (by decide) (by decide) hTree
  rw [boolIndex]
  generalize boolTree = t at hRoom hStart ⊢
  generalize KeySet.empty = A at hStart
  induction keys generalizing t A with
  | nil => exact ⟨A, hStart⟩
  | cons key keys ih =>
    rw [List.length_cons, Nat.mul_succ, Nat.add_comm] at hRoom
    rw [List.foldl_cons]
    cases hFind : A.find key with
    | none =>
      obtain ⟨t', hInsert, hStores, hMore⟩ := hStart.insert hK hFind (hRoom.mono (Nat.le_add_right _ _)) 0
      rw [hInsert]
      exact ih t' (hMore _ hRoom) _ hStores
    | some k =>
      rw [hStart.insert_refused hK hFind 0]
      exact ih t (hRoom.mono (Nat.le_add_left _ _)) A hStart

theorem boolTable_agrees {dup : Bool} {d : Database} {t : Btree RdbmsKey} {l : List (RdbmsKey × UInt8)}
    (hFile : d.Undamaged) (hCounted : d.Counted) (hIndex : ∃ A, t.Stores (rdbmsKey dup true true) A)
    (hKeys : t.keys = l.map Prod.fst) (hBlocks : d.objects.Perm (l.map fun p => p.1.kid + d.blockHeaderSize))
    (hRows : ∀ p ∈ l, (boolRecord p.2).createDiskRecord .portable = some (.ok (boolDisk p.2)) ∧
      (boolRecord p.2).diskLength .portable ≤ vectorMax ∧
      d.object (p.1.kid + d.blockHeaderSize) = some (boolDisk p.2) ∧
      (boolRecord p.2).createKey .portable 0 true = some p.1.k) :
    boolTable.Agrees d dup true true t 0 (boolRows l) := by
  constructor
  · exact boolTable_ready
  · exact hFile
  · exact hCounted
  · intro row hRow
    obtain ⟨p, hp, rfl⟩ := List.mem_map.mp hRow
    obtain ⟨hCreate, hLength, hObject, -⟩ := hRows p hp
    exact boolTable_stored hCreate hLength hObject
  · rwa [boolRows, List.map_map]
  · exact hIndex
  · rw [hKeys, boolRows, List.map_map]
    rfl
  · intro row hRow
    obtain ⟨p, hp, rfl⟩ := List.mem_map.mp hRow
    exact (hRows p hp).2.2.2

/-- Two records with different keys. -/
def twoRecords : List (RdbmsKey × UInt8) := [(⟨1007455905, 0, 150⟩, 2), (⟨2768625435, 0, 104⟩, 1)]

theorem twoRecords_agree (dup : Bool) : boolTable.Agrees (boolFile [1, 2]) dup true true
    (boolIndex dup (twoRecords.map Prod.fst)) 0 (boolRows twoRecords) := by
  have hNew : (Database.create .E 0).Undamaged := ⟨_, _, Database.create_intact .E (by decide)⟩
  apply boolTable_agrees
  · exact (hNew.put (boolDisk 1) (by decide)).put (boolDisk 2) (by decide +kernel)
  · constructor <;> decide +kernel
  · exact boolIndex_stores dup ⟨nofun, by decide, by decide⟩
  · cases dup <;> decide +kernel
  · decide +kernel
  · decide +kernel

namespace Table

/-- For an index whose keys have different values: the pages are right exactly if all records are on
one page and no two compare equal by the primary key. -/
theorem sortOrderList_pages_iff {M : Table} {d : Database} {useBinarySearch useSingleCompare : Bool}
    {t : Btree RdbmsKey} {field : Nat} {rows : List Row}
    (h : M.Agrees d false useBinarySearch useSingleCompare t field rows) {indexNumber keyNumber : Nat}
    (hIndex : indexNumber ≤ wordOfInt (M.numTrees - 1))
    (hKey : keyNumber = 2 ^ 64 - 1 ∨ keyNumber ≤ M.created.2.numFields) (caseCmp alphaCmp : Bool)
    {size : Nat} (hSize : 1 ≤ size) {listLimit : FAU} (hLimit : (size : Int) ≤ listLimit) {n : Nat}
    (hFile : d.fileSize.toNat < n) (hn : rows.length < n) (position : Nat → Fin 3 → Int) :
    let Right := M.Pages (rdbmsKey false useBinarySearch useSingleCompare) d t rows indexNumber keyNumber
      caseCmp alphaCmp listLimit n position size
    (Right → rows.length ≤ size) ∧
      (StrictWeak M.rowLt (fun r => ∃ row ∈ rows, row.record = r) → (Right ↔ rows.length ≤ size ∧
        rows.Pairwise fun a b => ¬ Equivalent M.rowLt a.record b.record)) := by
  intro Right
  cases rows with
  | nil =>
    have hRight : Right := fun page hPage => absurd hPage (Nat.not_lt_zero _)
    exact ⟨fun _ => Nat.zero_le size, fun _ => ⟨fun _ => ⟨Nat.zero_le size, .nil⟩, fun _ => hRight⟩⟩
  | cons row rs =>
    rw [List.length_cons] at hn
    have hOne : Right → (row :: rs).length ≤ size := h.pages_fit hIndex hKey hFile (by omega) hSize
    refine ⟨hOne, fun hWeak => ?_⟩
    have hRows (r : Record) (hr : r ∈ (row :: rs).map Row.record) : ∃ row' ∈ row :: rs, row'.record = r :=
      List.mem_map.mp hr
    have hBoth {l : List Record} := setInsertAll_length_iff (l := l) hWeak
      (fun _ _ ha hb => h.readable.rowLess_eq ha hb) hRows
    have hPage (hFit : (row :: rs).length ≤ size) :
        min ((0 + 1) * size) (row :: rs).length = (row :: rs).length := by omega
    have hRun (hFit : (row :: rs).length ≤ size) := h.first_page hIndex hKey hFile (by omega) caseCmp
      alphaCmp (Int.le_trans (Int.ofNat_le.mpr hFit) hLimit) (position 0)
    constructor
    · intro hRight
      have hFit := hOne hRight
      obtain ⟨list, reads, hList, hLists⟩ := hRight 0 (by rw [Nat.zero_mul]; exact Nat.succ_pos _)
      obtain ⟨list', l, hList', hAll, hEntries⟩ := hRun hFit
      rw [hPage hFit, Nat.zero_mul, Int.natCast_zero, Int.zero_add] at hList
      obtain ⟨-, rfl, -⟩ : _ ∧ list = list' ∧ _ := by
        simpa only [Option.some.injEq, Listed.mk.injEq] using hList.symm.trans hList'
      rw [Nat.zero_mul, List.drop_zero, List.take_of_length_le hFit] at hLists
      have hLength : l.length = ((row :: rs).map Row.record).length := by
        rw [← hEntries.length_eq, hLists.length, List.length_map]
      exact ⟨hFit, List.pairwise_map.mp ((hBoth hAll).2.mp hLength)⟩
    · rintro ⟨hFit, hApart⟩ page hMore
      have hZero : page = 0 := by
        cases page with
        | zero => rfl
        | succ page =>
          rw [Nat.succ_mul] at hMore
          omega
      subst hZero
      obtain ⟨list, l, hList, hAll, hEntries⟩ := hRun hFit
      have hPerm := (hBoth hAll).1 ((hBoth hAll).2.mpr (List.pairwise_map.mpr hApart))
      rw [hPage hFit, Nat.zero_mul, List.drop_zero, List.take_of_length_le hFit]
      exact ⟨list, _, hList, Lists.of_perm hEntries hPerm⟩

theorem sortOrderList_pages_iff_two :
    let t := boolIndex false (twoRecords.map Prod.fst)
    let Right := boolTable.Pages (rdbmsKey false true true) (boolFile [1, 2]) t (boolRows twoRecords) 0 1 true true 2 400
      (fun _ _ => 0) 2
    (Right → (boolRows twoRecords).length ≤ 2) ∧
      (StrictWeak boolTable.rowLt (fun r => ∃ row ∈ boolRows twoRecords, row.record = r) →
        (Right ↔ (boolRows twoRecords).length ≤ 2 ∧
          (boolRows twoRecords).Pairwise fun a b => ¬ Equivalent boolTable.rowLt a.record b.record)) :=
  sortOrderList_pages_iff (twoRecords_agree false) (by decide) (by decide) true true (by decide) (by decide)
    (by decide +kernel) (by decide) fun _ _ => 0

/-- On the second of two pages of one record there is none. -/
theorem sortOrderList_loses :
    let t := boolIndex false (twoRecords.map Prod.fst)
    boolTable.Agrees (boolFile [1, 2]) false true true t 0 (boolRows twoRecords) ∧
      ¬ boolTable.Pages (rdbmsKey false true true) (boolFile [1, 2]) t (boolRows twoRecords) 0 1 true true 1 400
        (fun _ _ => 0) 1 := by
  refine ⟨twoRecords_agree false, fun hPages => ?_⟩
  obtain ⟨list, reads, hRun, hLists⟩ := hPages 1 (by decide)
  have hEmpty : (boolTable.sortOrderList (rdbmsKey false true true) (boolFile [1, 2]) 0 1 true true 1
      ((1 * 1 : Nat) + 1) (min ((1 + 1) * 1) (boolRows twoRecords).length : Nat) 400 (fun _ => 0)
      (boolIndex false (twoRecords.map Prod.fst))).map (fun r => r.list.length) = some 0 := by
    decide +kernel
  rw [hRun] at hEmpty
  have hNone : list.length = 0 := Option.some.inj hEmpty
  exact absurd (hNone.symm.trans hLists.length) (by decide)

end Table

end DataReel
