import DataReel.Library.Walks
import DataReel.Table.SortOrder

/-! # Searches

A search goes over the keys of an index with a key object that compares values alone, reads the record
of each and puts in those that match. Where two keys have one value it goes on from either of them to the
same key, so that it comes to all records only if no more than the last two keys share a value.
-/

namespace DataReel

open Record (Alike OfTable)

/-- The key that a search for the next key finds. -/
def nextKey (K : KeyClass RdbmsKey) (t : Btree RdbmsKey) (x : RdbmsKey) : Option RdbmsKey :=
  match ((gxBtree K).step (.findNext x) t).1 with
  | .found k => some k
  | _ => none

section Steps

variable {dup useBinarySearch useSingleCompare : Bool} {t : Btree RdbmsKey}
  {A : KeySet (rdbmsKey dup useBinarySearch useSingleCompare).comparison}

theorem nextKey_answer {K : KeyClass RdbmsKey} {x : RdbmsKey} {o : Option RdbmsKey}
    (h : (gxBtree K).step (.findNext x) t = (KeySet.answer o, t)) : nextKey K t x = o := by
  rw [nextKey, h]
  cases o <;> rfl

variable (h : t.Stores (rdbmsKey dup useBinarySearch useSingleCompare) A)

include h

theorem Btree.Stores.step_nextKey (x : RdbmsKey) :
    (gxBtree (rdbmsKey false useBinarySearch useSingleCompare)).step (.findNext x) t =
      (KeySet.answer (nextKey (rdbmsKey false useBinarySearch useSingleCompare) t x), t) := by
  obtain ⟨y, -, -, hNext⟩ := h.searches x
  rw [nextKey_answer hNext, hNext]

/-- A step is from a key with the value that is searched for. -/
theorem Btree.Stores.nextKey_before {x w : RdbmsKey}
    (hNext : nextKey (rdbmsKey false useBinarySearch useSingleCompare) t x = some w) :
    ∃ p z q, t.keys = p ++ z :: w :: q ∧ z.k = x.k := by
  have hK := rdbmsKey_strictOrder dup useBinarySearch useSingleCompare
  obtain ⟨y, hy, -, hStep⟩ := h.searches x
  rw [nextKey_answer hStep, KeySet.following] at hNext
  obtain ⟨z, hFind, hLess⟩ := Option.bind_eq_some_iff.mp hNext
  obtain ⟨hz, hSame⟩ := (A.mem_find_iff hK.strict y z).mp hFind
  obtain ⟨p, q, hSplit⟩ := List.append_of_mem hz
  have hFollowing := KeySet.following_of_split hK.strict hSplit hSame
  rw [KeySet.following, hFind, Option.bind_some, hLess] at hFollowing
  cases q with
  | nil => cases hFollowing
  | cons v q =>
    obtain rfl : w = v := Option.some.inj hFollowing
    exact ⟨p, z, q, h.keys.trans hSplit, (rdbmsKey_eqv hSame).symm.trans hy⟩

theorem Btree.Stores.stepsBy :
    StepsBy (nextKey (rdbmsKey false useBinarySearch useSingleCompare) t) RdbmsKey.k t.keys := by
  constructor
  · exact h.keys_nodup
  · exact h.keys_sorted.imp fun {a b} hLess => by omega
  · intro a b hSame
    rw [nextKey, nextKey, (comparesAs_of_k hSame).step_findNext]
  · intro a w hNext p z q hSplit
    obtain ⟨p', z', q', hSplit', hSame⟩ := h.nextKey_before hNext
    have hNodup := h.keys_nodup
    have hBoth : (p ++ [z]) ++ w :: q = (p' ++ [z']) ++ w :: q' := by
      rw [List.append_assoc, List.append_assoc]
      exact hSplit.symm.trans hSplit'
    rw [hSplit, List.append_cons] at hNodup
    obtain ⟨-, hTail, hApart⟩ := List.nodup_append.mp hNodup
    have hOut : w ∉ p ++ [z] := fun hMem => hApart w hMem w List.mem_cons_self rfl
    have hFront := ((List.append_cons_inj_of_notMem hOut (List.nodup_cons.mp hTail).1).mp hBoth).1
    obtain rfl : z = z' := List.cons.inj (List.append_inj' hFront rfl).2 |>.1
    exact hSame
  · intro p x q hSplit hAlone
    exact nextKey_answer (h.findNext_alone hSplit hAlone)

end Steps

section Follows

variable {K : KeyClass RdbmsKey} {t : Btree RdbmsKey} {key : RdbmsKey} {rows rs : List Row}
  (h : ∀ x, (gxBtree K).step (.findNext x) t = (KeySet.answer (nextKey K t x), t))

include h

theorem follows_iff : Follows K t key rs ↔ Visits (nextKey K t) (key :: rs.map Row.key) := by
  induction rs generalizing key with
  | nil => exact ⟨fun _ => List.isChain_singleton key, fun _ => trivial⟩
  | cons row rs ih =>
    rw [Follows, ih, h, List.map_cons, Visits, Visits, List.isChain_cons_cons]
    apply and_congr_left'
    cases nextKey K t key <;> simp [KeySet.answer]

/-- The keys that a walk of so many steps finds. -/
theorem exists_follows (hRows : ∀ x w, nextKey K t x = some w → ∃ row ∈ rows, row.key = w) (n : Nat)
    (key : RdbmsKey) : ∃ rs : List Row, (∀ row ∈ rs, row ∈ rows) ∧ Follows K t key rs ∧ rs.length ≤ n ∧
      ((gxBtree K).step (.findNext (lastKey key rs)) t = (.zero, t) ∨
        rs.length = n ∧ ∃ k, (gxBtree K).step (.findNext (lastKey key rs)) t = (.found k, t)) := by
  induction n generalizing key with
  | zero =>
    refine ⟨[], nofun, trivial, le_rfl, ?_⟩
    rw [lastKey, h]
    cases nextKey K t key with
    | none => exact .inl rfl
    | some k => exact .inr ⟨rfl, k, rfl⟩
  | succ n ih =>
    cases hNext : nextKey K t key with
    | none =>
      refine ⟨[], nofun, trivial, Nat.zero_le _, .inl ?_⟩
      rw [lastKey, h, hNext]
      rfl
    | some w =>
      obtain ⟨row, hRow, rfl⟩ := hRows key w hNext
      obtain ⟨rs, hRs, hFollows, hLength, hStop⟩ := ih row.key
      refine ⟨row :: rs, ?_, ⟨?_, hFollows⟩, Nat.succ_le_succ hLength, ?_⟩
      · rintro row' (_ | ⟨_, hRow'⟩)
        · exact hRow
        · exact hRs row' hRow'
      · rw [h, hNext]
        rfl
      · exact hStop.imp_right fun ⟨hAll, hFound⟩ => ⟨congrArg Nat.succ hAll, hFound⟩

end Follows

namespace Table

variable {M : Table} {d : Database} {dup useBinarySearch useSingleCompare : Bool} {t : Btree RdbmsKey}
  {field : Nat} {row : Row} {rows rs : List Row} {w : Record → Bool} {list : List ListRecord}
  {l : List Record}

/-- A record compares equal to the search record. -/
def isMatch (M : Table) (compareRecord : Record) (searchField : Nat) (o : Record.CompareSettings)
    (r : Record) : Bool :=
  decide (Record.compare M.types r compareRecord (fieldOf searchField) o = some 0)

/-- The value of the primary key. -/
def primaryValue (M : Table) (r : Record) : Option Nat := r.createKey M.types M.keyField M.compareCase

/-- A search has read each record once, and its list has a matching record for each primary key value of
one, and no other records. -/
structure Finds (M : Table) (w : Record → Bool) (rows : List Row) (list : List ListRecord)
    (reads : List FAU) : Prop where
  reads : reads.Perm (rows.map fun row => row.key.kid)
  found : ∀ row ∈ rows, w row.record = true → ∃ row' ∈ rows,
    M.primaryValue row'.record = M.primaryValue row.record ∧ ∃ e ∈ list, Alike M.types e.record row'.record
  sound : ∀ e ∈ list, ∃ row ∈ rows, w row.record = true ∧ Alike M.types e.record row.record

/-- A matching record that compares equal to no matching one before it. -/
def First (M : Table) (w : Record → Bool) (rows : List Row) (row : Row) : Prop :=
  ∃ p q, rows = p ++ row :: q ∧ w row.record = true ∧
    ∀ b ∈ p, w b.record = true → ¬ Equivalent M.rowLt b.record row.record

theorem searchWalk_reads {compareRecord : Record} {searchField : Nat} {caseCmp alphaCmp findAll : Bool}
    {size : Nat} (hSize : (row :: rs).length ≤ size) :
    (M.searchWalk compareRecord searchField caseCmp alphaCmp findAll size).reads (row :: rs) = row :: rs := by
  have hPicks (keyCount recordCount : Int) (hAll : recordCount + rs.length ≤ size) :
      (M.searchWalk compareRecord searchField caseCmp alphaCmp findAll size).picks keyCount recordCount rs =
        rs := by
    clear hSize
    induction rs generalizing keyCount recordCount with
    | nil => rfl
    | cons row rs ih =>
      rw [List.length_cons] at hAll
      have hMore : ¬ ((size : Nat) : Int) ≤ recordCount := by omega
      have hNot : ¬ (M.searchWalk compareRecord searchField caseCmp alphaCmp findAll size).complete
          recordCount = true := by simpa only [searchWalk, decide_eq_true_eq] using hMore
      rw [ListWalk.picks, if_neg hNot, ih _ _ (by omega)]
      rfl
  rw [List.length_cons] at hSize
  rw [ListWalk.reads, hPicks _ _ (by omega)]
  rfl

/-- What a list of the matching records holds. -/
theorem mem_list_iff (hWeak : StrictWeak M.rowLt fun r => ∃ row ∈ rows, row.record = r)
    (hLess : ∀ a b, (∃ row ∈ rows, row.record = a) → (∃ row ∈ rows, row.record = b) →
      M.rowLess a b = some (M.rowLt a b))
    (hAll : setInsertAll M.rowLess ((rows.map Row.record).filter w) [] = some l) (r : Record) :
    r ∈ l ↔ ∃ row, M.First w rows row ∧ row.record = r := by
  have hRows (r) (hr : r ∈ (rows.map Row.record).filter w) : ∃ row ∈ rows, row.record = r :=
    List.mem_map.mp (List.mem_filter.mp hr).1
  obtain ⟨l', hRun, kept, hPerm, -, hKept⟩ := setInsertAll_nil hWeak hLess hRows
  obtain rfl : l = l' := Option.some.inj (hAll.symm.trans hRun)
  rw [hPerm.mem_iff, hKept]
  constructor
  · rintro ⟨p, q, hSplit, hNone⟩
    obtain ⟨front, back, hMap, rfl, hBack⟩ := List.filter_eq_append_iff.mp hSplit
    obtain ⟨skipped, rest, rfl, hSkip, hr, -⟩ := List.filter_eq_cons_iff.mp hBack
    rw [← List.append_assoc] at hMap
    obtain ⟨p', q', rfl, hFront, hRest⟩ := List.map_eq_append_iff.mp hMap
    obtain ⟨row, q'', rfl, rfl, -⟩ := List.map_eq_cons_iff.mp hRest
    refine ⟨row, ⟨p', q'', rfl, hr, fun b hb hMatch => ?_⟩, rfl⟩
    have hMem : b.record ∈ front ++ skipped := hFront ▸ List.mem_map_of_mem hb
    rcases List.mem_append.mp hMem with hMem | hMem
    · exact hNone _ (List.mem_filter.mpr ⟨hMem, hMatch⟩)
    · exact absurd hMatch (hSkip _ hMem)
  · rintro ⟨row, ⟨p, q, rfl, hMatch, hNone⟩, rfl⟩
    refine ⟨(p.map Row.record).filter w, (q.map Row.record).filter w, ?_, ?_⟩
    · rw [List.map_append, List.filter_append, List.map_cons, List.filter_cons_of_pos hMatch]
    · intro b hb
      obtain ⟨hb, hMatch'⟩ := List.mem_filter.mp hb
      obtain ⟨row', hRow', rfl⟩ := List.mem_map.mp hb
      exact hNone row' hRow' hMatch'

section Compare

variable {r c : Record} {o : Record.CompareSettings} {i : Nat}

/-- A search record compares with what is read as with the row. -/
theorem Stored.compare_eq (hStored : M.Stored d row) (hReady : M.Ready) (hc : c.WellFormed M.types)
    (hAlike : Alike M.types r row.record) : ∃ v, Record.compare M.types r c i o = some v ∧
      Record.compare M.types row.record c i o = some v := by
  have hNe := hStored.dbRecord_ne hReady
  by_cases hFits : c.dbRecord ≠ [] ∧ Record.SameDefinition row.record c
  · obtain ⟨hNe', hDef⟩ := hFits
    obtain ⟨v, hv⟩ := Record.compare_isSome (o := o) hStored.wellFormed hc hNe hNe' hDef hStored.wide i
    refine ⟨v, ?_, hv⟩
    rw [← hv]
    exact (hAlike.symm.compare (Alike.refl hc) hNe hNe' hDef hStored.wide i o).symm
  · have hOther (a : Record) (ha : Record.SameDefinition row.record a) :
        Record.compare M.types a c i o = some (-1) := by
      rw [Record.compare, if_pos]
      by_contra hAll
      push Not at hAll
      refine hFits ⟨hAll.2.1, ?_⟩
      exact ⟨ha.tableName.trans hAll.2.2.1, ha.recordDef.trans hAll.2.2.2.1,
        ha.numFields.trans hAll.2.2.2.2⟩
    exact ⟨-1, hOther r hAlike.symm.definition, hOther row.record ⟨rfl, rfl, rfl⟩⟩

end Compare

namespace Agrees

variable {c : Record} {indexNumber searchField n : Nat} {caseCmp alphaCmp findAll : Bool}

theorem kids_nodup (h : M.Agrees d dup useBinarySearch useSingleCompare t field rows) :
    (rows.map fun row => row.key.kid).Nodup := by
  obtain ⟨blocks, free, hIntact⟩ := h.undamaged
  have hObjects := h.blocks.nodup_iff.mp hIntact.holds.objects_nodup
  have hMap : (rows.map fun row => row.key.kid + (d.blockHeaderSize : Int)) =
      (rows.map fun row => row.key.kid).map (· + (d.blockHeaderSize : Int)) := by
    rw [List.map_map]
    rfl
  rw [hMap] at hObjects
  exact hObjects.of_map

/-- Rows that are read once each are all of them. -/
theorem perm_of_reads (h : M.Agrees d dup useBinarySearch useSingleCompare t field rows)
    (hRows : ∀ row ∈ rs, row ∈ rows)
    (hReads : (rs.map fun row => row.key.kid).Perm (rows.map fun row => row.key.kid)) : rs.Perm rows := by
  have hNodup : rs.Nodup := (hReads.nodup_iff.mpr h.kids_nodup).of_map
  apply (List.subperm_of_subset hNodup hRows).perm_of_length_le
  have hLength := hReads.length_eq
  rw [List.length_map, List.length_map] at hLength
  exact hLength.ge

theorem eq_of_keys (h : M.Agrees d dup useBinarySearch useSingleCompare t field rows)
    (hRows : ∀ row ∈ rs, row ∈ rows) (hKeys : rs.map Row.key = rows.map Row.key) : rs = rows := by
  have hInj {a b : Row} (ha : a ∈ rows) (hb : b ∈ rows) : a.key = b.key → a = b :=
    fun hSame => List.inj_on_of_nodup_map h.nodup ha hb hSame
  apply List.ext_getElem
  · simpa using congrArg List.length hKeys
  · intro i hi hi'
    apply hInj (hRows _ (List.getElem_mem hi)) (List.getElem_mem hi')
    have hAt := congrArg (fun l => l[i]?) hKeys
    simpa [hi, hi'] using hAt

/-- A search with a list for all records. -/
theorem search_eq (h : M.Agrees d dup useBinarySearch useSingleCompare t field (row :: rows))
    (hIndex : indexNumber ≤ wordOfInt (M.numTrees - 1))
    (hField : searchField = 2 ^ 64 - 1 ∨ searchField ≤ M.created.2.numFields) (hc : c.WellFormed M.types)
    (hRows : ∀ row' ∈ rs, row' ∈ row :: rows) (hLength : rs.length ≤ rows.length)
    (hFollows : Follows (rdbmsKey false useBinarySearch useSingleCompare) t row.key rs)
    (hStop : (gxBtree (rdbmsKey false useBinarySearch useSingleCompare)).step
        (.findNext (lastKey row.key rs)) t = (.zero, t) ∨ rs.length = rows.length ∧
      ∃ k, (gxBtree (rdbmsKey false useBinarySearch useSingleCompare)).step
        (.findNext (lastKey row.key rs)) t = (.found k, t))
    (hFile : d.fileSize.toNat < n) (hn : rows.length < n) (position : Fin 3 → Int) :
    ∃ list l, M.search (rdbmsKey false useBinarySearch useSingleCompare) d c indexNumber searchField caseCmp
        alphaCmp findAll (row :: rows).length n position t =
        some ⟨.noError, list, (row :: rs).map (·.key.kid)⟩ ∧
      setInsertAll M.rowLess (((row :: rs).map Row.record).filter
        (M.isMatch c searchField ⟨caseCmp, alphaCmp, findAll⟩)) [] = some l ∧
      List.Forall₂ (M.Entry (row :: rows)) list l := by
  obtain ⟨A, hStores⟩ := h.index
  let W := M.searchWalk c searchField caseCmp alphaCmp findAll (row :: rows).length
  have hReads : W.reads (row :: rs) = row :: rs := searchWalk_reads (Nat.succ_le_succ hLength)
  have hFirst : (gxBtree (rdbmsKey false useBinarySearch useSingleCompare)).step .findFirst t =
      (.found row.key, t) := by
    rw [hStores.findFirst, h.keys]
    rfl
  have hAllRows : ∀ row' ∈ row :: rs, row' ∈ row :: rows := by
    rintro row' (_ | ⟨_, hRow'⟩)
    · exact List.mem_cons_self
    · exact hRows row' hRow'
  have hWanted : ∀ row' ∈ row :: rs, ∀ r, Alike M.types r row'.record → W.wanted r =
      some (M.isMatch c searchField ⟨caseCmp, alphaCmp, findAll⟩ row'.record) := by
    intro row' hRow' r hAlike
    obtain ⟨v, hv, hv'⟩ := (h.stored row' (hAllRows row' hRow')).compare_eq (i := fieldOf searchField)
      (o := ⟨caseCmp, alphaCmp, findAll⟩) h.ready hc hAlike
    change (Record.compare M.types r c (fieldOf searchField) ⟨caseCmp, alphaCmp, findAll⟩).map
      (fun v => decide (v = 0)) = _
    rw [isMatch, hv, hv', Option.map_some]
    simp
  obtain ⟨list, l, hRun, hAll, hList⟩ := h.readable.listKeys_eq (W := W) hFirst hAllRows hWanted hFollows (by
    refine hStop.imp_right fun ⟨hSame, k, hk⟩ => ⟨k, hk, ?_⟩
    rw [hReads, List.length_cons, hSame]
    exact decide_eq_true le_rfl) (Nat.lt_of_le_of_lt hLength hn) (position 2)
  rw [hReads] at hRun hAll
  refine ⟨list, l, ?_, hAll, hList⟩
  have hBlocks : ((row :: rows).length : Int) ≠ 0 := by
    rw [List.length_cons]
    omega
  have hTests : M.listTests searchField ((row :: rows).length : Nat)
      (decide ¬ ((row :: rows).length : Int) < ((row :: rows).length : Nat)) = none := by
    rw [listTests, if_neg hBlocks, decide_eq_true (Int.lt_irrefl _), if_neg (by decide),
      if_neg (not_not.mpr h.ready.created), if_neg]
    rintro ⟨hNot, hLess⟩
    exact hField.elim hNot (Nat.not_le.mpr hLess)
  rw [search, if_neg (Nat.not_lt.mpr hIndex)]
  simp only [h.normalBlocksRun hFile, Option.bind_eq_bind, Option.bind_some, Option.pure_def]
  rw [hTests]
  exact hRun

/-- A list of the matching rows has each primary key value exactly if the first of the records that
compare equal have. -/
theorem finds_iff (h : M.Agrees d dup useBinarySearch useSingleCompare t field rows)
    (hWeak : StrictWeak M.rowLt fun r => ∃ row ∈ rows, row.record = r)
    (hAll : setInsertAll M.rowLess ((rows.map Row.record).filter w) [] = some l)
    (hList : List.Forall₂ (M.Entry rows) list l) :
    M.Finds w rows list (rows.map fun row => row.key.kid) ↔ ∀ row ∈ rows, w row.record = true →
      ∃ row', M.First w rows row' ∧ M.primaryValue row'.record = M.primaryValue row.record := by
  have hMem := mem_list_iff hWeak (fun _ _ ha hb => h.readable.rowLess_eq ha hb) hAll
  have hRow {row : Row} (hFirst : M.First w rows row) : row ∈ rows := by
    obtain ⟨p, q, rfl, -⟩ := hFirst
    exact List.mem_append_right p List.mem_cons_self
  have hEntry (e) (he : e ∈ list) : ∃ row, M.First w rows row ∧ Alike M.types e.record row.record := by
    obtain ⟨r, hr, hEntry⟩ := forall₂_exists hList he
    obtain ⟨row, hFirst, rfl⟩ := (hMem r).mp hr
    exact ⟨row, hFirst, hEntry.alike⟩
  constructor
  · intro hFinds row hRow' hMatch
    obtain ⟨row', hOther, hSame, e, he, hAlike⟩ := hFinds.found row hRow' hMatch
    obtain ⟨first, hFirst, hAlike'⟩ := hEntry e he
    refine ⟨first, hFirst, ?_⟩
    rw [← hSame]
    exact (h.createKey_alike hOther (hRow hFirst) (hAlike.symm.trans hAlike') M.keyField).symm
  · intro hAllValues
    constructor
    · exact List.Perm.refl _
    · intro row hRow' hMatch
      obtain ⟨first, hFirst, hSame⟩ := hAllValues row hRow' hMatch
      obtain ⟨e, he, hPut⟩ := forall₂_exists hList.flip ((hMem _).mpr ⟨first, hFirst, rfl⟩)
      exact ⟨first, hRow hFirst, hSame, e, he, hPut.alike⟩
    · intro e he
      obtain ⟨row, hFirst, hAlike⟩ := hEntry e he
      have hMatch : w row.record = true := by
        obtain ⟨-, -, -, hMatch, -⟩ := hFirst
        exact hMatch
      exact ⟨row, hRow hFirst, hMatch, hAlike⟩

end Agrees

/-- A search with a list for all records does what it is for. -/
def SearchesAll (M : Table) (K : KeyClass RdbmsKey) (d : Database) (t : Btree RdbmsKey) (rows : List Row)
    (compareRecord : Record) (indexNumber searchField : Nat) (caseCmp alphaCmp findAllMatches : Bool)
    (n : Nat) (position : Fin 3 → Int) : Prop :=
  ∃ list reads, M.search K d compareRecord indexNumber searchField caseCmp alphaCmp findAllMatches
      rows.length n position t = some ⟨.noError, list, reads⟩ ∧
    M.Finds (M.isMatch compareRecord searchField ⟨caseCmp, alphaCmp, findAllMatches⟩) rows list reads

/-- A search that reads each record once goes through the keys in order. -/
theorem SearchesAll.walk (h : M.Agrees d dup useBinarySearch useSingleCompare t field (row :: rows))
    {indexNumber searchField : Nat} (hIndex : indexNumber ≤ wordOfInt (M.numTrees - 1))
    (hField : searchField = 2 ^ 64 - 1 ∨ searchField ≤ M.created.2.numFields) {c : Record}
    (hc : c.WellFormed M.types) {caseCmp alphaCmp findAll : Bool} {n : Nat} (hFile : d.fileSize.toNat < n)
    (hn : rows.length < n) {position : Fin 3 → Int}
    (hAll : M.SearchesAll (rdbmsKey false useBinarySearch useSingleCompare) d t (row :: rows) c indexNumber
      searchField caseCmp alphaCmp findAll n position) :
    let w := M.isMatch c searchField ⟨caseCmp, alphaCmp, findAll⟩
    AlikeAtEnd (nextKey (rdbmsKey false useBinarySearch useSingleCompare) t) RdbmsKey.k t.keys ∧
      ∃ list l, setInsertAll M.rowLess (((row :: rows).map Row.record).filter w) [] = some l ∧
        List.Forall₂ (M.Entry (row :: rows)) list l ∧
        M.Finds w (row :: rows) list ((row :: rows).map fun row => row.key.kid) := by
  obtain ⟨A, hStores⟩ := h.index
  obtain ⟨list, reads, hSearch, hFinds⟩ := hAll
  have hNext (x v) (hv : nextKey (rdbmsKey false useBinarySearch useSingleCompare) t x = some v) :
      ∃ row' ∈ row :: rows, row'.key = v := by
    obtain ⟨p, z, q, hSplit, -⟩ := hStores.nextKey_before hv
    have hMem : v ∈ t.keys := by
      rw [hSplit]
      simp
    rw [h.keys] at hMem
    exact List.mem_map.mp hMem
  obtain ⟨visited, hVisited, hFollows, hLength, hStop⟩ :=
    exists_follows hStores.step_nextKey hNext rows.length row.key
  obtain ⟨list', l, hSearch', hPut, hList⟩ := h.search_eq hIndex hField hc hVisited hLength hFollows
    hStop hFile hn position
  obtain ⟨-, rfl, rfl⟩ : _ ∧ list = list' ∧ reads = _ := by
    simpa only [Option.some.injEq, Listed.mk.injEq] using hSearch.symm.trans hSearch'
  have hMem : ∀ row' ∈ row :: visited, row' ∈ row :: rows := by
    rintro row' (_ | ⟨_, hRow'⟩)
    · exact List.mem_cons_self
    · exact hVisited row' hRow'
  have hVisits := (follows_iff hStores.step_nextKey).mp hFollows
  obtain ⟨hEnd, hKeys⟩ := hStores.stepsBy.visits_all hVisits (by rw [h.keys]; rfl) (by
    rw [h.keys]
    exact (h.perm_of_reads hMem hFinds.reads).map Row.key)
  rw [h.keys] at hKeys
  have hSame : row :: visited = row :: rows := h.eq_of_keys hMem hKeys
  rw [hSame] at hPut hFinds
  exact ⟨hEnd, list, l, hPut, hList, hFinds⟩

/-- A search comes to each record once exactly if the values of the keys are different, but that the last
two may have one value if the search lands on the first of them. Then it finds all that match exactly if
each primary key value is that of a record that no matching one before it compares equal to. -/
theorem search_finds_iff (h : M.Agrees d dup useBinarySearch useSingleCompare t field rows)
    {indexNumber searchField : Nat} (hIndex : indexNumber ≤ wordOfInt (M.numTrees - 1))
    (hField : searchField = 2 ^ 64 - 1 ∨ searchField ≤ M.created.2.numFields) {c : Record}
    (hc : c.WellFormed M.types) (caseCmp alphaCmp findAll : Bool) {n : Nat} (hFile : d.fileSize.toNat < n)
    (hn : rows.length < n) (position : Fin 3 → Int) :
    let K := rdbmsKey false useBinarySearch useSingleCompare
    let w := M.isMatch c searchField ⟨caseCmp, alphaCmp, findAll⟩
    let Right := M.SearchesAll K d t rows c indexNumber searchField caseCmp alphaCmp findAll n position
    (Right → AlikeAtEnd (nextKey K t) RdbmsKey.k t.keys) ∧
      (StrictWeak M.rowLt (fun r => ∃ row ∈ rows, row.record = r) → (Right ↔
        AlikeAtEnd (nextKey K t) RdbmsKey.k t.keys ∧ ∀ row ∈ rows, w row.record = true →
          ∃ row', M.First w rows row' ∧ M.primaryValue row'.record = M.primaryValue row.record)) := by
  intro K w Right
  cases rows with
  | nil =>
    have hRight : Right := by
      refine ⟨[], [], ?_, List.Perm.refl _, nofun, nofun⟩
      rw [search, if_neg (Nat.not_lt.mpr hIndex)]
      simp only [h.normalBlocksRun hFile, Option.bind_eq_bind, Option.bind_some, Option.pure_def]
      rfl
    have hEnd : AlikeAtEnd (nextKey K t) RdbmsKey.k t.keys := by
      rw [h.keys]
      exact .inl List.nodup_nil
    exact ⟨fun _ => hEnd, fun _ => ⟨fun _ => ⟨hEnd, nofun⟩, fun _ => hRight⟩⟩
  | cons row rs =>
    rw [List.length_cons] at hn
    have hWalk (hRight : Right) := hRight.walk h hIndex hField hc hFile (by omega)
    refine ⟨fun hRight => (hWalk hRight).1, fun hWeak => ⟨fun hRight => ?_, ?_⟩⟩
    · obtain ⟨hEnd, list, l, hAll, hList, hFinds⟩ := hWalk hRight
      exact ⟨hEnd, (h.finds_iff hWeak hAll hList).mp hFinds⟩
    · rintro ⟨hEnd, hValues⟩
      obtain ⟨A, hStores⟩ := h.index
      have hVisits := hStores.stepsBy.visits_self hEnd
      rw [h.keys] at hVisits
      have hFollows : Follows K t row.key rs := (follows_iff hStores.step_nextKey).mpr hVisits
      obtain ⟨list, l, hSearch, hAll, hList⟩ := h.search_eq hIndex hField hc
        (fun row' hRow' => List.mem_cons_of_mem row hRow') le_rfl hFollows (by
          rw [hStores.step_nextKey]
          cases nextKey K t (lastKey row.key rs) with
          | none => exact .inl rfl
          | some k => exact .inr ⟨rfl, k, rfl⟩) hFile (by omega) position
      exact ⟨list, _, hSearch, (h.finds_iff hWeak hAll hList).mpr hValues⟩

theorem search_finds_iff_two :
    let K := rdbmsKey false true true
    let t := boolIndex true (twoRecords.map Prod.fst)
    let w := boolTable.isMatch (boolRecord 2) 1 ⟨true, true, false⟩
    let Right := boolTable.SearchesAll K (boolFile [1, 2]) t (boolRows twoRecords) (boolRecord 2) 0 1 true
      true false 400 fun _ => 0
    (Right → AlikeAtEnd (nextKey K t) RdbmsKey.k t.keys) ∧
      (StrictWeak boolTable.rowLt (fun r => ∃ row ∈ boolRows twoRecords, row.record = r) → (Right ↔
        AlikeAtEnd (nextKey K t) RdbmsKey.k t.keys ∧ ∀ row ∈ boolRows twoRecords, w row.record = true →
          ∃ row', boolTable.First w (boolRows twoRecords) row' ∧
            boolTable.primaryValue row'.record = boolTable.primaryValue row.record)) :=
  search_finds_iff (twoRecords_agree true) (by decide) (by decide) (boolRecord_wellFormed 2) true true false
    (by decide +kernel) (by decide) fun _ => 0

/-- Three records with one value. -/
def threeRecords : List (RdbmsKey × UInt8) :=
  [(⟨2768625435, 0, 104⟩, 1), (⟨2768625435, 0, 150⟩, 1), (⟨2768625435, 0, 196⟩, 1)]

/-- The search goes from the first of three keys with one value to the last one. -/
theorem search_misses :
    boolTable.Agrees (boolFile [1, 1, 1]) true true true (boolIndex true (threeRecords.map Prod.fst)) 0
        (boolRows threeRecords) ∧
      ¬ boolTable.SearchesAll (rdbmsKey false true true) (boolFile [1, 1, 1])
        (boolIndex true (threeRecords.map Prod.fst)) (boolRows threeRecords) (boolRecord 1) 0 1 true true false
        400 fun _ => 0 := by
  constructor
  · have hNew : (Database.create .E 0).Undamaged := ⟨_, _, Database.create_intact .E (by decide)⟩
    apply boolTable_agrees
    · exact ((hNew.put (boolDisk 1) (by decide)).put (boolDisk 1) (by decide +kernel)).put (boolDisk 1)
        (by decide +kernel)
    · constructor <;> decide +kernel
    · exact boolIndex_stores true ⟨nofun, by decide, by decide⟩
    · decide +kernel
    · decide +kernel
    · decide +kernel
  · rintro ⟨list, reads, hSearch, hFinds⟩
    have hReads : (boolTable.search (rdbmsKey false true true) (boolFile [1, 1, 1]) (boolRecord 1) 0 1 true
        true false (boolRows threeRecords).length 400 (fun _ => 0)
        (boolIndex true (threeRecords.map Prod.fst))).map (fun r => r.reads) = some [104, 196, 196] := by
      decide +kernel
    rw [hSearch] at hReads
    have hPerm := hFinds.reads
    rw [show reads = [104, 196, 196] from Option.some.inj hReads] at hPerm
    have hMissing : (150 : Int) ∈ [104, 196, 196] := hPerm.mem_iff.mpr (by decide)
    exact absurd hMissing (by decide)

end Table

end DataReel
