import DataReel.Table.Rows

/-! # Runs of the list functions

A list function goes from key to key, reads the records of some of them and puts in those that are
wanted. What is in the list is what insertions of the records make of them, in the order by the
primary key.
-/

namespace DataReel

open Record (Alike OfTable)

/-- The rows whose records a walk reads, by the number of keys and the number of records so far. -/
def ListWalk.picks (W : ListWalk) : Int → Int → List Row → List Row
  | _, _, [] => []
  | keyCount, recordCount, row :: rows =>
    if W.complete recordCount then []
    else if W.takes keyCount then row :: W.picks (keyCount + 1) (recordCount + 1) rows
    else W.picks (keyCount + 1) recordCount rows

/-- The rows that a walk reads of all. -/
def ListWalk.reads (W : ListWalk) : List Row → List Row
  | [] => []
  | row :: rows => if W.takesFirst then row :: W.picks 1 1 rows else W.picks 1 0 rows

/-- A key and the rows that searches for the next key find one after another. -/
def Follows (K : KeyClass RdbmsKey) (t : Btree RdbmsKey) : RdbmsKey → List Row → Prop
  | _, [] => True
  | key, row :: rows => (gxBtree K).step (.findNext key) t = (.found row.key, t) ∧ Follows K t row.key rows

def lastKey : RdbmsKey → List Row → RdbmsKey
  | key, [] => key
  | _, row :: rows => lastKey row.key rows

namespace Table

variable (M : Table)

/-- The order of a list on records of the table. -/
def rowLess (a b : Record) : Option Bool :=
  ListRecord.lessThan M.types (M.byKey ⟨a, -1, true, false⟩) (M.byKey ⟨b, -1, true, false⟩)

def rowLt (a b : Record) : Bool := (M.rowLess a b).getD false

/-- An entry of a list holds a row and is compared by the primary key. -/
structure Entry (rows : List Row) (e : ListRecord) (r : Record) : Prop where
  row : ∃ row ∈ rows, row.record = r
  alike : Alike M.types e.record r
  settings : M.byKey e = e

/-- What the walks need of a table and its file. -/
structure Readable (d : Database) (rows : List Row) : Prop where
  ready : M.Ready
  undamaged : d.Undamaged
  stored : ∀ row ∈ rows, M.Stored d row

/-- A state of a walk after a key, with the records that are put in. -/
structure Passing (t : Btree RdbmsKey) (rows : List Row) (key : RdbmsKey) (l : List Record)
    (s : ListState) : Prop where
  key : s.key = key
  tree : s.tree = t
  list : List.Forall₂ (M.Entry rows) s.list l
  wellFormed : s.record.record.WellFormed M.types
  ofTable : OfTable M.created.2 s.record.record

variable {M} {d : Database} {rows rs : List Row} {row : Row} {l : List Record} {t : Btree RdbmsKey}
  {K : KeyClass RdbmsKey} {key : RdbmsKey} {W : ListWalk} {w : Record → Bool} {s : ListState}

theorem Entry.of_mem {list : List ListRecord} (h : List.Forall₂ (M.Entry rows) list l) {r : Record}
    (hr : r ∈ l) : ∃ row ∈ rows, row.record = r := by
  obtain ⟨e, -, he⟩ := forall₂_exists h.flip hr
  exact he.row

namespace Readable

variable (h : M.Readable d rows)

include h

theorem sameDefinition {row' : Row} (hRow : row ∈ rows) (hRow' : row' ∈ rows) :
    Record.SameDefinition row.record row'.record := by
  have hDef := (h.stored row hRow).ofTable.definition
  have hDef' := (h.stored row' hRow').ofTable.definition
  exact ⟨hDef.tableName.symm.trans hDef'.tableName, hDef.recordDef.symm.trans hDef'.recordDef,
    hDef.numFields.symm.trans hDef'.numFields⟩

theorem rowLess_eq {a b : Record} (ha : ∃ row ∈ rows, row.record = a) (hb : ∃ row ∈ rows, row.record = b) :
    M.rowLess a b = some (M.rowLt a b) := by
  obtain ⟨row, hRow, rfl⟩ := ha
  obtain ⟨row', hRow', rfl⟩ := hb
  have hStored := h.stored row hRow
  have hStored' := h.stored row' hRow'
  obtain ⟨v, hv⟩ := Record.compare_isSome (o := ⟨M.compareCase, M.compareAlpha, false⟩)
    hStored.wellFormed hStored'.wellFormed (hStored.dbRecord_ne h.ready) (hStored'.dbRecord_ne h.ready)
    (h.sameDefinition hRow hRow') hStored.wide (wordOfInt (signedValue 4 (M.keyField % 2 ^ 32)))
  have hLess : M.rowLess row.record row'.record = some (decide (v < 0)) := by
    rw [rowLess, ListRecord.lessThan]
    exact congrArg (Option.map _) hv
  rw [rowLt, hLess]
  rfl

theorem entry_less {e e' : ListRecord} {r r' : Record} (he : M.Entry rows e r) (he' : M.Entry rows e' r') :
    ListRecord.lessThan M.types e e' = M.rowLess r r' := by
  obtain ⟨row, hRow, rfl⟩ := he.row
  obtain ⟨row', hRow', rfl⟩ := he'.row
  have hStored := h.stored row hRow
  have hStored' := h.stored row' hRow'
  have hCompare := he.alike.symm.compare he'.alike.symm (hStored.dbRecord_ne h.ready)
    (hStored'.dbRecord_ne h.ready) (h.sameDefinition hRow hRow') hStored.wide
    (wordOfInt (signedValue 4 (M.keyField % 2 ^ 32))) ⟨M.compareCase, M.compareAlpha, false⟩
  rw [← he.settings, rowLess, ListRecord.lessThan, ListRecord.lessThan]
  exact congrArg (Option.map _) hCompare.symm

/-- A record that is read and wanted goes to its place. -/
theorem listRecord_eq (hs : M.Passing t rows row.key l s) (hRow : row ∈ rows)
    (hWanted : ∀ r, Alike M.types r row.record → W.wanted r = some (w row.record)) :
    ∃ s' l', M.listRecord d W s = some (.inr s') ∧ M.Passing t rows row.key l' s' ∧
      s'.keyCount = s.keyCount ∧ s'.recordCount = s.recordCount + 1 ∧
      s'.reads = s.reads ++ [row.key.kid] ∧
      (if w row.record then setInsert M.rowLess row.record l else some l) = some l' := by
  obtain ⟨r, hRead, hAlike, hOf⟩ := (h.stored row hRow).read h.ready h.undamaged hs.wellFormed hs.ofTable
    s.position
  have hKey := hs.key
  rw [Table.listRecord, hKey, hRead]
  simp only [hWanted r hAlike, Option.bind_eq_bind, Option.bind_some]
  cases hw : w row.record with
  | false =>
    rw [if_neg Bool.false_ne_true, if_neg Bool.false_ne_true]
    exact ⟨_, l, rfl, ⟨rfl, hs.tree, hs.list, hAlike.left, hOf⟩, rfl, rfl, rfl, rfl⟩
  | true =>
    rw [if_pos rfl, if_pos rfl]
    have hEntry : M.Entry rows (M.byKey { s.record with record := r }) row.record :=
      ⟨⟨row, hRow, rfl⟩, hAlike, rfl⟩
    have hMem (a) (ha : a ∈ l) := Entry.of_mem hs.list ha
    have hLess (a) (ha : a ∈ l) : (∃ v, M.rowLess a row.record = some v) ∧
        ∃ v, M.rowLess row.record a = some v :=
      ⟨⟨_, h.rowLess_eq (hMem a ha) ⟨row, hRow, rfl⟩⟩, _, h.rowLess_eq ⟨row, hRow, rfl⟩ (hMem a ha)⟩
    obtain ⟨l', hInsert, -⟩ := setInsert_isSome hLess
    rcases setInsert_alike (R := M.Entry rows) (fun a a' b b' ha hb => h.entry_less ha hb) hEntry hs.list with
      ⟨-, hNone⟩ | ⟨list, l'', hList, hInsert', hAlike'⟩
    · rw [hNone] at hInsert
      cases hInsert
    · rw [hList]
      exact ⟨_, l'', rfl, ⟨rfl, hs.tree, hAlike', hAlike.left, hOf⟩, rfl, rfl, rfl, hInsert'⟩

/-- The loop goes on to the end of the keys, or to a key where the list is complete. -/
theorem listLoop (hs : M.Passing t rows key l s) (hRows : ∀ row ∈ rs, row ∈ rows)
    (hWanted : ∀ row ∈ rs, ∀ r, Alike M.types r row.record → W.wanted r = some (w row.record))
    (hFollows : Follows K t key rs)
    (hStop : (gxBtree K).step (.findNext (lastKey key rs)) t = (.zero, t) ∨
      ∃ k, (gxBtree K).step (.findNext (lastKey key rs)) t = (.found k, t) ∧
        W.complete (s.recordCount + (W.picks s.keyCount s.recordCount rs).length) = true)
    {n : Nat} (hn : rs.length < n) :
    ∃ list l', Loop.result (M.listTurn K d W) n s =
        some (some ⟨.noError, list, s.reads ++ (W.picks s.keyCount s.recordCount rs).map (·.key.kid)⟩) ∧
      setInsertAll M.rowLess (((W.picks s.keyCount s.recordCount rs).map Row.record).filter w) l = some l' ∧
      List.Forall₂ (M.Entry rows) list l' := by
  obtain ⟨n, rfl⟩ : ∃ m, n = m + 1 := ⟨n - 1, by omega⟩
  induction rs generalizing key l s n with
  | nil =>
    refine ⟨s.list, l, ?_, rfl, hs.list⟩
    rw [Loop.result, Table.listTurn, hs.key, hs.tree]
    rcases hStop with hEnd | ⟨k, hFound, hComplete⟩
    · rw [show (gxBtree K).step (.findNext key) t = _ from hEnd]
      simp [ListWalk.picks]
    · rw [show (gxBtree K).step (.findNext key) t = _ from hFound]
      have hFull : W.complete s.recordCount = true := by simpa [ListWalk.picks] using hComplete
      simp [hFull, ListWalk.picks]
  | cons row rs ih =>
    obtain ⟨hFound, hFollows⟩ := hFollows
    have hRow := hRows row List.mem_cons_self
    have hRows' (row') (h' : row' ∈ rs) : row' ∈ rows := hRows row' (List.mem_cons_of_mem row h')
    have hWanted' (row') (h' : row' ∈ rs) := hWanted row' (List.mem_cons_of_mem row h')
    rw [List.length_cons] at hn
    obtain ⟨n, rfl⟩ : ∃ m, n = m + 1 := ⟨n - 1, by omega⟩
    have hAt : M.Passing t rows row.key l { s with key := row.key, tree := t } :=
      ⟨rfl, rfl, hs.list, hs.wellFormed, hs.ofTable⟩
    rw [Loop.result, Table.listTurn, hs.key, hs.tree, hFound]
    by_cases hFull : W.complete s.recordCount = true
    · refine ⟨s.list, l, ?_, ?_, hs.list⟩
      · simp only [hFull, if_true, ListWalk.picks, List.map_nil, List.append_nil]
      · simp only [ListWalk.picks, hFull, if_true]
        rfl
    · by_cases hTakes : W.takes s.keyCount = true
      · have hPicks : W.picks s.keyCount s.recordCount (row :: rs) =
            row :: W.picks (s.keyCount + 1) (s.recordCount + 1) rs := by
          rw [ListWalk.picks, if_neg hFull, if_pos hTakes]
        obtain ⟨s', l₁, hRecord, hs', hKeys, hRecords, hReads, hInsert⟩ :=
          h.listRecord_eq hAt hRow (hWanted row List.mem_cons_self)
        dsimp only at hKeys hRecords hReads
        have hNext : M.Passing t rows row.key l₁ { s' with keyCount := s'.keyCount + 1 } :=
          ⟨hs'.key, hs'.tree, hs'.list, hs'.wellFormed, hs'.ofTable⟩
        rw [hPicks] at hStop ⊢
        obtain ⟨list, l', hRun, hAll, hList⟩ := ih hNext hRows' hWanted' hFollows (by
          refine hStop.imp_right ?_
          rintro ⟨k, hk, hComplete⟩
          refine ⟨k, hk, ?_⟩
          rw [List.length_cons] at hComplete
          dsimp only
          rw [hKeys, hRecords]
          rwa [Nat.cast_succ, add_comm _ (1 : Int), ← add_assoc] at hComplete) n (by omega)
        refine ⟨list, l', ?_, ?_, hList⟩
        · dsimp only at hRun
          rw [hRecords, hReads, hKeys] at hRun
          simp only [if_neg hFull, if_pos hTakes, hRecord, hKeys, hRecords, hReads]
          rw [hRun, List.map_cons, List.append_assoc, List.singleton_append]
        · dsimp only at hAll
          rw [hKeys, hRecords] at hAll
          rw [List.map_cons, List.filter_cons]
          cases hw : w row.record with
          | false =>
            rw [hw, if_neg Bool.false_ne_true] at hInsert
            cases hInsert
            exact hAll
          | true =>
            rw [hw, if_pos rfl] at hInsert
            rw [if_pos rfl, setInsertAll, hInsert]
            exact hAll
      · have hPicks : W.picks s.keyCount s.recordCount (row :: rs) =
            W.picks (s.keyCount + 1) s.recordCount rs := by
          rw [ListWalk.picks, if_neg hFull, if_neg hTakes]
        have hNext : M.Passing t rows row.key l { s with
            key := row.key, tree := t, keyCount := s.keyCount + 1 } :=
          ⟨rfl, rfl, hs.list, hs.wellFormed, hs.ofTable⟩
        rw [hPicks] at hStop ⊢
        obtain ⟨list, l', hRun, hAll, hList⟩ := ih hNext hRows' hWanted' hFollows hStop n (by omega)
        refine ⟨list, l', ?_, hAll, hList⟩
        simp only [if_neg hFull, if_neg hTakes]
        exact hRun

/-- A list function over an index. -/
theorem listKeys_eq (hFirst : (gxBtree K).step .findFirst t = (.found row.key, t))
    (hRows : ∀ row' ∈ row :: rs, row' ∈ rows)
    (hWanted : ∀ row' ∈ row :: rs, ∀ r, Alike M.types r row'.record → W.wanted r = some (w row'.record))
    (hFollows : Follows K t row.key rs)
    (hStop : (gxBtree K).step (.findNext (lastKey row.key rs)) t = (.zero, t) ∨
      ∃ k, (gxBtree K).step (.findNext (lastKey row.key rs)) t = (.found k, t) ∧
        W.complete (W.reads (row :: rs)).length = true)
    {n : Nat} (hn : rs.length < n) (position : Int) :
    ∃ list l', M.listKeys K d W n position t =
        some ⟨.noError, list, (W.reads (row :: rs)).map (·.key.kid)⟩ ∧
      setInsertAll M.rowLess (((W.reads (row :: rs)).map Row.record).filter w) [] = some l' ∧
      List.Forall₂ (M.Entry rows) list l' := by
  have hRow := hRows row List.mem_cons_self
  have hRows' (row') (h' : row' ∈ rs) : row' ∈ rows := hRows row' (List.mem_cons_of_mem row h')
  have hWanted' (row') (h' : row' ∈ rs) := hWanted row' (List.mem_cons_of_mem row h')
  let s₀ : ListState := ⟨row.key, t, position,
    ListRecord.setParms ⟨M.created.2, -1, true, false⟩ W.field W.caseCmp W.alphaCmp, [], 0, 0, []⟩
  have hs₀ : M.Passing t rows row.key [] s₀ :=
    ⟨rfl, rfl, .nil, h.ready.wellFormed, OfTable.refl _⟩
  rw [Table.listKeys, hFirst]
  dsimp only
  by_cases hTakes : W.takesFirst = true
  · have hReads : W.reads (row :: rs) = row :: W.picks 1 1 rs := by
      rw [ListWalk.reads, if_pos hTakes]
    obtain ⟨s, l₁, hRecord, hs, hKeys, hRecords, hKids, hInsert⟩ :=
      h.listRecord_eq hs₀ hRow (hWanted row List.mem_cons_self)
    have hKeys' : s.keyCount + 1 = 1 := by rw [hKeys, Int.zero_add]
    have hRecords' : s.recordCount = 1 := by rw [hRecords, Int.zero_add]
    have hNext : M.Passing t rows row.key l₁ { s with keyCount := s.keyCount + 1 } :=
      ⟨hs.key, hs.tree, hs.list, hs.wellFormed, hs.ofTable⟩
    rw [hReads] at hStop ⊢
    obtain ⟨list, l', hRun, hAll, hList⟩ := h.listLoop hNext hRows' hWanted' hFollows (by
      dsimp only
      rw [hKeys', hRecords']
      rwa [List.length_cons, Nat.cast_succ, Int.add_comm] at hStop) hn
    dsimp only at hRun hAll
    rw [hKeys', hRecords'] at hRun hAll
    refine ⟨list, l', ?_, ?_, hList⟩
    · rw [if_pos hTakes, hRecord]
      dsimp only
      rw [hKeys', hRecords', hRun, hKids]
      rfl
    · rw [List.map_cons, List.filter_cons]
      cases hw : w row.record with
      | false =>
        rw [hw, if_neg Bool.false_ne_true] at hInsert
        cases hInsert
        exact hAll
      | true =>
        rw [hw, if_pos rfl] at hInsert
        rw [if_pos rfl, setInsertAll, hInsert]
        exact hAll
  · have hReads : W.reads (row :: rs) = W.picks 1 0 rs := by
      rw [ListWalk.reads, if_neg hTakes]
    have hNext : M.Passing t rows row.key [] { s₀ with keyCount := s₀.keyCount + 1 } :=
      ⟨rfl, rfl, .nil, hs₀.wellFormed, hs₀.ofTable⟩
    rw [hReads] at hStop ⊢
    obtain ⟨list, l', hRun, hAll, hList⟩ := h.listLoop hNext hRows' hWanted' hFollows (by
      dsimp only [s₀]
      rwa [Int.zero_add, Int.zero_add]) hn
    refine ⟨list, l', ?_, hAll, hList⟩
    rw [if_neg hTakes]
    exact congrArg Option.join hRun

end Readable

end Table

end DataReel
