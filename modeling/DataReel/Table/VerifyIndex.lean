import DataReel.Table.SortOrder

/-! # The test of an index

`VerifyIndex` reads the record of each key and compares the number of the keys with the number of the
blocks. It does not test that a record has the key, nor that each block has one.
-/

namespace DataReel

open Record (OfTable)

namespace Database

variable {d : Database}

theorem Counted.test (h : d.Counted) (hFile : d.Undamaged) : d.testFileHeader.Counted := by
  obtain ⟨blocks, free, hIntact⟩ := hFile
  have hBlocks : d.testFileHeader.blocks = d.blocks := by
    rw [hIntact.test.1.holds.blocks_eq, hIntact.holds.blocks_eq]
  constructor
  · rw [hIntact.test_test, hBlocks]
    exact h.stats
  · rw [hIntact.test_test, hBlocks, hIntact.scanBlocks_test.1]
    exact h.start

theorem Undamaged.objects_test (h : d.Undamaged) : d.testFileHeader.objects = d.objects := by
  obtain ⟨blocks, free, hIntact⟩ := h
  rw [objects, objects, hIntact.test.1.holds.blocks_eq, hIntact.holds.blocks_eq,
    hIntact.scanBlocks_test.2.1]

end Database

/-- The key after one of the tree, with a node that a search has left and another comparison. -/
theorem Btree.Stores.findNext_curr {κ : Type} {K K' : KeyClass κ} {t : Btree κ} {A : KeySet K.comparison}
    (h : t.Stores K A) (hK' : K'.StrictOrder) (hSorted : K'.comparison.Sorted t.keys) {l r : List κ} {x : κ}
    (hKeys : t.keys = l ++ x :: r) {curr : CurrNode κ} (hLive : curr.Live K'.comparison 1 t) :
    Answers K'.comparison 1 t (DataReel.findNext K' x curr t) r.head? := by
  obtain ⟨O, hR⟩ := h.represents
  have hW := hR.wellFormed.of_sorted hSorted
  have hReads := hW.reads_le
  have hRun := findNext_run x hK' hW (ready_of_keys hW) (by rw [gxBtreeMaxNodeReads] at hReads ⊢; omega)
    hLive
  rwa [KeySet.following_of_split hK'.strict (A := hW.keySet) hKeys (hK'.strict.eqv_refl x)] at hRun

namespace Table

variable (M : Table) (d : Database)

/-- A record of the table is read from a block, whatever the record that it is read into held. -/
def ReadsWell (a : FAU) : Prop :=
  ∀ position r, r.WellFormed M.types → OfTable M.created.2 r → ∃ r',
    M.read d position a r = some (.returned .noError r') ∧ r'.WellFormed M.types ∧ OfTable M.created.2 r'

/-- A read from a block is refused. -/
def Refuses (a : FAU) : Prop :=
  ∀ position r, r.WellFormed M.types → OfTable M.created.2 r →
    M.read d position a r = none ∨ ∃ err r', err ≠ .noError ∧ M.read d position a r = some (.returned err r')

/-- A test of an index ends, and it finds what it is to find. -/
def Verifies (dup useBinarySearch useSingleCompare : Bool) (t : Btree RdbmsKey) (field : Nat)
    (position : Fin 3 → Int) : Prop :=
  ∃ m good count, (∀ n, m ≤ n →
      M.verifyIndex (rdbmsKey false useBinarySearch useSingleCompare) d n position t = some (good, count)) ∧
    (good = true ↔ ∃ rows, M.Agrees d dup useBinarySearch useSingleCompare t field rows) ∧
    (good = true → count = d.objects.length)

variable {M} {d} {dup useBinarySearch useSingleCompare : Bool} {t : Btree RdbmsKey} {key : RdbmsKey}
  {keys : List RdbmsKey} {s : VerifyState} {K : KeyClass RdbmsKey}

/-- A state of the walk before a key is read. -/
structure Verifying (M : Table) (t : Btree RdbmsKey) (key : RdbmsKey) (s : VerifyState) : Prop where
  key : s.key = key
  tree : s.tree = t
  wellFormed : s.record.WellFormed M.types
  ofTable : OfTable M.created.2 s.record

theorem verifyKey_eq (hs : M.Verifying t key s) (h : M.ReadsWell d key.kid ∨ M.Refuses d key.kid) :
    (M.ReadsWell d key.kid ∧ ∃ s', M.verifyKey d s = some (.inr s') ∧ M.Verifying t key s' ∧
      s'.currNode = s.currNode ∧ s'.keys = s.keys + 1) ∨
    (M.Refuses d key.kid ∧ M.verifyKey d s = some (.inl false)) := by
  rw [verifyKey, hs.key]
  rcases h with hReads | hRefuses
  · obtain ⟨r, hRead, hWell, hOf⟩ := hReads s.position s.record hs.wellFormed hs.ofTable
    left
    rw [hRead]
    exact ⟨hReads, _, rfl, ⟨rfl, hs.tree, hWell, hOf⟩, rfl, rfl⟩
  · right
    refine ⟨hRefuses, ?_⟩
    rcases hRefuses s.position s.record hs.wellFormed hs.ofTable with hNone | ⟨err, r, hErr, hRead⟩
    · rw [hNone]
    · rw [hRead]
      cases err with
      | noError => exact absurd rfl hErr
      | _ => rfl

/-- The loop goes to the last key, or to one whose record is not read. -/
theorem verifyLoop (hNext : ∀ l x r curr, t.keys = l ++ x :: r → curr.Live K.comparison 1 t →
      Answers K.comparison 1 t (findNext K x curr t) r.head?)
    {l : List RdbmsKey} (hKeys : t.keys = l ++ key :: keys)
    (hSafe : ∀ k ∈ keys, M.ReadsWell d k.kid ∨ M.Refuses d k.kid) (hs : M.Verifying t key s)
    (hLive : s.currNode.Live K.comparison 1 t) :
    ((∀ k ∈ keys, M.ReadsWell d k.kid) ∧ ∃ s', s'.keys = s.keys + keys.length ∧ ∀ n, keys.length < n →
      Loop.result (M.verifyTurn K d) n s = some (some (.inr s'))) ∨
    ((∃ k ∈ keys, M.Refuses d k.kid) ∧ ∃ count, ∀ n, keys.length < n →
      Loop.result (M.verifyTurn K d) n s = some (some (.inl (false, count)))) := by
  induction keys generalizing l key s with
  | nil =>
    obtain ⟨e, hRun⟩ := hNext l key [] s.currNode hKeys hLive
    left
    refine ⟨nofun, s, rfl, fun n hn => ?_⟩
    obtain ⟨n, rfl⟩ : ∃ m, n = m + 1 := ⟨n - 1, by rw [List.length_nil] at hn; omega⟩
    rw [Loop.result, verifyTurn, hs.key, hs.tree, hRun]
  | cons k keys ih =>
    obtain ⟨x, curr, hRun, rfl, hLive'⟩ := hNext l key (k :: keys) s.currNode hKeys hLive
    have hAt : M.Verifying t x.dbKey { s with key := x.dbKey, currNode := curr, tree := t } :=
      ⟨rfl, rfl, hs.wellFormed, hs.ofTable⟩
    have hTurn (n : Nat) (hn : (x.dbKey :: keys).length < n) : ∃ m, n = m + 1 ∧ keys.length < m :=
      ⟨n - 1, by rw [List.length_cons] at hn; omega⟩
    rcases verifyKey_eq hAt (hSafe x.dbKey List.mem_cons_self) with
      ⟨hReads, s', hKey, hs', hCurr, hCount⟩ | ⟨hRefuses, hKey⟩
    · have hStep (m : Nat) : Loop.result (M.verifyTurn K d) (m + 1) s =
          Loop.result (M.verifyTurn K d) m s' := by
        rw [Loop.result, verifyTurn, hs.key, hs.tree, hRun]
        dsimp only
        rw [hKey]
      rcases ih (l := l ++ [key]) (by rw [hKeys, List.append_assoc]; rfl)
          (fun k hk => hSafe k (List.mem_cons_of_mem _ hk)) hs' (by rwa [hCurr]) with
        ⟨hAll, s'', hTotal, hLoop⟩ | ⟨⟨k, hk, hNot⟩, count, hLoop⟩
      · left
        refine ⟨List.forall_mem_cons.mpr ⟨hReads, hAll⟩, s'', ?_, fun n hn => ?_⟩
        · rw [hTotal, hCount, List.length_cons, Nat.add_assoc, Nat.add_comm 1]
        · obtain ⟨m, rfl, hm⟩ := hTurn n hn
          rw [hStep, hLoop m hm]
      · right
        refine ⟨⟨k, List.mem_cons_of_mem _ hk, hNot⟩, count, fun n hn => ?_⟩
        obtain ⟨m, rfl, hm⟩ := hTurn n hn
        rw [hStep, hLoop m hm]
    · right
      refine ⟨⟨x.dbKey, List.mem_cons_self, hRefuses⟩, s.keys, fun n hn => ?_⟩
      obtain ⟨m, rfl, -⟩ := hTurn n hn
      rw [Loop.result, verifyTurn, hs.key, hs.tree, hRun]
      dsimp only
      rw [hKey]

section Run

variable {A : KeySet (rdbmsKey dup useBinarySearch useSingleCompare).comparison}

/-- What a test of an index returns. -/
theorem verifyIndex_eq (hReady : M.Ready) (hFile : d.Undamaged) (hCounted : d.Counted)
    (hStores : t.Stores (rdbmsKey dup useBinarySearch useSingleCompare) A)
    (hValues : (t.keys.map RdbmsKey.k).Nodup)
    (hSafe : ∀ k ∈ t.keys, M.ReadsWell d.testFileHeader k.kid ∨ M.Refuses d.testFileHeader k.kid)
    (position : Fin 3 → Int) :
    ((∀ k ∈ t.keys, M.ReadsWell d.testFileHeader k.kid) ∧ ∀ n, d.fileSize.toNat < n → t.keys.length < n →
      M.verifyIndex (rdbmsKey false useBinarySearch useSingleCompare) d n position t =
        some (decide (t.keys.length = d.objects.length), t.keys.length)) ∨
    ((∃ k ∈ t.keys, M.Refuses d.testFileHeader k.kid) ∧ ∃ count, ∀ n, t.keys.length < n →
      M.verifyIndex (rdbmsKey false useBinarySearch useSingleCompare) d n position t =
        some (false, count)) := by
  have hK := rdbmsKey_strictOrder false useBinarySearch useSingleCompare
  have hSorted := hStores.sorted_of_nodup hValues
  have hBlocks (n : Nat) (hn : d.fileSize.toNat < n) :
      d.testFileHeader.normalBlocks n (position 1) (position 2) = some (d.objects.length : Int) := by
    have hSize : d.testFileHeader.fileSize.toNat < n := by
      rwa [hFile.testFileHeader.2.2.2.1]
    rw [Database.normalBlocks_eq, hFile.testFileHeader.1.normalBlocksRun_eq (hCounted.test hFile) hSize,
      hFile.objects_test]
    rfl
  have hFirst := hStores.findFirst (rdbmsKey false useBinarySearch useSingleCompare)
  cases hAll : t.keys with
  | nil =>
    have hNumber : t.header.nKeys = 0 := by
      rw [hStores.nKeys, hAll]
      rfl
    left
    refine ⟨nofun, fun n hn _ => ?_⟩
    rw [hAll] at hFirst
    rw [verifyIndex, hFirst]
    simp only [List.head?_nil, KeySet.answer, hBlocks n hn, hNumber, Option.bind_eq_bind, Option.bind_some]
    simp [eq_comm]
  | cons key keys =>
    rw [hAll] at hFirst hSafe
    have hAt : M.Verifying t key ⟨key, CurrNode.new, t, position 0, M.created.2, 0⟩ :=
      ⟨rfl, rfl, hReady.wellFormed, OfTable.refl _⟩
    have hLess (n : Nat) (hn : (key :: keys).length < n) : keys.length < n := by
      rw [List.length_cons] at hn
      omega
    rcases verifyKey_eq hAt (hSafe key List.mem_cons_self) with
      ⟨hReads, s, hKey, hs, hCurr, hCount⟩ | ⟨hRefuses, hKey⟩
    · have hLive : s.currNode.Live (rdbmsKey false useBinarySearch useSingleCompare).comparison 1 t := by
        rw [hCurr]
        exact CurrNode.live_new 1 t
      rcases verifyLoop (fun l x r curr hSplit => hStores.findNext_curr hK hSorted hSplit) (l := [])
          hAll (fun k hk => hSafe k (List.mem_cons_of_mem _ hk)) hs hLive with
        ⟨hRest, s', hTotal, hLoop⟩ | ⟨⟨k, hk, hNot⟩, count, hLoop⟩
      · left
        refine ⟨List.forall_mem_cons.mpr ⟨hReads, hRest⟩, fun n hn hKeys => ?_⟩
        have hNumber : s'.keys = (key :: keys).length := by
          rw [hTotal, hCount, List.length_cons, Nat.zero_add, Nat.add_comm]
        rw [verifyIndex, hFirst]
        simp only [List.head?_cons, KeySet.answer, hKey, hLoop n (hLess n hKeys), hBlocks n hn, hNumber,
          Option.bind_eq_bind, Option.bind_some, Option.pure_def, Nat.cast_inj]
      · right
        refine ⟨⟨k, List.mem_cons_of_mem _ hk, hNot⟩, count, fun n hKeys => ?_⟩
        rw [verifyIndex, hFirst]
        simp only [List.head?_cons, KeySet.answer, hKey, hLoop n (hLess n hKeys), Option.bind_eq_bind,
          Option.bind_some]
        rfl
    · right
      refine ⟨⟨key, List.mem_cons_self, hRefuses⟩, 0, fun n _ => ?_⟩
      rw [verifyIndex, hFirst]
      simp only [List.head?_cons, KeySet.answer, hKey, Option.bind_eq_bind, Option.bind_some]
      rfl

end Run

/-- Rows that agree are read. -/
theorem Agrees.readsWell {field : Nat} {rows : List Row}
    (h : M.Agrees d dup useBinarySearch useSingleCompare t field rows) {k : RdbmsKey} (hk : k ∈ t.keys) :
    M.ReadsWell d.testFileHeader k.kid := by
  rw [h.keys] at hk
  obtain ⟨row, hRow, rfl⟩ := List.mem_map.mp hk
  intro position r hWell hOf
  obtain ⟨r', hRead, hAlike, hOf'⟩ :=
    (h.stored_test hRow).read h.ready h.undamaged.testFileHeader.1 hWell hOf position
  exact ⟨r', hRead, hAlike.left, hOf'⟩

theorem Refuses.not_readsWell {a : FAU} (hReady : M.Ready) (h : M.Refuses d a) : ¬ M.ReadsWell d a := by
  intro hReads
  obtain ⟨r, hRead, -⟩ := hReads 0 _ hReady.wellFormed (OfTable.refl _)
  rcases h 0 _ hReady.wellFormed (OfTable.refl _) with hNone | ⟨err, r', hErr, hOther⟩
  · rw [hNone] at hRead
    cases hRead
  · rw [hOther] at hRead
    cases hRead
    exact hErr rfl

end Table

end DataReel
