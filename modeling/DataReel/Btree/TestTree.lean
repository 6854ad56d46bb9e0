import DataReel.Btree.Mixed
import DataReel.Btree.PartialSearch

/-! # Calls with all their arguments

A search with `test_tree` compares the header in memory with the one on disk
and reloads it on any difference. Updates change the one in memory and leave
the one on disk to the next flush.
-/

namespace DataReel

variable {κ : Type} {O : OtherTrees κ} {K : KeyClass κ} {lo : Nat}

/-- The error number of `TestTree`: the last member that differs in the order of its tests. -/
def BtreeHeader.testTree (curr h : BtreeHeader) : Nat :=
  if curr.numTrees ≠ h.numTrees then 7
  else if curr.root ≠ h.root then 6
  else if curr.btreeHeight ≠ h.btreeHeight then 5
  else if curr.nNodes ≠ h.nNodes then 4
  else if curr.nKeys ≠ h.nKeys then 3
  else if curr.keySize ≠ h.keySize then 2
  else if curr.nodeOrder ≠ h.nodeOrder then 1
  else 0

/-- `ReInit` without its flush. Its callers do not look at what `ReadBtreeHeader` returns. -/
def Btree.reInit (t : Btree κ) (headerAddress : FAU) : Btree κ :=
  match readBtreeHeader { t with headerAddress := headerAddress } with
  | .ok _ t | .error _ t => t

def Btree.testTree (t : Btree κ) (headerAddress : FAU) (reinit : Bool) : Nat × Btree κ :=
  let t := { t with headerAddress := headerAddress }
  match t.f.header headerAddress with
  | none => (8, t)
  | some curr =>
    let errorNumber := curr.testTree t.header
    (errorNumber, if 0 < errorNumber ∧ reinit then t.reInit headerAddress else t)

inductive Search (κ : Type)
  | find (key : κ)
  | findFirst
  | findLast
  | findNext (key : κ)
  | findPrev (key : κ)
  | partialFind (key : κ)

def Search.run (K : KeyClass κ) : Search κ → BtreeM κ (DatabaseKey κ × CurrNode κ)
  | .find key => DataReel.find K key CurrNode.new
  | .findFirst => DataReel.findFirst
  | .findLast => DataReel.findLast
  | .findNext key => DataReel.findNext K key CurrNode.new
  | .findPrev key => DataReel.findPrev K key CurrNode.new
  | .partialFind key => DataReel.partialFind K key

/-- The public calls of a tree. -/
inductive TreeCall (κ : Type)
  | insert (key : DatabaseKey κ) (flushdb : Bool)
  | delete (key : DatabaseKey κ) (flushdb : Bool)
  | fastDelete (key : DatabaseKey κ) (flushdb : Bool)
  | search (s : Search κ) (testTree : Bool)

def treeCalls (K : KeyClass κ) : Machine (TreeCall κ) (Reply κ) (Btree κ) where
  step
    | .insert key flushdb => updated flushdb (insertDatabaseKey K key)
    | .delete key flushdb => updated flushdb (deleteDatabaseKey K key)
    | .fastDelete key flushdb => updated flushdb (fastDeleteDatabaseKey K key)
    | .search s testTree => fun t =>
      searched (s.run K) (if testTree then (t.testTree t.headerAddress true).2 else t)

namespace KeySet

variable {C : Comparison κ}

def search (A : KeySet C) : Search κ → Option κ
  | .find key => A.find key
  | .findFirst => A.first
  | .findLast => A.last
  | .findNext key => A.following key
  | .findPrev key => A.preceding key
  | .partialFind key => A.atLeast key

/-- A finite set of keys under the calls of a tree. -/
def treeCalls (hC : C.Strict) : Machine (TreeCall κ) (Reply κ) (KeySet C) where
  step
    | .insert key _ => insertKey hC key.dbKey
    | .delete key _ => deleteKey key.dbKey
    | .fastDelete key _ => deleteKey key.dbKey
    | .search s _ => fun A => (answer (A.search s), A)

end KeySet

/-! ## Searches -/

/-- The leaf that the search loads its key from is not empty. -/
def Search.Ready (K : KeyClass κ) (t : Btree κ) : Search κ → Prop
  | .find _ | .partialFind _ => True
  | .findFirst => firstReady t
  | .findLast => lastReady t
  | .findNext key => ∀ h f e path, t.EntryAt K.comparison key h f e path →
      nextReady t.f.node e h ∨ f.keysRight t.f.node h e path = []
  | .findPrev key => ∀ h f e path, t.EntryAt K.comparison key h f e path → prevReady t.f.node f h

theorem Btree.Ready.search {C : KeyClass κ} {t : Btree κ} (hReady : t.Ready C.comparison lo)
    (hW : t.WellFormed O C.comparison lo) (s : Search κ) : s.Ready C t := by
  cases s with
  | find | partialFind => trivial
  | findFirst => exact hReady.first
  | findLast => exact hReady.last
  | findNext key => exact fun h f e path hE => hReady.next h f e path (hE.hasEntry hW)
  | findPrev key => exact fun h f e path hE => hReady.prev h f e path (hE.hasEntry hW)

theorem searched_agrees (hK : K.StrictOrder) {t : Btree κ} {A : KeySet K.comparison}
    (hR : Represents O K.comparison lo t A) (hReads : 2 * t.height ≤ gxBtreeMaxNodeReads)
    {s : Search κ} (hReady : s.Ready K t) :
    Agree O lo (searched (s.run K) t) (KeySet.answer (A.search s), A) := by
  have hW := hR.wellFormed
  have hMax : t.height + 1 ≤ gxBtreeMaxNodeReads := by
    rw [gxBtreeMaxNodeReads] at hReads ⊢
    omega
  have hLive := CurrNode.live_new (C := K.comparison) lo t
  have hRestart (key : κ) : ¬ (0 < (CurrNode.new : CurrNode κ).node.keyCount ∧
      ((CurrNode.new : CurrNode κ).node.findKeyLocation K key).rv = 0) :=
    fun hTurn => absurd hTurn.1 (Nat.lt_irrefl 0)
  have hSet := hR.keySet_eq
  cases s with
  | find key =>
    have hRun := find_run key hK hW (by omega) hLive
    exact search_agrees hR (hSet ▸ hRun)
  | findFirst =>
    have hRun := (findFirst_run hW (by omega)).1 hReady
    exact search_agrees hR (hSet ▸ hRun)
  | findLast =>
    have hRun := (findLast_run hW (by omega)).1 hReady
    exact search_agrees hR (hSet ▸ hRun)
  | findNext key =>
    have hRun := nextWalk_run key hK hW hMax hReady
    rw [← findNext_restart (hRestart key)] at hRun
    exact search_agrees hR (hSet ▸ hRun)
  | findPrev key =>
    have hRun := prevWalk_run key hK hW hReads hReady
    rw [← findPrev_restart (hRestart key)] at hRun
    exact search_agrees hR (hSet ▸ hRun)
  | partialFind key =>
    have hRun := partialFind_run hK hW hMax key
    exact search_agrees hR (hSet ▸ hRun)

/-! ## One user -/

theorem BtreeHeader.testTree_self (h : BtreeHeader) : h.testTree h = 0 := by
  simp [BtreeHeader.testTree]

theorem Btree.testTree_same {t : Btree κ} (hDisk : t.f.header t.headerAddress = some t.header) :
    (t.testTree t.headerAddress true).2 = t := by
  rw [Btree.testTree, hDisk]
  dsimp only
  rw [BtreeHeader.testTree_self, if_neg (by simp)]

/-- The call finds space, reads enough and finds keys where it loads them from, and a search
with `test_tree` comes when the header on disk is up to date. -/
structure TreeCall.Safe (K : KeyClass κ) (c : TreeCall κ) (t : Btree κ) : Prop where
  reads : 2 * t.height ≤ gxBtreeMaxNodeReads
  alloc : ((treeCalls K).step c t).2.f.allocFailed = false
  delete : ∀ key flushdb, c = .delete key flushdb → DeleteSafe K t key.dbKey
  search : ∀ s testTree, c = .search s testTree → s.Ready K t
  flushed : ∀ s, c = .search s true → t.f.header t.headerAddress = some t.header

theorem treeCalls_simulates (hK : K.StrictOrder) :
    (treeCalls K).Simulates (KeySet.treeCalls hK.strict) (TreeCall.Safe K)
      (Represents O K.comparison 0) := by
  have hAgree : ∀ {c : TreeCall κ} {t : Btree κ} {A : KeySet K.comparison},
      Represents O K.comparison 0 t A → c.Safe K t →
      Agree O 0 ((treeCalls K).step c t) ((KeySet.treeCalls hK.strict).step c A) := by
    rintro c t A hR ⟨hReads, hAlloc, hDelete, hSearch, hFlushed⟩
    have hW := hR.wellFormed
    cases c with
    | insert key flushdb =>
      exact insert_agrees hK hR hReads key (splitsKeep_of_few (Nat.zero_le 1) hW _) flushdb hAlloc
    | delete key flushdb =>
      exact delete_agrees_of_run hK hR flushdb (deleteDatabaseKey_run hK (few_le_half (Nat.zero_le 1) t) hW
        (by omega) (hDelete key flushdb rfl) key.rightChild)
    | fastDelete key flushdb =>
      exact delete_agrees_of_run hK hR flushdb (fastDeleteDatabaseKey_run hK hW hReads key.rightChild)
    | search s testTree =>
      have hSame : (if testTree then (t.testTree t.headerAddress true).2 else t) = t := by
        cases testTree with
        | false => rfl
        | true => exact t.testTree_same (hFlushed s rfl)
      change Agree O 0 (searched (s.run K) (if testTree then _ else t)) _
      rw [hSame]
      exact searched_agrees hK hR hReads (hSearch s testTree rfl)
  exact ⟨fun hR hCall => (hAgree hR hCall).1, fun hR hCall => (hAgree hR hCall).2⟩

/-- A tree with one user is a finite set of keys along every run of safe calls. -/
theorem treeCalls_refines_keySet (hK : K.StrictOrder) {L : FileLayout}
    {order keySize numTrees : Int} {allocsLeft : Option Nat} {t : Btree κ} (hOrder : 5 ≤ order)
    (hCreate : Btree.create L order keySize numTrees allocsLeft = .ok () t)
    {calls : List (TreeCall κ)} (hSafe : (treeCalls K).Along (TreeCall.Safe K) calls t) :
    ((treeCalls K).run calls t).1 = ((KeySet.treeCalls hK.strict).run calls KeySet.empty).1 ∧
      ((treeCalls K).run calls t).2.keys =
        ((KeySet.treeCalls hK.strict).run calls KeySet.empty).2.keys := by
  obtain ⟨O, hW, hKeys, -⟩ := Btree.create_run (C := K.comparison) hOrder hCreate 0
  obtain ⟨hReplies, hLast⟩ := (treeCalls_simulates hK).run (t := KeySet.empty) ⟨hW, hKeys⟩ hSafe
  exact ⟨hReplies, hLast.keys⟩

/-- A key that was flushed, and one that was not but is looked up without a test. -/
theorem treeCalls_refines_keySet_int :
    ((treeCalls KeyClass.int).run [.insert ⟨0, 1⟩ true, .search (.find 1) true,
      .insert ⟨0, 2⟩ false, .search (.partialFind 2) false, .fastDelete ⟨0, 1⟩ true,
      .search (.find 1) true] (intTree 5 none)).1 =
        [.done, .found 1, .done, .found 2, .done, .zero] := by
  refine (treeCalls_refines_keySet KeyClass.int_strictOrder (by decide) create_intTree ?_).1.trans
    (by decide)
  exact ⟨⟨by decide, by decide, nofun, nofun, nofun⟩,
    ⟨by decide, by decide, nofun, fun s b h => by cases h; trivial, fun s h => by decide⟩,
    ⟨by decide, by decide, nofun, nofun, nofun⟩,
    ⟨by decide, by decide, nofun, fun s b h => by cases h; trivial, nofun⟩,
    ⟨by decide, by decide, nofun, nofun, nofun⟩,
    ⟨by decide, by decide, nofun, fun s b h => by cases h; trivial, fun s h => by decide⟩, trivial⟩

/-- The fifth key splits the root. A test then brings the old root back, and the keys in the new
half are lost. -/
theorem testTree_loses_keys_int :
    let calls : List (TreeCall Int) := [.insert ⟨0, 1⟩ false, .insert ⟨0, 2⟩ false,
      .insert ⟨0, 3⟩ false, .insert ⟨0, 4⟩ false, .insert ⟨0, 5⟩ false,
      .search (.find 5) false, .search (.find 5) true, .search (.find 5) false]
    ((treeCalls KeyClass.int).run calls (intTree 5 none)).1 =
        [.done, .done, .done, .done, .done, .found 5, .zero, .zero] ∧
      ((KeySet.treeCalls KeyClass.int_strictOrder.strict).run calls KeySet.empty).1 =
        [.done, .done, .done, .done, .done, .found 5, .found 5, .found 5] := by
  decide

end DataReel
