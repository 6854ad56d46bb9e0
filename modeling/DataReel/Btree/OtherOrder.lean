import DataReel.Btree.Contents
import DataReel.Btree.Enumerate

/-! # Searches with another comparison

A search compares with its own key alone. A tree that was made with one comparison is searched
as well with another one, as far as its keys are in order by that.
-/

namespace DataReel

variable {κ : Type} {K K' : KeyClass κ} {key key' : κ}

/-- A key compares with all keys as one of another class does. -/
structure ComparesAs (K : KeyClass κ) (key : κ) (K' : KeyClass κ) (key' : κ) : Prop where
  useBinarySearch : K.useBinarySearch = K'.useBinarySearch
  greater : ∀ k, K.greater key k = K'.greater key' k
  equal : ∀ k, K.equal key k = K'.equal key' k

namespace ComparesAs

variable (h : ComparesAs K key K' key')

include h

theorem findLinear (n : BtreeNode κ) (i : Nat) : n.findLinear K key i = n.findLinear K' key' i := by
  induction i with
  | zero => rfl
  | succ i ih =>
    simp only [BtreeNode.findLinear, h.greater, h.equal, ih]

theorem findBinary (n : BtreeNode κ) (passes : Nat) (nLeft nRight : Int) :
    n.findBinary K key passes nLeft nRight = n.findBinary K' key' passes nLeft nRight := by
  induction passes generalizing nLeft nRight with
  | zero => rfl
  | succ passes ih =>
    simp only [BtreeNode.findBinary, h.greater, h.equal, ih]

theorem findKeyLocation (n : BtreeNode κ) : n.findKeyLocation K key = n.findKeyLocation K' key' := by
  rw [BtreeNode.findKeyLocation, BtreeNode.findKeyLocation, h.useBinarySearch, h.findLinear, h.findBinary]

theorem nextWalk (reads : Nat) (a parent : FAU) (savLocation : Int) :
    nextWalk K key reads a parent savLocation = DataReel.nextWalk K' key' reads a parent savLocation := by
  induction reads generalizing a parent savLocation with
  | zero => rfl
  | succ reads ih =>
    simp only [DataReel.nextWalk, h.findKeyLocation, ih]

theorem findNext (curr : CurrNode κ) : findNext K key curr = DataReel.findNext K' key' curr := by
  simp only [DataReel.findNext, h.findKeyLocation, h.nextWalk]

/-- The searches for the key after both keys answer alike. -/
theorem step_findNext (t : Btree κ) :
    (gxBtree K).step (.findNext key) t = (gxBtree K').step (.findNext key') t := by
  simp only [gxBtree, h.findNext]

end ComparesAs

/-! ## Keys that compare equal -/

theorem readNode_state {a : FAU} {n : BtreeNode κ} {t t' : Btree κ} (h : readNode a t = .ok n t') :
    t' = t := by
  rw [readNode] at h
  split at h
  · cases h
  · split at h
    · cases h
    · cases h
      rfl

/-- A class that tells keys apart which compare equal to a key of another class. -/
structure TellsApart (K K' : KeyClass κ) (key : κ) : Prop where
  useBinarySearch : K'.useBinarySearch = K.useBinarySearch
  self : K.equal key key = true
  /-- What does not compare equal compares as it did, for each key that does. -/
  other : ∀ k x, K.equal key k = true → K.equal key x = false →
    K'.equal k x = false ∧ K'.greater k x = K.greater key x
  same : ∀ k, K.equal key k = true → K'.equal k k = true ∧ K'.greater k k = false ∧ K.greater key k = false

namespace TellsApart

/-- A search of a node passes what does not compare equal, as the searches for all keys do that do, or
it stops at such a key, where the search for that one stops. -/
def Lands (K : KeyClass κ) (key : κ) (found : KeyLocation) (found' : κ → KeyLocation) : Prop :=
  (found.rv ≠ 0 ∧ ∀ k, K.equal key k = true → found' k = found) ∨
    (found.rv = 0 ∧ ∃ k, K.equal key k = true ∧ found' k = found)

theorem Lands.of_eq {found : KeyLocation} {found' found'' : κ → KeyLocation}
    (h : Lands K key found found') (hEq : ∀ k, K.equal key k = true → found'' k = found' k) :
    Lands K key found found'' := by
  rcases h with ⟨hMiss, hAll⟩ | ⟨hHit, k, hk, hSame⟩
  · exact .inl ⟨hMiss, fun k hk => (hEq k hk).trans (hAll k hk)⟩
  · exact .inr ⟨hHit, k, hk, (hEq k hk).trans hSame⟩

variable (h : TellsApart K K' key)

include h

theorem findLinear (n : BtreeNode κ) (i : Nat) :
    Lands K key (n.findLinear K key i) fun k => n.findLinear K' k i := by
  have hOut : Lands K key ⟨-1, -1⟩ fun _ => ⟨-1, -1⟩ := .inl ⟨by simp, fun _ _ => rfl⟩
  induction i with
  | zero => exact hOut
  | succ i ih =>
    cases hEntry : n.keyEntries[i]? with
    | none =>
      simp only [BtreeNode.findLinear, hEntry]
      exact hOut
    | some e =>
      simp only [BtreeNode.findLinear, hEntry]
      cases hEqual : K.equal key e.dbKey with
      | true =>
        obtain ⟨hSelf, hNot, hNot'⟩ := h.same e.dbKey hEqual
        simp only [hNot', Bool.false_eq_true, if_false, if_true]
        refine .inr ⟨rfl, e.dbKey, hEqual, ?_⟩
        simp only [hNot, hSelf, Bool.false_eq_true, if_false, if_true]
      | false =>
        have hOther (k) (hk : K.equal key k = true) := h.other k e.dbKey hk hEqual
        cases hGreater : K.greater key e.dbKey with
        | true =>
          refine .inl ⟨by simp, fun k hk => ?_⟩
          simp only [(hOther k hk).2, hGreater, if_true]
        | false =>
          simp only [Bool.false_eq_true, if_false]
          refine ih.of_eq fun k hk => ?_
          simp only [(hOther k hk).1, (hOther k hk).2, hGreater, Bool.false_eq_true, if_false]

theorem findBinary (n : BtreeNode κ) (passes : Nat) (nLeft nRight : Int) :
    Lands K key (n.findBinary K key passes nLeft nRight) fun k =>
      n.findBinary K' k passes nLeft nRight := by
  have hOut (right : Int) : Lands K key ⟨if right < 0 then -1 else 1, right⟩
      fun _ => ⟨if right < 0 then -1 else 1, right⟩ := .inl ⟨by dsimp only; split <;> decide, fun _ _ => rfl⟩
  induction passes generalizing nLeft nRight with
  | zero => exact hOut nRight
  | succ passes ih =>
    by_cases hRange : nLeft ≤ nRight
    · cases hEntry : n.entry ((nLeft + nRight) / 2) with
      | none =>
        simp only [BtreeNode.findBinary, if_pos hRange, hEntry]
        exact .inl ⟨by simp, fun _ _ => rfl⟩
      | some e =>
        simp only [BtreeNode.findBinary, if_pos hRange, hEntry]
        cases hEqual : K.equal key e.dbKey with
        | true =>
          refine .inr ⟨rfl, e.dbKey, hEqual, ?_⟩
          simp only [(h.same e.dbKey hEqual).1, if_true]
        | false =>
          have hOther (k) (hk : K.equal key k = true) := h.other k e.dbKey hk hEqual
          simp only [Bool.false_eq_true, if_false]
          cases hGreater : K.greater key e.dbKey with
          | true =>
            rw [if_pos rfl]
            refine (ih _ _).of_eq fun k hk => ?_
            simp only [(hOther k hk).1, (hOther k hk).2, hGreater, Bool.false_eq_true, if_false, if_true]
          | false =>
            rw [if_neg Bool.false_ne_true]
            refine (ih _ _).of_eq fun k hk => ?_
            simp only [(hOther k hk).1, (hOther k hk).2, hGreater, Bool.false_eq_true, if_false]
    · simp only [BtreeNode.findBinary, if_neg hRange]
      exact hOut nRight

theorem findKeyLocation (n : BtreeNode κ) :
    Lands K key (n.findKeyLocation K key) fun k => n.findKeyLocation K' k := by
  simp only [BtreeNode.findKeyLocation, h.useBinarySearch]
  by_cases hBinary : K.useBinarySearch = true
  · simp only [if_pos hBinary]
    exact h.findBinary n _ _ _
  · simp only [if_neg hBinary]
    exact h.findLinear n _

/-- The walks from a node on go as those for a key that compares equal. -/
theorem walks (t : Btree κ) (reads : Nat) (a : FAU) : ∃ k, K.equal key k = true ∧
    DataReel.findWalk K' k reads a t = DataReel.findWalk K key reads a t ∧
    ∀ parent savLocation, DataReel.nextWalk K' k reads a parent savLocation t =
      DataReel.nextWalk K key reads a parent savLocation t := by
  induction reads generalizing a with
  | zero => exact ⟨key, h.self, rfl, fun _ _ => rfl⟩
  | succ reads ih =>
    by_cases ha : a = 0
    · refine ⟨key, h.self, ?_, fun _ _ => ?_⟩
      · simp only [DataReel.findWalk, if_pos ha]
      · simp only [DataReel.nextWalk, if_pos ha]
    · cases hRead : (readNode a : BtreeM κ _) t with
      | error e t' =>
        have ht {β : Type} (f : BtreeNode κ → BtreeM κ β) : (readNode a >>= f) t = .error e t' :=
          Exec.bind_error hRead
        refine ⟨key, h.self, ?_, fun _ _ => ?_⟩
        · simp only [DataReel.findWalk, if_neg ha, ht]
        · simp only [DataReel.nextWalk, if_neg ha, ht]
      | ok n t' =>
        obtain rfl := readNode_state hRead
        have ht {β : Type} (f : BtreeNode κ → BtreeM κ β) : (readNode a >>= f) t' = f n t' :=
          Exec.bind_ok hRead
        simp only [DataReel.findWalk, DataReel.nextWalk, if_neg ha, ht]
        rcases h.findKeyLocation n with ⟨hMiss, hAll⟩ | ⟨hHit, k, hk, hSame⟩
        · simp only [if_neg hMiss]
          cases hBranch : n.getBranch (n.findKeyLocation K key).keyLocation with
          | none =>
            refine ⟨key, h.self, ?_, fun _ _ => ?_⟩
            · simp only [hAll key h.self, if_neg hMiss, hBranch]
              rfl
            · simp only [hAll key h.self, if_neg hMiss, hBranch]
              rfl
          | some next =>
            obtain ⟨k, hk, hFind, hNext⟩ := ih next
            refine ⟨k, hk, ?_, fun parent savLocation => ?_⟩
            · simp only [hAll k hk, if_neg hMiss, hBranch]
              exact hFind
            · simp only [hAll k hk, if_neg hMiss, hBranch]
              by_cases hMore : (n.findKeyLocation K key).keyLocation < (n.keyCount : Int) - 1
              · simp only [if_pos hMore]
                exact hNext _ _
              · simp only [if_neg hMore]
                exact hNext _ _
        · refine ⟨k, hk, ?_, fun parent savLocation => ?_⟩
          · simp only [hSame, if_pos hHit]
          · simp only [hSame, if_pos hHit]

/-- The searches for the key answer as those for one that compares equal. -/
theorem step_searches (t : Btree κ) : ∃ k, K.equal key k = true ∧
    (gxBtree K).step (.find key) t = (gxBtree K').step (.find k) t ∧
      (gxBtree K).step (.findNext key) t = (gxBtree K').step (.findNext k) t := by
  obtain ⟨k, hk, hFind, hNext⟩ := h.walks t gxBtreeMaxNodeReads t.header.root
  have hNone (K : KeyClass κ) (key : κ) : ¬ (0 < (CurrNode.new : CurrNode κ).node.keyCount ∧
      ((CurrNode.new : CurrNode κ).node.findKeyLocation K key).rv = 0) := fun hBoth =>
    absurd hBoth.1 (Nat.lt_irrefl 0)
  refine ⟨k, hk, ?_, ?_⟩
  · have hRun : find K key CurrNode.new t = find K' k CurrNode.new t := by
      rw [find, find, Exec.bind_ok (Exec.get_run _), Exec.bind_ok (Exec.get_run _)]
      simp only [if_neg (hNone K key), if_neg (hNone K' k)]
      exact Exec.bind_congr hFind.symm
    exact congrArg (reply _) hRun
  · have hRun : findNext K key CurrNode.new t = findNext K' k CurrNode.new t := by
      rw [findNext_restart (hNone K key), findNext_restart (hNone K' k), hNext]
    exact congrArg (reply _) hRun

end TellsApart

variable {O : OtherTrees κ} {C C' : Comparison κ} {lo : Nat} {t : Btree κ}

/-- What a tree is depends on the comparison only by the order of its keys. -/
theorem Btree.WellFormed.of_sorted (hW : t.WellFormed O C lo) (hSorted : C'.Sorted t.keys) :
    t.WellFormed O C' lo :=
  { hW with sorted := hSorted }

namespace Btree.Stores

variable {A : KeySet K.comparison} (h : t.Stores K A)

include h

theorem nKeys : t.header.nKeys = t.keys.length := by
  obtain ⟨O, hR⟩ := h.represents
  exact hR.wellFormed.nKeys

theorem findFirst (K' : KeyClass κ) : (gxBtree K').step .findFirst t = (KeySet.answer t.keys.head?, t) := by
  obtain ⟨O, hR⟩ := h.represents
  have hW := hR.wellFormed
  have hReads := hW.reads_le
  have hAnswer := (findFirst_run hW (by omega)).1 (ready_of_keys hW).first
  have hReply := (search_agrees hR hAnswer).1
  exact Prod.ext hReply (call_state K' (c := .findFirst) id h.free)

theorem following (hK : K.StrictOrder) (key : κ) :
    (gxBtree K).step (.findNext key) t = (KeySet.answer (A.following key), t) := by
  obtain ⟨O, hR⟩ := h.represents
  have hW := hR.wellFormed
  have hReads := hW.reads_le
  have hMax : t.height + 1 ≤ gxBtreeMaxNodeReads := by
    rw [gxBtreeMaxNodeReads] at hReads ⊢
    omega
  have hRun := findNext_run key hK hW (ready_of_keys hW) hMax (CurrNode.live_new (C := K.comparison) 1 t)
  rw [hR.keySet_eq] at hRun
  exact Prod.ext (search_agrees hR hRun).1 (call_state K (c := .findNext key) id h.free)

/-- The key after one of the tree, searched for with another comparison that its keys are in order
by. -/
theorem findNext (hK' : K'.StrictOrder) (hSorted : K'.comparison.Sorted t.keys) {l r : List κ} {x : κ}
    (hKeys : t.keys = l ++ x :: r) :
    (gxBtree K').step (.findNext x) t = (KeySet.answer r.head?, t) := by
  obtain ⟨O, hR⟩ := h.represents
  have hW := hR.wellFormed.of_sorted hSorted
  have hReply := (enumerates_of_ready hK' hW (ready_of_keys hW) hW.reads_le).next x l x r hKeys
    (hK'.strict.eqv_refl x)
  exact Prod.ext hReply (call_state K' (c := .findNext x) id h.free)

/-- The walk with the node of the last search, with such a comparison. -/
theorem walk_eq (hK' : K'.StrictOrder) (hSorted : K'.comparison.Sorted t.keys) {n : Nat}
    (hn : t.keys.length < n) : walk (DataReel.findNext K') n DataReel.findFirst t = (t.keys, .zero) := by
  obtain ⟨O, hR⟩ := h.represents
  have hW := hR.wellFormed.of_sorted hSorted
  exact (enumerates_of_ready hK' hW (ready_of_keys hW) hW.reads_le).forwardCurr n hn

end Btree.Stores

/-! ## Classes that search alike -/

section SearchesAs

variable {K K' : KeyClass κ}

/-- Two classes whose searches in a node answer alike. -/
def SearchesAs (K K' : KeyClass κ) : Prop :=
  ∀ (n : BtreeNode κ) (key : κ), n.findKeyLocation K key = n.findKeyLocation K' key

namespace SearchesAs

theorem of_comparesAs (h : ∀ key, ComparesAs K key K' key) : SearchesAs K K' :=
  fun n key => (h key).findKeyLocation n

variable (h : SearchesAs K K')

include h

theorem insertWalk (key : κ) (reads : Nat) (a : FAU) (curr : BtreeNode κ) (loc : Int)
    (stack : List FAU) :
    insertWalk K key reads a curr loc stack = DataReel.insertWalk K' key reads a curr loc stack := by
  induction reads generalizing a curr loc stack with
  | zero => rfl
  | succ reads ih =>
    simp only [DataReel.insertWalk, h _ _, ih]

theorem insertLoop (stack : List FAU) (numSplits : Nat) (key : DatabaseKey κ) (curr : BtreeNode κ)
    (loc : Int) (reads : Nat) :
    insertLoop K stack numSplits key curr loc reads =
      DataReel.insertLoop K' stack numSplits key curr loc reads := by
  induction stack generalizing numSplits key curr loc reads with
  | nil => rfl
  | cons a stack ih =>
    simp only [DataReel.insertLoop, insertLocate, h _ _, ih]

theorem insertDatabaseKey (key : DatabaseKey κ) :
    insertDatabaseKey K key = DataReel.insertDatabaseKey K' key := by
  simp only [DataReel.insertDatabaseKey, h.insertWalk, h.insertLoop]

theorem findWalk (key : κ) (reads : Nat) (a : FAU) :
    findWalk K key reads a = DataReel.findWalk K' key reads a := by
  induction reads generalizing a with
  | zero => rfl
  | succ reads ih => simp only [DataReel.findWalk, h _ _, ih]

theorem deleteWalk (key : κ) (reads : Nat) (a : FAU) (stack : List FAU) :
    deleteWalk K key reads a stack = DataReel.deleteWalk K' key reads a stack := by
  induction reads generalizing a stack with
  | zero => rfl
  | succ reads ih => simp only [DataReel.deleteWalk, h _ _, ih]

theorem balanceLoop (key : κ) (stack : List FAU) :
    balanceLoop K key stack = DataReel.balanceLoop K' key stack := by
  induction stack with
  | nil => rfl
  | cons a stack ih => simp only [DataReel.balanceLoop, h _ _, ih]

theorem deleteDatabaseKey (key : DatabaseKey κ) :
    deleteDatabaseKey K key = DataReel.deleteDatabaseKey K' key := by
  simp only [DataReel.deleteDatabaseKey, finishDelete, h.deleteWalk, h.balanceLoop]

theorem fastDeleteDatabaseKey (key : DatabaseKey κ) :
    fastDeleteDatabaseKey K key = DataReel.fastDeleteDatabaseKey K' key := by
  simp only [DataReel.fastDeleteDatabaseKey, h.findWalk]

theorem find (key : κ) (curr : CurrNode κ) : find K key curr = DataReel.find K' key curr := by
  simp only [DataReel.find, h _ _, h.findWalk]

theorem nextWalk (key : κ) (reads : Nat) (a parent : FAU) (savLocation : Int) :
    nextWalk K key reads a parent savLocation = DataReel.nextWalk K' key reads a parent savLocation := by
  induction reads generalizing a parent savLocation with
  | zero => rfl
  | succ reads ih => simp only [DataReel.nextWalk, h _ _, ih]

theorem findNext (key : κ) (curr : CurrNode κ) : findNext K key curr = DataReel.findNext K' key curr := by
  simp only [DataReel.findNext, h _ _, h.nextWalk]

theorem prevWalk (key : κ) (reads : Nat) (a : FAU) (parent : Option (BtreeNode κ)) (savLocation : Int) :
    prevWalk K key reads a parent savLocation = DataReel.prevWalk K' key reads a parent savLocation := by
  induction reads using Nat.strongRecOn generalizing a parent savLocation with
  | ind reads ih =>
    match reads with
    | 0 => rw [DataReel.prevWalk.eq_def, DataReel.prevWalk.eq_def K']
    | 1 =>
      rw [DataReel.prevWalk.eq_def, DataReel.prevWalk.eq_def K']
      simp only [h _ _, ih 0 (by omega)]
    | reads + 2 =>
      rw [DataReel.prevWalk.eq_def, DataReel.prevWalk.eq_def K']
      simp only [h _ _, ih reads (by omega), ih (reads + 1) (by omega)]

theorem findPrev (key : κ) (curr : CurrNode κ) : findPrev K key curr = DataReel.findPrev K' key curr := by
  simp only [DataReel.findPrev, h _ _, h.prevWalk]

/-- Trees of the two classes go through the same states. -/
theorem gxBtree_eq : gxBtree K = gxBtree K' := by
  apply congrArg Machine.mk
  funext c
  cases c <;> simp only [h.insertDatabaseKey, h.deleteDatabaseKey, h.fastDeleteDatabaseKey, h.find, h.findNext,
    h.findPrev]

end SearchesAs

end SearchesAs

end DataReel
