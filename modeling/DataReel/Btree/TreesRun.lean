import DataReel.Btree.Trees

/-! # Runs on a new file with several trees -/

namespace DataReel

variable {κ : Type} {L : FileLayout} {K : KeyClass κ} {C : Comparison κ} {order numTrees : Int}
  {H : Nat → BtreeHeader} {k : Nat} {roots : List FAU} {t t' : Btree κ}

/-- A file under creation that has the headers of `k` trees. -/
structure Planted (L : FileLayout) (order : Int) (H : Nat → BtreeHeader) (k : Nat) (roots : List FAU)
    (t : Btree κ) : Prop extends Creating order roots t where
  saved : ∀ i < k, t.f.header (treeAddress L i) = some (H i)
  perm : ((List.range k).map fun i => (H i).root).Perm roots
  freeList : t.f.freeList = []
  allBlocks : 0 < k → t.f.Blocks OtherTrees.none roots
  last : ∀ j, k = j + 1 → t.headerAddress = treeAddress L j ∧ t.header = H j

theorem IndexFile.alloc_freeList (f : IndexFile κ) (hFree : f.freeList = []) :
    f.alloc.2.freeList = [] := by
  rcases f.alloc_cases with h | ⟨a, rest, hList, -⟩ | ⟨-, -, h⟩
  · rw [h]
    exact hFree
  · rw [hFree] at hList
    cases hList
  · rw [h]
    exact hFree

theorem Planted.addTree (hT : Planted L order H k roots t) (hAlloc : t.f.alloc.1 ≠ 0) (n : Int) :
    Planted L order (Function.update H k (t.addTree (treeAddress L k) n).header) (k + 1)
      (t.f.alloc.1 :: roots) (t.addTree (treeAddress L k) n) := by
  have hNew := hT.toCreating.addTree hAlloc (treeAddress L k) n
  refine ⟨hNew.toCreating, fun i hi => ?_, ?_, ?_, fun _ => hNew.allBlocks, ?_⟩
  · change Function.update t.f.alloc.2.header (treeAddress L k) _ (treeAddress L i) = _
    by_cases hLast : i = k
    · subst hLast
      rw [Function.update_self, Function.update_self]
      rfl
    · rw [Function.update_of_ne fun hEq => hLast (treeAddress_inj hEq), Function.update_of_ne hLast,
        IndexFile.alloc_header]
      exact hT.saved i (by omega)
  · have hOld : (List.range k).map (fun i => (Function.update H k
        (t.addTree (treeAddress L k) n).header i).root) = (List.range k).map fun i => (H i).root := by
      refine List.map_congr_left fun i hi => ?_
      have hi := List.mem_range.mp hi
      rw [Function.update_of_ne (by omega)]
    rw [List.range_succ, List.map_append, List.map_singleton, Function.update_self, hOld]
    exact List.perm_append_comm.trans (hT.perm.cons _)
  · exact IndexFile.alloc_freeList _ hT.freeList
  · rintro j hj
    obtain rfl : j = k := by omega
    refine ⟨rfl, ?_⟩
    rw [Function.update_self]

theorem createTrees_planted {n : Nat} (hT : Planted L order H k roots t)
    (hRun : createTrees numTrees n (treeAddress L k) t = .ok () t') :
    ∃ H' roots', Planted L order H' (k + n) roots' t' := by
  induction n generalizing t k H roots with
  | zero =>
    cases hRun
    exact ⟨H, roots, hT⟩
  | succ n ih =>
    obtain ⟨_, u, hTree, hRest⟩ := Exec.of_bind_ok hRun
    obtain ⟨hAlloc, rfl⟩ := initBtreeCreate_run hTree
    have hNext : treeAddress L k + sizeOfBtreeHeader = treeAddress L (k + 1) := by
      change (L.fileHeaderSize : Int) + k * 56 + 56 = L.fileHeaderSize + (k + 1 : Nat) * 56
      omega
    rw [hNext] at hRest
    obtain ⟨H', roots', hT'⟩ := ih (hT.addTree hAlloc _) hRest
    exact ⟨H', roots', by rwa [show k + (n + 1) = k + 1 + n by omega]⟩

theorem Planted.forest (hOrder : 5 ≤ order) (hT : Planted L order H k roots t) (hPos : 0 < k)
    (hFile : t'.f = t.f) (hAddress : t'.headerAddress = treeAddress L 0) (hHeader : t'.header = H 0) :
    Forest L C k H 0 t' := by
  have hBlocks := hT.allBlocks hPos
  have hEmpty (i : Nat) (hi : i < k) : (H i).Empty order roots := hT.headers _ _ (hT.saved i hi)
  have hTree (i : Nat) (hi : i < k) : (H i).keys t.f.node = [] ∧ (H i).nodes t.f.node = [(H i).root] := by
    obtain ⟨-, -, -, hHeight, hRoot⟩ := hEmpty i hi
    have hOne : (H i).btreeHeight.toNat = 1 := by
      rw [hHeight]
      rfl
    rw [BtreeHeader.keys, BtreeHeader.nodes, hOne, keysFrom_at (hT.nodes _ hRoot),
      nodesFrom_at (hT.nodes _ hRoot)]
    exact ⟨rfl, rfl⟩
  refine ⟨hPos, hAddress, hHeader.symm, fun i hi _ => ?_, fun i hi => ?_, ?_, ?_⟩
  · rw [hFile]
    exact hT.saved i hi
  · obtain ⟨hNodeOrder, hKeys, hNodes, hHeight, hRoot⟩ := hEmpty i hi
    obtain ⟨hNoKeys, hOneNode⟩ := hTree i hi
    have hOne : (H i).btreeHeight.toNat = 1 := by
      rw [hHeight]
      rfl
    rw [hFile]
    refine ⟨hNodeOrder ▸ hOrder, by omega, ?_, by simp [hNoKeys], by simp [hKeys, hNoKeys],
      by simp [hNodes, hOneNode]⟩
    rw [hOne]
    refine Subtree.mk ?_ (hT.nodes _ hRoot) (Nat.zero_le _) (Nat.zero_le _) ?_
    · exact Int.ne_of_gt (hBlocks.inFile _ (List.mem_append_right _ hRoot)).1
    · rintro b (_ | ⟨_, hb⟩)
      · exact Subtree.null
      · cases hb
  · rw [hFile]
    refine hBlocks.perm (hT.perm.symm.trans ?_)
    rw [List.map_eq_flatMap]
    refine List.Perm.of_eq (List.flatMap_congr fun i hi => ?_)
    exact (hTree i (List.mem_range.mp hi)).2.symm
  · intro a ha
    rw [hFile, hT.freeList] at ha
    cases ha

theorem create_forest (hOrder : 5 ≤ order) (hTrees : 1 ≤ numTrees) {keySize : Int}
    {allocsLeft : Option Nat} (hCreate : Btree.create L order keySize numTrees allocsLeft = .ok () t) :
    ∃ H, Forest L C numTrees.toNat H 0 t := by
  have hFirst : (L.fileHeaderSize : FAU) = treeAddress L 0 := by
    change (L.fileHeaderSize : Int) = L.fileHeaderSize + (0 : Nat) * 56
    omega
  rw [Btree.create, if_neg (by omega), connectTrees, hFirst] at hCreate
  have hStart := creating_construct (κ := κ) L order keySize (sizeOfBtreeHeader * numTrees)
    (Int.mul_nonneg (by decide) (by omega)) allocsLeft
  have hPlanted : Planted L order (fun _ => (Btree.construct (κ := κ) order keySize
      (IndexFile.create L (sizeOfBtreeHeader * numTrees) allocsLeft)).header) 0 []
      (Btree.construct (κ := κ) order keySize
        (IndexFile.create L (sizeOfBtreeHeader * numTrees) allocsLeft)) :=
    ⟨hStart, by simp, List.Perm.refl _, rfl, by simp, by simp⟩
  obtain ⟨_, u, hCreated, hOpen⟩ := Exec.of_bind_ok hCreate
  obtain ⟨H, roots, hU⟩ := createTrees_planted hPlanted hCreated
  rw [Nat.zero_add] at hU
  have hPos : 0 < numTrees.toNat := by omega
  refine ⟨H, ?_⟩
  split at hOpen
  · rw [initBtreeOpen, Exec.bind_ok (Exec.get_run _), Exec.bind_ok (Exec.modify_run _ _)] at hOpen
    obtain ⟨_, v, hRead, hCheck⟩ := Exec.of_bind_ok hOpen
    rw [Exec.bind_ok (Exec.get_run _)] at hCheck
    obtain rfl := check_run hCheck
    rw [readBtreeHeader] at hRead
    dsimp only at hRead
    rw [hU.saved 0 hPos] at hRead
    cases hRead
    exact hU.forest hOrder hPos rfl rfl rfl
  · obtain ⟨hAddress, hHeader⟩ := hU.last 0 (by omega)
    cases hOpen
    exact hU.forest hOrder hPos rfl hAddress hHeader

/-- A tree stays as it is while the object is connected to others. -/
theorem kept_while_away {n i : Nat} (hi : i < n) {calls : List (TreesCall κ)} {t : Btree κ}
    (hIsolated : (trees L K).Along (Isolated L K n) calls t) (hInFile : ∀ e ∈ calls, e.InFile n)
    (hAway : .reConnect (i + 1 : Nat) ∉ calls) (hElse : t.headerAddress ≠ treeAddress L i) :
    ((trees L K).run calls t).2.headerOf L i = t.headerOf L i ∧
      ((trees L K).run calls t).2.keysOf L i = t.keysOf L i := by
  induction calls generalizing t with
  | nil => exact ⟨rfl, rfl⟩
  | cons e calls ih =>
    obtain ⟨hStep, hRest⟩ := hIsolated
    rw [List.mem_cons, not_or] at hAway
    obtain ⟨hHeader, hKeys⟩ := hStep.others i hi fun _ => hElse
    have hElse' : ((trees L K).step e t).2.headerAddress ≠ treeAddress L i := by
      by_cases hConnect : ∃ m, e = .reConnect m
      · obtain ⟨m, rfl⟩ := hConnect
        obtain ⟨hLow, hHigh⟩ := hInFile _ List.mem_cons_self m rfl
        obtain ⟨j, rfl⟩ : ∃ j : Nat, m = (j + 1 : Nat) := ⟨(m - 1).toNat, by omega⟩
        rw [(hStep.connects j rfl (by omega)).2]
        intro hSame
        exact hAway.1 (by rw [treeAddress_inj hSame])
      · rw [hStep.stays fun m hm => hConnect ⟨m, hm⟩]
        exact hElse
    obtain ⟨hHeader', hKeys'⟩ := ih hRest (fun d hd => hInFile d (List.mem_cons_of_mem _ hd)) hAway.2 hElse'
    exact ⟨hHeader'.trans hHeader, hKeys'.trans hKeys⟩

/-- A tree that is connected again is as it was left. -/
theorem restored {n i : Nat} {m : Int} (hi : i < n) (hm : m ≠ (i + 1 : Nat)) {away : List (TreesCall κ)}
    {t : Btree κ}
    (hIsolated : (trees L K).Along (Isolated L K n) (.reConnect m :: away ++ [.reConnect (i + 1 : Nat)]) t)
    (hInFile : ∀ e ∈ TreesCall.reConnect m :: away, e.InFile n)
    (hAway : .reConnect (i + 1 : Nat) ∉ away) (hHere : t.headerAddress = treeAddress L i) :
    ((trees L K).run (.reConnect m :: away ++ [.reConnect (i + 1 : Nat)]) t).2.header = t.header ∧
      ((trees L K).run (.reConnect m :: away ++ [.reConnect (i + 1 : Nat)]) t).2.keys = t.keys := by
  obtain ⟨hOut, hBack⟩ := (Machine.along_append _ _ _).mp hIsolated
  have hShown {u : Btree κ} (hu : u.headerAddress = treeAddress L i) :
      u.headerOf L i = some u.header ∧ u.keysOf L i = some u.keys := by
    rw [Btree.keysOf, Btree.headerOf, if_pos hu]
    exact ⟨rfl, rfl⟩
  obtain ⟨hLeave, hRest⟩ := hOut
  obtain ⟨hLow, hHigh⟩ := hInFile _ List.mem_cons_self m rfl
  obtain ⟨j, rfl⟩ : ∃ j : Nat, m = (j + 1 : Nat) := ⟨(m - 1).toNat, by omega⟩
  have hElse : ((trees L K).step (.reConnect (j + 1 : Nat)) t).2.headerAddress ≠ treeAddress L i := by
    rw [(hLeave.connects j rfl (by omega)).2]
    intro hSame
    exact hm (by rw [treeAddress_inj hSame])
  obtain ⟨hHeader, hKeys⟩ := hLeave.others i hi fun h => absurd h id
  obtain ⟨hHeader', hKeys'⟩ := kept_while_away hi hRest
    (fun d hd => hInFile d (List.mem_cons_of_mem _ hd)) hAway hElse
  obtain ⟨hReturn, -⟩ := hBack
  obtain ⟨hHeader'', hKeys''⟩ := hReturn.others i hi fun h => absurd h id
  have hAddress := (hReturn.connects i rfl hi).2
  rw [Machine.run_append]
  have hBefore := hShown hHere
  have hAfter := hShown hAddress
  constructor
  · refine Option.some.inj (hAfter.1.symm.trans ?_)
    exact ((hHeader''.trans hHeader').trans hHeader).trans hBefore.1
  · refine Option.some.inj (hAfter.2.symm.trans ?_)
    exact ((hKeys''.trans hKeys').trans hKeys).trans hBefore.2

/-- A new file of the default revision with two trees of integer keys. -/
def twoTrees : Btree Int :=
  match Btree.create (.ofRevision .E 5 16) 5 16 2 none with
  | .ok _ t | .error _ t => t

end DataReel
