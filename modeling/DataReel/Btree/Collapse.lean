import DataReel.Btree.Balance

/-! # From a balanced place up to the root

The loop over the parents ends with a tree that is well formed but for the
root, which may have lost its last key. `CollapseRoot` then drops it.
-/

namespace DataReel

open BtreeNode

variable {κ : Type} {O : OtherTrees κ} {K : KeyClass κ} {C : Comparison κ} {lo : Nat}

/-- A tree whose root may be empty. -/
def Btree.Uncollapsed (O : OtherTrees κ) (C : Comparison κ) (lo : Nat) (t : Btree κ) : Prop :=
  0 < t.height ∧ Btree.Placed O C lo 0 t t.height t.header.root []

theorem Btree.Placed.uncollapsed {t : Btree κ} {top h : Nat} {a : FAU} {path : List (Frame κ)}
    (hP : Btree.Placed O C lo top t h a path) (hPos : 0 < path.length + h)
    (hTop : path ≠ [] → lo ≤ top) : t.Uncollapsed O C lo := by
  rw [Btree.Uncollapsed, hP.height_eq]
  refine ⟨hPos, ?_⟩
  cases path with
  | nil =>
    obtain rfl : a = t.header.root := hP.reach
    rw [List.length_nil, Nat.zero_add]
    exact hP.mono (Nat.zero_le _)
  | cons f path =>
    have hSub : Subtree t.f.node lo t.order (topKeys lo h (f :: path)) h a :=
      hP.sub.mono (hTop (by simp))
    have hW := Btree.Placed.wellFormed { hP with sub := hSub } hPos
    rw [← hP.height_eq]
    exact (Btree.Placed.of_wellFormed hW).mono (Nat.zero_le _)

/-! ## Dropping an empty root -/

/-- What `CollapseRoot` makes of a tree whose root has the child `c` and no key. -/
def Btree.dropRoot (t : Btree κ) (c : FAU) : Btree κ :=
  { t.setHeader { t.header with
      root := c
      nNodes := t.header.nNodes - 1
      btreeHeight := t.header.btreeHeight - 1 } with
    f := (t.f.remove t.header.root).2 }

theorem collapseRootNode_run {t : Btree κ} {n : BtreeNode κ}
    (hU : t.Uncollapsed O C lo) (hn : t.f.node t.header.root = some n) :
    ∃ t', collapseRootNode n t = .ok () t' ∧ t'.WellFormed O C lo ∧ t'.keys = t.keys ∧
      t'.f.allocFailed = t.f.allocFailed := by
  obtain ⟨hPos, hP⟩ := hU
  obtain ⟨h, hh⟩ : ∃ h, t.height = h + 1 := ⟨t.height - 1, by omega⟩
  have hHeight := hP.height
  rw [hh] at hP hHeight
  have hKeys := hP.keys_eq
  obtain ⟨n', hn', -, hm, hB⟩ := hP.sub.at_node
  obtain rfl := Option.some.inj (hn.symm.trans hn')
  rw [List.length_nil] at hHeight
  rw [collapseRootNode, Exec.bind_ok (Exec.get_run _)]
  split
  · rename_i hEmpty
    obtain ⟨hEmpty, hTall⟩ := hEmpty
    obtain ⟨c, l⟩ := n
    obtain rfl : l = [] := by simpa [isEmpty, keyCount] using hEmpty
    have hBlocks := hP.blocks
    rw [pathNodes, List.nil_append, nodesFrom_at hn] at hBlocks
    simp only [branches, List.map_nil, List.flatMap_cons, List.flatMap_nil,
      List.append_nil] at hBlocks
    obtain ⟨hRemove, hBlocks, hFile⟩ := hBlocks.remove (by simp [hn])
    have hRootKeys : keysFrom t.f.node (h + 1) t.header.root = keysFrom t.f.node h c := by
      rw [keysFrom_at hn]
      simp [inorder]
    have hRootNodes : nodesFrom t.f.node (h + 1) t.header.root =
        t.header.root :: nodesFrom t.f.node h c := by
      rw [nodesFrom_at hn]
      simp [branches]
    have hSub : Subtree t.f.node lo t.order lo h c := hB c (by simp [branches])
    have hSorted := hP.sorted
    have hNKeys := hP.nKeys
    have hNNodes := hP.nNodes
    rw [hKeys]
    simp only [keysBefore, keysAfter, pathNodes, List.nil_append, List.append_nil, hRootKeys,
      hRootNodes, List.length_cons] at hSorted hNKeys hNNodes ⊢
    have hNode : (t.dropRoot c).f.node = t.f.node := by rw [Btree.dropRoot, hFile]
    have hPlaced : Btree.Placed O C lo (topKeys lo h ([] : List (Frame κ))) (t.dropRoot c) h c [] := by
      refine ⟨hP.order, ?_, rfl, ?_, ?_, ?_, ?_, ?_⟩
      · change t.header.btreeHeight - 1 = _
        rw [hHeight, List.length_nil]
        omega
      · rw [hNode]
        exact hSub.mono (topKeys_le _ _ _)
      · simpa [keysBefore, keysAfter, hNode] using hSorted
      · rw [hNode]
        exact hBlocks
      · change t.header.nKeys = _
        rw [hNKeys, hNode, keysBefore, keysAfter, List.nil_append, List.append_nil]
      · change t.header.nNodes - 1 = _
        rw [hNNodes, hNode, pathNodes, List.nil_append]
        omega
    rw [Exec.bind_ok (Exec.modify_run _ _)]
    refine ⟨t.dropRoot c, removeNode_run (pure ()) hRemove, ?_, ?_, ?_⟩
    · exact hPlaced.wellFormed (by rw [List.length_nil]; omega)
    · rw [hPlaced.keys_eq, hNode]
      simp [keysBefore, keysAfter]
    · rw [Btree.dropRoot, hFile]
  · rename_i hKeep
    refine ⟨t, rfl, Btree.Placed.wellFormed { hP with sub := ?_ } (by simp), rfl, rfl⟩
    refine Subtree.mk hP.sub.nonzero hn ?_ hm hB
    rw [topKeys_nil, rootKeys]
    split
    · exact Nat.zero_le _
    · have hCount : ¬ n.keyCount ≤ 0 := by
        intro hZero
        exact hKeep ⟨by simpa [isEmpty] using hZero, by omega⟩
      omega

theorem collapseRoot_run {t : Btree κ} (hU : t.Uncollapsed O C lo) :
    ∃ t', collapseRoot t = .ok () t' ∧ t'.WellFormed O C lo ∧ t'.keys = t.keys ∧
      t'.f.allocFailed = t.f.allocFailed := by
  obtain ⟨hPos, hP⟩ := hU
  obtain ⟨h, hh⟩ : ∃ h, t.height = h + 1 := ⟨t.height - 1, by omega⟩
  have hSub := hP.sub
  rw [hh] at hSub
  obtain ⟨n, hn, -, hm, -⟩ := hSub.at_node
  rw [collapseRoot, Exec.bind_ok (Exec.get_run _), Exec.bind_ok (readNode_run hn hm)]
  exact collapseRootNode_run ⟨hPos, hP⟩ hn

/-! ## The loop over the parents -/

/-- Every parent whose child must be balanced has a key to do it with. -/
def balanceSafe (g : NodeMap κ) (m : Nat) : List (Frame κ) → Prop
  | [] => True
  | f :: path => 0 < f.node.keyCount ∧ (f.countAfter g m < m / 2 → balanceSafe g m path)

theorem spares_congr {g g' : NodeMap κ} {m : Nat} {a : FAU}
    (hSame : (g' a).map keyCount = (g a).map keyCount) : spares g' m a = spares g m a := by
  cases hn : g a with
  | none =>
    rw [hn, Option.map_none, Option.map_eq_none_iff] at hSame
    simp [spares, hn, hSame]
  | some n =>
    rw [hn, Option.map_some, Option.map_eq_some_iff] at hSame
    obtain ⟨n', hn', hCount⟩ := hSame
    simp [spares, hn, hn', hasMany, hCount]

theorem Frame.leftSibling_mem {f : Frame κ} {b : FAU} (hb : f.leftSibling = some b) :
    b ∈ f.siblings :=
  List.mem_append_left _ (List.mem_of_getLast? hb)

theorem Frame.rightSibling_mem {f : Frame κ} {b : FAU} (hb : f.rightSibling = some b) :
    b ∈ f.siblings := by
  cases hAfter : f.after with
  | nil => simp [Frame.rightSibling, hAfter] at hb
  | cons e r =>
    simp only [Frame.rightSibling, hAfter, List.head?_cons, Option.map_some, Option.some.injEq] at hb
    simp [Frame.siblings, hAfter, hb]

theorem balanceSafe_congr {g g' : NodeMap κ} {m h : Nat} {path : List (Frame κ)}
    (hSame : ∀ b ∈ pathNodes g (h + 1) path, (g' b).map keyCount = (g b).map keyCount)
    (hSafe : balanceSafe g m path) : balanceSafe g' m path := by
  induction path generalizing h with
  | nil => trivial
  | cons f path ih =>
    obtain ⟨hCount, hNext⟩ := hSafe
    have hSib : ∀ b ∈ f.siblings, spares g' m b = spares g m b := by
      intro b hb
      apply spares_congr
      apply hSame
      rw [pathNodes]
      exact List.mem_append_left _ (List.mem_cons_of_mem _
        (List.mem_flatMap.mpr ⟨b, hb, nodesFrom_self g h b⟩))
    have hAfter : f.countAfter g' m = f.countAfter g m := by
      have hLeft : f.leftSibling.any (spares g' m) = f.leftSibling.any (spares g m) := by
        cases hb : f.leftSibling with
        | none => rfl
        | some b => simp [hSib b (f.leftSibling_mem hb)]
      have hRight : f.rightSibling.any (spares g' m) = f.rightSibling.any (spares g m) := by
        cases hb : f.rightSibling with
        | none => rfl
        | some b => simp [hSib b (f.rightSibling_mem hb)]
      rw [Frame.countAfter, Frame.countAfter, hLeft, hRight]
    refine ⟨hCount, fun hFew => ih (fun b hb => hSame b (List.mem_append_right _ hb)) (hNext ?_)⟩
    rwa [← hAfter]

theorem hasFew_iff {m : Nat} {n : BtreeNode κ} : n.hasFew m = true ↔ n.keyCount < m / 2 := by
  simp [hasFew]

section Loop

variable {t : Btree κ} {h : Nat} {a : FAU} {p : Frame κ} {path : List (Frame κ)} {key : κ}

/-- The parent finds the child again by a key that lies at its left or in it. -/
theorem parent_locate (hK : K.StrictOrder)
    (hSorted : K.comparison.Sorted (keysBefore t.f.node h (p :: path)))
    (hBelow : ∀ x ∈ keysBefore t.f.node h (p :: path), K.comparison.lt key x = false)
    (hAbove : ∀ x ∈ keysAfter t.f.node h (p :: path), K.comparison.lt key x = true) :
    (p.node.findKeyLocation K key).keyLocation = (p.before.length : Int) - 1 := by
  rw [keysBefore] at hSorted hBelow
  rw [keysAfter] at hAbove
  refine findKeyLocation_branch hK ?_ ?_ ?_
  · exact (Comparison.sorted_append.mp hSorted).2.1.sublist (initKeys_sublist _ _ _)
  · exact fun e he => hBelow _ (List.mem_append_right _ (mem_initKeys _ he))
  · exact fun e he => hAbove _ (List.mem_append_left _ (mem_tailKeys _ he))

theorem balanceLoop_run (hK : K.StrictOrder) (hLo : lo ≤ t.order / 2)
    (hP : Btree.Placed O K.comparison lo (lo - 1) t (h + 1) a (p :: path)) {n : BtreeNode κ}
    (hn : t.f.node a = some n) (hFew : n.keyCount < t.order / 2)
    (hBelow : ∀ x ∈ keysBefore t.f.node (h + 1) (p :: path), K.comparison.lt key x = false)
    (hAbove : ∀ x ∈ keysAfter t.f.node (h + 1) (p :: path), K.comparison.lt key x = true)
    (hSafe : balanceSafe t.f.node t.order (p :: path)) (stack : List FAU) :
    ∃ t', balanceLoop K key ((p :: path).map Frame.address ++ stack) t = .ok () t' ∧
      t'.Uncollapsed O K.comparison lo ∧ t'.keys = t.keys ∧ t'.f.allocFailed = t.f.allocFailed := by
  induction path generalizing t h a p n with
  | nil =>
    obtain ⟨rfl, -, hNode, -, hm, -, hRoot⟩ := hP.reach
    have hSorted := (Comparison.sorted_append.mp (Comparison.sorted_append.mp hP.sorted).1).1
    obtain ⟨n', t', hRun, hNode', -, hB⟩ := insertBalance_run hP hLo hn hFew hSafe.1
    have hAtRoot : ¬ (n'.hasFew t'.order = true ∧ p.address ≠ t'.header.root) := by
      rw [hB.root]
      exact fun hTurn => hTurn.2 hRoot
    refine ⟨t', ?_, hB.placed.uncollapsed (by simp) (by simp), hB.keys, hB.allocFailed⟩
    rw [List.map_cons, List.cons_append, balanceLoop, Exec.bind_ok (readNode_run hNode hm),
      parent_locate hK hSorted hBelow hAbove, Exec.bind_ok hRun, Exec.bind_ok (Exec.get_run _),
      if_neg hAtRoot]
    rfl
  | cons q path ih =>
    obtain ⟨rfl, -, hNode, -, hm, -, hReach⟩ := hP.reach
    have hSorted := (Comparison.sorted_append.mp (Comparison.sorted_append.mp hP.sorted).1).1
    obtain ⟨n', t', hRun, hNode', hCount, hB⟩ := insertBalance_run hP hLo hn hFew hSafe.1
    have hNotRoot : p.address ≠ t'.header.root := by
      intro hEq
      have hNil := (hB.placed.reach.eq_root_iff hB.placed.blocks.nodes_nodup).mp hEq
      exact absurd hNil (by simp)
    have hStep : balanceLoop K key (p.address :: ((q :: path).map Frame.address ++ stack)) t =
        if n'.hasFew t'.order ∧ p.address ≠ t'.header.root then
          balanceLoop K key ((q :: path).map Frame.address ++ stack) t'
        else .ok () t' := by
      rw [balanceLoop, Exec.bind_ok (readNode_run hNode hm),
        parent_locate hK hSorted hBelow hAbove, Exec.bind_ok hRun, Exec.bind_ok (Exec.get_run _)]
      split <;> rfl
    rw [List.map_cons, List.cons_append, hStep]
    by_cases hFew' : n'.keyCount < t'.order / 2
    · rw [if_pos ⟨hasFew_iff.mpr hFew', hNotRoot⟩]
      have hSafe' : balanceSafe t'.f.node t'.order (q :: path) := by
        rw [hB.order]
        refine balanceSafe_congr (fun b hb => by rw [hB.same b hb]) (hSafe.2 ?_)
        rwa [← hCount, ← hB.order]
      obtain ⟨u, hLoop, hU, hKeys, hFailed⟩ := ih (hB.order ▸ hLo) hB.placed hNode' hFew'
        (fun x hx => hBelow x (by rw [keysBefore]; exact List.mem_append_left _ (hB.before ▸ hx)))
        (fun x hx => hAbove x (by rw [keysAfter]; exact List.mem_append_right _ (hB.after ▸ hx)))
        hSafe'
      exact ⟨u, hLoop, hU, hKeys.trans hB.keys, hFailed.trans hB.allocFailed⟩
    · rw [if_neg fun hTurn => hFew' (hasFew_iff.mp hTurn.1)]
      rw [← hB.order] at hLo
      have hTop : Subtree t'.f.node lo t'.order lo (h + 1 + 1) p.address := by
        obtain ⟨m, hm, -, hmo, hBr⟩ := hB.placed.sub.at_node
        obtain rfl := Option.some.inj (hm.symm.trans hNode')
        exact Subtree.mk hB.placed.sub.nonzero hm (by omega) hmo hBr
      refine ⟨t', rfl, ?_, hB.keys, hB.allocFailed⟩
      exact Btree.Placed.uncollapsed { hB.placed with sub := hTop } (by omega) fun _ => Nat.le_refl lo

end Loop

end DataReel
