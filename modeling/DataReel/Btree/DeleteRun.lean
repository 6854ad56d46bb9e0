import DataReel.Btree.Promote

/-! # Balanced deletion as a whole

A call takes its key out of a tree unless it meets a node without keys where it
needs one, which a tree built by insertion and balanced deletion does not have.
-/

namespace DataReel

open BtreeNode

variable {κ : Type} {O : OtherTrees κ} {K : KeyClass κ} {lo : Nat}

/-! ## The walk to the key -/

theorem deleteWalk_descent (hK : K.StrictOrder) {key : κ} {t : Btree κ} {h h' : Nat} {a a' : FAU}
    {path path' : List (Frame κ)}
    (hD : Descent K.comparison key t.f.node t.order h a path h' a' path') (reads : Nat)
    (stack : List FAU) :
    deleteWalk K key (reads + h) a (path.map Frame.address ++ stack) t =
      deleteWalk K key (reads + h') a' (path'.map Frame.address ++ stack) t := by
  induction hD with
  | refl => rfl
  | @down h f path h' a' path' hNull hNode hCount hBefore hAfter hRest ih =>
    rw [← ih, ← Nat.add_assoc, deleteWalk, if_neg hNull, Exec.bind_ok (readNode_run hNode hCount)]
    have hMiss : f.node.findKeyLocation K key = _ := findKeyLocation_miss hK hBefore hAfter
    simp only [hMiss]
    rw [if_neg (rv_miss _), f.getBranch_child, Exec.bind_ok (access_some _ _)]
    rfl

theorem deleteWalk_hit (hK : K.StrictOrder) {key : κ} {t : Btree κ} {f : Frame κ}
    {e : DatabaseKey κ} (hNull : f.address ≠ 0) (hHit : Hit K.comparison key t.f.node f e)
    (hCount : (f.before ++ e :: f.after).length ≤ t.order) (reads : Nat) (stack : List FAU) :
    deleteWalk K key (reads + 1) f.address stack t =
      .ok (f.address, ⟨f.leftChild, f.before ++ e :: f.after⟩, f.before.length, stack, reads) t := by
  rw [deleteWalk, if_neg hNull, Exec.bind_ok (readNode_run hHit.node hCount)]
  have hFound := findKeyLocation_hit (c := f.leftChild) hK hHit.before hHit.equal hHit.after
  simp only [hFound]
  rfl

theorem deleteWalk_null (key : κ) (t : Btree κ) (reads : Nat) (stack : List FAU) :
    deleteWalk K key reads 0 stack t = .error (.error .entryNotFound) t := by
  cases reads with
  | zero => rfl
  | succ reads => rfl

/-! ## From the leaf back to the root -/

theorem finishDelete_run (hK : K.StrictOrder) {t : Btree κ} (hLo : lo ≤ t.order / 2) {a : FAU}
    {path : List (Frame κ)} {n : BtreeNode κ} (key : DatabaseKey κ)
    (hP : Btree.Placed O K.comparison lo (topKeys lo 1 path - 1) t 1 a path) (hn : t.f.node a = some n)
    (hBelow : ∀ x ∈ keysBefore t.f.node 1 path, K.comparison.lt key.dbKey x = false)
    (hAbove : ∀ x ∈ keysAfter t.f.node 1 path, K.comparison.lt key.dbKey x = true)
    (hSafe : n.keyCount < t.order / 2 → balanceSafe t.f.node t.order path) (stack : List FAU) :
    ∃ t', finishDelete K key a n (path.map Frame.address ++ stack) t = .ok key t' ∧
      t'.WellFormed O K.comparison lo ∧ t'.keys = t.keys ∧ t'.f.allocFailed = t.f.allocFailed := by
  have hRoot := hP.reach.eq_root_iff hP.blocks.nodes_nodup
  rw [finishDelete, Exec.bind_ok (Exec.get_run _)]
  split
  · rename_i hTurn
    obtain ⟨hFew, hNotRoot⟩ := hTurn
    rw [hasFew_iff] at hFew
    cases path with
    | nil => exact absurd (hRoot.mpr rfl) hNotRoot
    | cons p path =>
      obtain ⟨u, hLoop, hU, hKeys, hFailed⟩ :=
        balanceLoop_run hK hLo hP hn hFew hBelow hAbove (hSafe hFew) stack
      obtain ⟨t', hRun, hW, hKeys', hFailed'⟩ := collapseRoot_run hU
      refine ⟨t', ?_, hW, hKeys'.trans hKeys, hFailed'.trans hFailed⟩
      rw [Exec.bind_ok hLoop, Exec.bind_ok hRun]
      rfl
  · rename_i hKeep
    have hU : t.Uncollapsed O K.comparison lo := by
      by_cases hNil : path = []
      · exact hP.uncollapsed (by omega) fun hNe => absurd hNil hNe
      · have hMany : ¬ n.keyCount < t.order / 2 := by
          intro hFew
          exact hKeep ⟨hasFew_iff.mpr hFew, fun hEq => hNil (hRoot.mp hEq)⟩
        have hFour := four_le_order t
        obtain ⟨n', hn', -, hm, hB⟩ := hP.sub.at_node
        obtain rfl := Option.some.inj (hn'.symm.trans hn)
        have hSub : Subtree t.f.node lo t.order lo 1 a :=
          Subtree.mk hP.sub.nonzero hn (by omega) hm hB
        exact Btree.Placed.uncollapsed { hP with sub := hSub } (by omega) fun _ => Nat.le_refl lo
    obtain ⟨t', hRun, hW, hKeys, hFailed⟩ := collapseRoot_run hU
    refine ⟨t', ?_, hW, hKeys, hFailed⟩
    rw [Exec.bind_ok hRun]
    rfl

/-! ## Taking the key out of a leaf -/

section Removal

variable {C : Comparison κ} {t : Btree κ} {f : Frame κ} {e x : DatabaseKey κ}
  {path : List (Frame κ)} {key : κ}

theorem removed_leaf (hC : C.Strict) (hW : t.WellFormed O C lo) (hHit : Hit C key t.f.node f e)
    (hL : Located C t.f.node lo t.order t.header.root 1 f.address path)
    (hA : Around C key t.f.node 1 path) (hHeight : path.length + 1 = t.height) :
    Removed O C lo t (f.keysLeft t.f.node 0 path ++ f.keysRight t.f.node 0 e path) key 0 f.address
      f.node path ((t.setNode f.address f.node).addKeys (-1)) := by
  have hNode : t.f.node f.address = some ⟨f.leftChild, (f.before ++ [e]) ++ f.after⟩ := by
    simpa using hHit.node
  obtain ⟨hFollow, -⟩ := hL.reach.down hL.sub hNode
  have hPerm := Btree.nodes_of_path hFollow (by simpa using hHeight)
  rw [nodesFrom, List.append_nil] at hPerm
  have hT : Trimmed O t 0 e.rightChild (f.follow e :: path) t :=
    ⟨rfl, rfl, rfl, hW.blocks.perm hPerm, hW.nNodes.trans (by rw [hPerm.length_eq]; rfl), rfl⟩
  obtain ⟨hNew, hKeys⟩ := dropped hW hHit hL hHeight hT
  refine ⟨hNew.placed, hNew.node, ?_, ?_, rfl, ?_, hKeys, rfl⟩
  · rw [hNew.before]
    exact fun y hy => hC.lt_not_gt (hA.1 y hy)
  · rw [hNew.after]
    exact hA.2
  · exact balanceSafe_congr fun b hb => by rw [hNew.same b hb]

theorem deleteFromLeaf_run (t : Btree κ) (k : DatabaseKey κ) (stack : List FAU) :
    deleteFromLeaf k f.address ⟨f.leftChild, f.before ++ e :: f.after⟩ f.before.length stack t =
      .ok (k, f.address, f.node, stack) ((t.setNode f.address f.node).addKeys (-1)) := by
  rw [deleteFromLeaf, deleteDatabaseKey_at, Exec.bind_ok (access_some _ _)]
  rfl

theorem removed_parent {h : Nat} (hC : C.Strict) (hW : t.WellFormed O C lo)
    (hHit : Hit C key t.f.node f e)
    (hL : Located C t.f.node lo t.order t.header.root (h + 1 + 1) f.address path)
    (hHeight : path.length + (h + 1 + 1) = t.height) {leaf c : FAU} {P : List (Frame κ)}
    {rest : List (DatabaseKey κ)}
    (hLeaf : leftPath t.f.node h e.rightChild (f.promote e x :: path) = (leaf, P))
    (hn : t.f.node leaf = some ⟨c, x :: rest⟩) :
    Removed O C lo t (f.keysLeft t.f.node (h + 1) path ++ f.keysRight t.f.node (h + 1) e path) x.dbKey 0
      leaf ⟨c, rest⟩ P
      (((t.setNode f.address (f.promote e x).node).setNode leaf ⟨c, rest⟩).addKeys (-1)) := by
  obtain ⟨b, segment, hLeft, hPath⟩ := leftPath_segment t.f.node h e.rightChild
  obtain ⟨rfl, rfl⟩ := Prod.mk.inj ((hPath _).symm.trans hLeaf)
  have hNode : t.f.node f.address = some ⟨f.leftChild, (f.before ++ [e]) ++ f.after⟩ := by
    simpa using hHit.node
  obtain ⟨hFollow, hRight⟩ := hL.reach.down hL.sub hNode
  rw [lastBranch_concat] at hFollow hRight
  obtain ⟨hReach, hSub, hLength⟩ := leftPath_reach hFollow hRight
  rw [hPath] at hReach hSub hLength
  simp only [List.length_append, List.length_cons] at hLength
  have hReachLeaf := (hReach.down (l := []) hSub hn).1
  obtain ⟨n, hn', -, -, hB⟩ := hSub.at_node
  obtain rfl := Option.some.inj (hn.symm.trans hn')
  have hChild : c = x.rightChild := by
    rw [Subtree.zero_iff.mp (hB c (by simp [branches])),
      Subtree.zero_iff.mp (hB x.rightChild (by simp [branches]))]
  have hPerm := Btree.nodes_of_path (t := t) hReachLeaf (by simp; omega)
  rw [nodesFrom, List.append_nil] at hPerm
  have hBlocks := hW.blocks.perm hPerm
  have hKeys := hHit.keys hL.reach hHeight
  have hProm : Promoting lo t.order t.header.root t.f.node (h + 1) f e x 0 c
      (⟨b, c, [], x :: rest⟩ :: segment) path (t.setNode f.address (f.promote e x).node).f.node := by
    refine ⟨hReachLeaf, by rw [List.length_cons]; omega, ?_, hBlocks.nodes_nodup,
      Function.update_self _ _ _, fun d hd => Function.update_of_ne hd _ _⟩
    intro p hp
    rcases List.mem_cons.mp hp with rfl | hp
    · rfl
    · exact hLeft p hp
  have hFirst := removed_first hC (p := ⟨b, c, [], x :: rest⟩) hW.order
    (by rw [← hW.height_eq, ← hHeight]) hProm rfl rfl (hKeys ▸ hW.sorted) (by rw [hW.nKeys, hKeys])
    hBlocks (by rw [hW.nNodes, hPerm.length_eq]; rfl)
  rw [hChild]
  exact hFirst

theorem deleteFromParent_run {h : Nat} {leaf c : FAU} {P : List (Frame κ)}
    {rest : List (DatabaseKey κ)} {top : Nat}
    (hT : Subtree t.f.node lo t.order top (h + 1) e.rightChild)
    (hLeaf : leftPath t.f.node h e.rightChild (f.promote e x :: path) = (leaf, P))
    (hn : t.f.node leaf = some ⟨c, x :: rest⟩) (reads : Nat) (stack : List FAU) :
    deleteFromParent f.address ⟨f.leftChild, f.before ++ e :: f.after⟩ f.before.length e.rightChild
      (path.map Frame.address ++ stack) (reads + (h + 1)) t =
      .ok (promoted e x, leaf, ⟨c, rest⟩, P.map Frame.address ++ stack)
        (((t.setNode f.address (f.promote e x).node).setNode leaf ⟨c, rest⟩).addKeys (-1)) := by
  obtain ⟨n, hn', hRun⟩ := leftmost_run hT reads (f.promote e x :: path) stack
  rw [hLeaf] at hn' hRun
  obtain rfl := Option.some.inj (hn.symm.trans hn')
  change leftmost (reads + (h + 1)) e.rightChild (f.address :: (path.map Frame.address ++ stack)) t =
    .ok (leaf, ⟨c, x :: rest⟩, P.map Frame.address ++ stack, reads) t at hRun
  rw [deleteFromParent, loadKey_at, Exec.bind_ok (access_some _ _), Exec.bind_ok hRun]
  dsimp only
  rw [loadKey_first, Exec.bind_ok (access_some _ _), deleteDatabaseKey_first,
    Exec.bind_ok (access_some _ _)]
  change (access (overWriteDatabaseKey ⟨f.leftChild, f.before ++ e :: f.after⟩ (promoted e x)
    f.before.length) >>= _) t = _
  rw [overWriteDatabaseKey_at, Exec.bind_ok (access_some _ _), Frame.promote, f.follow_node]
  rfl

end Removal

/-! ## The call -/

/-- The nodes that the removal of an entry at height `h + 1` needs have the keys it needs: the leaf
that gives its first key to an inner node, and the parents whose child must be balanced. -/
def removalSafe (g : NodeMap κ) (m : Nat) (f : Frame κ) (e : DatabaseKey κ) (path : List (Frame κ)) :
    Nat → Prop
  | 0 => (f.before ++ f.after).length < m / 2 → balanceSafe g m path
  | h + 1 => ∃ leaf P c x rest, leftPath g h e.rightChild (f.promote e x :: path) = (leaf, P) ∧
    g leaf = some ⟨c, x :: rest⟩ ∧ (rest.length < m / 2 → balanceSafe g m P)

/-- `Delete` of this key meets no node without keys where it needs one. -/
def DeleteSafe (K : KeyClass κ) (t : Btree κ) (key : κ) : Prop :=
  ∀ h f e path, t.EntryAt K.comparison key h f e path → removalSafe t.f.node t.order f e path h

section Call

variable {t : Btree κ} {key : κ}

theorem deleteDatabaseKey_run (hK : K.StrictOrder) (hLo : lo ≤ t.order / 2)
    (hW : t.WellFormed O K.comparison lo) (hReads : t.height ≤ gxBtreeMaxNodeReads)
    (hSafe : DeleteSafe K t key) (c : FAU) :
    (∃ l x r, t.keys = l ++ x :: r ∧ K.comparison.eqv key x = true ∧
      ∃ k t', deleteDatabaseKey K ⟨c, key⟩ t = .ok k t' ∧ t'.WellFormed O K.comparison lo ∧
        t'.keys = l ++ r ∧ t'.f.allocFailed = t.f.allocFailed) ∨
    ∃ l r, t.keys = l ++ r ∧ (∀ x ∈ l, K.comparison.lt x key = true) ∧
      (∀ x ∈ r, K.comparison.lt key x = true) ∧
      deleteDatabaseKey K ⟨c, key⟩ t = .error (.error .entryNotFound) t := by
  obtain ⟨n, hn⟩ : ∃ n, gxBtreeMaxNodeReads = n + t.height := ⟨gxBtreeMaxNodeReads - t.height, by omega⟩
  rcases hW.search hK.strict key with ⟨h, f, e, path, hE⟩ | ⟨path, hD, hKeys, hA⟩
  · left
    have hL := hE.located hW
    refine ⟨_, _, _, hE.keys hW, hE.hit.equal, ?_⟩
    have hWalk : deleteWalk K key (n + t.height) t.header.root [t.header.root] t = _ :=
      deleteWalk_descent hK hE.descent n [t.header.root]
    rw [← Nat.add_assoc, deleteWalk_hit hK hL.sub.nonzero hE.hit (hE.hit.count hL)] at hWalk
    rw [deleteDatabaseKey, Exec.bind_ok (Exec.get_run _), hn, Exec.bind_ok hWalk]
    dsimp only
    rw [getBranch_at, Exec.bind_ok (access_some _ _)]
    have hRight := (hL.down (l := f.before ++ [e]) (r := f.after) (by simpa using hE.hit.node)).sub
    rw [lastBranch_concat, topKeys_cons] at hRight
    have hSafe := hSafe h f e path hE
    cases h with
    | zero =>
      have hNull : e.rightChild = 0 := Subtree.zero_iff.mp hRight
      have hR := removed_leaf hK.strict hW hE.hit hL (hE.around hK.strict hW) hE.height
      obtain ⟨t', hRun, hW', hKeys, hFailed⟩ := finishDelete_run hK (hR.order ▸ hLo) ⟨0, key⟩ hR.placed
        hR.node hR.below hR.above (fun hFew => hR.safe (hSafe (hR.order ▸ hFew))) [t.header.root]
      refine ⟨⟨0, key⟩, t', ?_, hW', hKeys.trans hR.keys, hFailed.trans hR.allocFailed⟩
      rw [if_neg (not_not_intro hNull), Exec.bind_ok (deleteFromLeaf_run _ _ _)]
      exact hRun
    | succ h =>
      obtain ⟨leaf, P, c', x, rest, hLeaf, hNode, hSafe⟩ := hSafe
      have hR := removed_parent hK.strict hW hE.hit hL hE.height hLeaf hNode
      obtain ⟨t', hRun, hW', hKeys, hFailed⟩ := finishDelete_run hK (hR.order ▸ hLo) (promoted e x) hR.placed
        hR.node hR.below hR.above (fun hFew => hR.safe (hSafe (hR.order ▸ hFew))) [t.header.root]
      refine ⟨promoted e x, t', ?_, hW', hKeys.trans hR.keys, hFailed.trans hR.allocFailed⟩
      rw [if_pos hRight.nonzero, Exec.bind_ok (deleteFromParent_run hRight hLeaf hNode n _)]
      exact hRun
  · right
    refine ⟨_, _, hKeys, hA.1, hA.2, ?_⟩
    have hWalk : deleteWalk K key (n + t.height) t.header.root [t.header.root] t = _ :=
      deleteWalk_descent hK hD n [t.header.root]
    rw [deleteWalk_null] at hWalk
    rw [deleteDatabaseKey, Exec.bind_ok (Exec.get_run _), hn, Exec.bind_error hWalk]

end Call

end DataReel
