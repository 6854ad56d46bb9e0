import DataReel.Btree.DeleteRun
import DataReel.Btree.FastDelete

/-! # Unbalanced deletion as a whole

Nodes may be empty here, so a call succeeds on every tree of one height. What
it removes is a chain of empty nodes at the left end of a branch.
-/

namespace DataReel

open BtreeNode

variable {κ : Type} {O : OtherTrees κ} {K : KeyClass κ} {C : Comparison κ}

/-! ## The walk to the key -/

theorem findWalk_descent (hK : K.StrictOrder) {key : κ} {t : Btree κ} {h h' : Nat} {a a' : FAU}
    {path path' : List (Frame κ)}
    (hD : Descent K.comparison key t.f.node t.order h a path h' a' path') (reads : Nat) :
    findWalk K key (reads + h) a t = findWalk K key (reads + h') a' t := by
  induction hD with
  | refl => rfl
  | @down h f path h' a' path' hNull hNode hCount hBefore hAfter hRest ih =>
    rw [← ih, ← Nat.add_assoc, findWalk, if_neg hNull, Exec.bind_ok (readNode_run hNode hCount)]
    have hMiss : f.node.findKeyLocation K key = _ := findKeyLocation_miss hK hBefore hAfter
    simp only [hMiss]
    rw [if_neg (rv_miss _), f.getBranch_child, Exec.bind_ok (access_some _ _)]

theorem findWalk_hit (hK : K.StrictOrder) {key : κ} {t : Btree κ} {f : Frame κ}
    {e : DatabaseKey κ} (hNull : f.address ≠ 0) (hHit : Hit K.comparison key t.f.node f e)
    (hCount : (f.before ++ e :: f.after).length ≤ t.order) (reads : Nat) :
    findWalk K key (reads + 1) f.address t =
      .ok (f.address, ⟨f.leftChild, f.before ++ e :: f.after⟩, f.before.length, reads) t := by
  rw [findWalk, if_neg hNull, Exec.bind_ok (readNode_run hHit.node hCount)]
  have hFound := findKeyLocation_hit (c := f.leftChild) hK hHit.before hHit.equal hHit.after
  simp only [hFound]
  rfl

theorem findWalk_null (key : κ) (t : Btree κ) (reads : Nat) :
    findWalk K key reads 0 t = .error (.error .entryNotFound) t := by
  cases reads with
  | zero => rfl
  | succ reads => rfl

/-! ## Removing empty nodes -/

theorem Trimmed.remove {lo m : Nat} {root : FAU} {t u : Btree κ} {k : Nat} {p : Frame κ}
    {path : List (Frame κ)} (hT : Trimmed O t k p.child (p :: path) u)
    (hP : PathTo t.f.node lo m root k p.child (p :: path)) (hBefore : p.before = [])
    (hAfter : p.after = []) :
    (u.f.remove p.address).1 = true ∧
      Trimmed O t (k + 1) p.address path
        ({ u with f := (u.f.remove p.address).2 }.addNodes (-1)) := by
  have hNode : t.f.node p.address = some p.node := hP.2.2.1
  have hBlocks := hT.blocks
  have hCount := hT.nNodes
  rw [pathNodes, Frame.siblings, hBefore, hAfter] at hBlocks hCount
  simp only [initBranches, List.map_nil, List.append_nil, List.flatMap_nil, List.cons_append,
    List.nil_append, List.length_cons] at hBlocks hCount
  obtain ⟨hRemove, hBlocks, hFile⟩ := hBlocks.remove (by rw [hT.node, hNode]; rfl)
  refine ⟨hRemove, ?_, ?_, ?_, hBlocks, ?_, ?_⟩
  · change (u.f.remove p.address).2.node = _
    rw [hFile]
    exact hT.node
  · change { u.header with nNodes := u.header.nNodes + -1 } = _
    rw [hT.header]
    rfl
  · rw [keysFrom_at hNode, p.inorder_node, hBefore, hAfter, hT.empty]
    rfl
  · change u.header.nNodes + -1 = _
    rw [hCount]
    omega
  · change (u.f.remove p.address).2.allocFailed = _
    rw [hFile]
    exact hT.allocFailed

theorem removeEmptySiblings_run {lo : Nat} {t u : Btree κ} {k : Nat} {a : FAU}
    {segment : List (Frame κ)} {q : Frame κ} {path : List (Frame κ)}
    (hP : PathTo t.f.node lo t.order t.header.root k a (segment ++ q :: path))
    (hLeft : ∀ p ∈ segment, p.before = []) (hT : Trimmed O t k a (segment ++ q :: path) u)
    {reads : Nat} (hReads : segment.length ≤ reads) :
    (∃ empty p rest u', segment = empty ++ p :: rest ∧ p.after ≠ [] ∧
      removeEmptySiblings (segment.map Frame.address) reads u = .ok (.found p.address p.node) u' ∧
      Trimmed O t (k + empty.length) p.child (p :: rest ++ q :: path) u') ∨
    ∃ u', removeEmptySiblings (segment.map Frame.address) reads u = .ok .allRemoved u' ∧
      Trimmed O t (k + segment.length) q.child (q :: path) u' := by
  induction segment generalizing k a u reads with
  | nil =>
    obtain ⟨rfl, -⟩ := hP
    exact .inr ⟨u, by cases reads <;> rfl, hT⟩
  | cons p segment ih =>
    have hReach := hP
    obtain ⟨rfl, -, hNode, -, hm, -, hAbove⟩ := hP
    rw [List.length_cons] at hReads
    obtain ⟨reads, rfl⟩ : ∃ r, reads = r + 1 := ⟨reads - 1, by omega⟩
    have hBefore := hLeft p List.mem_cons_self
    have hOrder : u.order = t.order := by rw [Btree.order, hT.header, Btree.order]
    have hRead : readNode p.address u = .ok p.node u :=
      readNode_run (hT.node ▸ hNode) (hOrder.symm ▸ hm)
    rw [List.map_cons, removeEmptySiblings, Exec.bind_ok hRead]
    by_cases hAfter : p.after = []
    · obtain ⟨hRemove, hT'⟩ := hT.remove hReach hBefore hAfter
      have hEmpty : p.node.isEmpty = true := by simp [Frame.node, hBefore, hAfter, isEmpty, keyCount]
      have hStep : removeSibling p.address (removeEmptySiblings (segment.map Frame.address) reads) u =
          removeEmptySiblings (segment.map Frame.address) reads
            ({ u with f := (u.f.remove p.address).2 }.addNodes (-1)) := by
        rw [removeSibling, if_pos hRemove]
      rw [if_pos hEmpty, hStep]
      rcases ih hAbove (fun f hf => hLeft f (List.mem_cons_of_mem _ hf)) hT'
        (Nat.le_of_succ_le_succ hReads) with
        ⟨empty, f, rest, u', rfl, hf, hRun, hFound⟩ | ⟨u', hRun, hAll⟩
      · refine .inl ⟨p :: empty, f, rest, u', rfl, hf, hRun, ?_⟩
        rwa [List.length_cons, ← Nat.add_assoc, Nat.add_right_comm]
      · refine .inr ⟨u', hRun, ?_⟩
        rwa [List.length_cons, ← Nat.add_assoc, Nat.add_right_comm]
    · have hFull : ¬ p.node.isEmpty = true := by
        simp [Frame.node, hBefore, isEmpty, keyCount, hAfter]
      rw [if_neg hFull]
      exact .inl ⟨[], p, segment, u, rfl, hAfter, rfl, hT⟩

/-! ## The two ends of the call -/

section End

variable {t u : Btree κ} {h k : Nat} {f p : Frame κ} {e x : DatabaseKey κ}
  {rest : List (DatabaseKey κ)} {segment path : List (Frame κ)} {key : κ}

theorem promoteFirst_run (hBefore : p.before = []) (hAfter : p.after = x :: rest) :
    promoteFirst f.address ⟨f.leftChild, f.before ++ e :: f.after⟩ f.before.length p.address p.node u =
      .ok (promoted e x) (((u.setNode f.address (f.promote e x).node).setNode p.address
        ⟨x.rightChild, rest⟩).addKeys (-1)) := by
  have hNode : p.node = ⟨p.leftChild, x :: rest⟩ := by rw [Frame.node, hBefore, hAfter]; rfl
  rw [promoteFirst, loadKey_at, Exec.bind_ok (access_some _ _), hNode, loadKey_first,
    Exec.bind_ok (access_some _ _)]
  dsimp only
  rw [deleteDatabaseKey_first, Exec.bind_ok (access_some _ _)]
  change (access (overWriteDatabaseKey ⟨f.leftChild, f.before ++ e :: f.after⟩ (promoted e x)
    f.before.length) >>= _) u = _
  rw [overWriteDatabaseKey_at, Exec.bind_ok (access_some _ _), Frame.promote, f.follow_node]
  rfl

theorem promoteFirst_removed (hC : C.Strict) (hW : t.WellFormed O C 0) (hHit : Hit C key t.f.node f e)
    (hL : Located C t.f.node 0 t.order t.header.root (h + 1) f.address path)
    (hHeight : path.length + (h + 1) = t.height)
    (hReach : PathTo t.f.node 0 t.order t.header.root k p.child (p :: segment ++ f.follow e :: path))
    (hLength : k + (p :: segment).length = h) (hLeft : ∀ q ∈ p :: segment, q.before = [])
    (hT : Trimmed O t k p.child (p :: segment ++ f.follow e :: path) u) (hAfter : p.after = x :: rest) :
    ∃ t', promoteFirst f.address ⟨f.leftChild, f.before ++ e :: f.after⟩ f.before.length p.address
        p.node u = .ok (promoted e x) t' ∧ t'.WellFormed O C 0 ∧
      t'.keys = f.keysLeft t.f.node h path ++ f.keysRight t.f.node h e path ∧
      t'.f.allocFailed = t.f.allocFailed := by
  have hKeys := hHit.keys hL.reach hHeight
  have hOrder : u.order = t.order := by rw [Btree.order, hT.header, Btree.order]
  have hRoot : u.header.root = t.header.root := by rw [hT.header]
  have hBlocks := hT.blocks
  have hProm : Promoting 0 u.order u.header.root u.f.node h f e x k p.child (p :: segment) path
      (u.setNode f.address (f.promote e x).node).f.node := by
    refine ⟨?_, hLength, hLeft, ?_, Function.update_self _ _ _,
      fun d hd => Function.update_of_ne hd _ _⟩
    · rw [hOrder, hRoot, hT.node]
      exact hReach
    · rw [hT.node]
      exact hBlocks.nodes_nodup
  have hR := removed_first hC (by rw [hT.header]; exact hW.order)
    (by rw [hT.header, hHeight]; exact hW.height_eq.symm) hProm hAfter (by rw [hT.node]; exact hT.empty)
    (by rw [hT.node, ← hKeys]; exact hW.sorted)
    (by rw [hT.node, ← hKeys, hT.header]; exact hW.nKeys) (by rw [hT.node]; exact hBlocks)
    (by rw [hT.node]; exact hT.nNodes)
  refine ⟨_, promoteFirst_run (hLeft p List.mem_cons_self) hAfter,
    (hR.placed.mono (Nat.le_trans (topKeys_le 0 _ _) (Nat.zero_le _))).wellFormed (Nat.lt_of_lt_of_le (Nat.succ_pos k)
      (Nat.le_add_left _ _)), ?_, hR.allocFailed.trans hT.allocFailed⟩
  rw [hR.keys, hT.node]

theorem dropKey_run (hW : t.WellFormed O C 0) (hHit : Hit C key t.f.node f e)
    (hL : Located C t.f.node 0 t.order t.header.root (h + 1) f.address path)
    (hHeight : path.length + (h + 1) = t.height)
    (hT : Trimmed O t h e.rightChild (f.follow e :: path) u) :
    ∃ t', dropKey f.address ⟨f.leftChild, f.before ++ e :: f.after⟩ f.before.length u = .ok () t' ∧
      t'.WellFormed O C 0 ∧
      t'.keys = f.keysLeft t.f.node h path ++ f.keysRight t.f.node h e path ∧
      t'.f.allocFailed = t.f.allocFailed := by
  obtain ⟨hNew, hKeys⟩ := dropped hW hHit hL hHeight hT
  have hRoot : u.header.root = t.header.root := by rw [hT.header]
  have hPos : 0 < path.length + (h + 1) := by omega
  rw [dropKey, Exec.bind_ok (Exec.get_run _), deleteDatabaseKey_at, Exec.bind_ok (access_some _ _),
    Exec.bind_ok writeNode_run, Exec.bind_ok (addKeys_run _)]
  split
  · rename_i hTurn
    have hAtRoot : ((u.setNode f.address f.node).addKeys (-1)).f.node
        ((u.setNode f.address f.node).addKeys (-1)).header.root = some f.node := by
      rw [← hNew.node]
      congr 1
      exact hTurn.2.symm
    obtain ⟨t', hRun, hW', hKeys', hFailed⟩ := collapseRootNode_run
      (hNew.placed.uncollapsed hPos fun _ => Nat.zero_le _) hAtRoot
    exact ⟨t', hRun, hW', hKeys'.trans hKeys, hFailed.trans hT.allocFailed⟩
  · have hTop := Nat.le_trans (topKeys_le 0 (h + 1) path) (Nat.zero_le (topKeys 0 (h + 1) path - 1))
    exact ⟨_, rfl, (hNew.placed.mono hTop).wellFormed hPos, hKeys, hT.allocFailed⟩

end End

/-! ## The call -/

section Call

variable {t : Btree κ} {key : κ} {f : Frame κ} {e : DatabaseKey κ} {path : List (Frame κ)}

theorem fastDeleteFromLeaf_run (hC : C.Strict) (hW : t.WellFormed O C 0) (hHit : Hit C key t.f.node f e)
    (hL : Located C t.f.node 0 t.order t.header.root 1 f.address path)
    (hA : Around C key t.f.node 1 path) (hHeight : path.length + 1 = t.height) :
    ∃ t', fastDeleteFromLeaf f.address ⟨f.leftChild, f.before ++ e :: f.after⟩ f.before.length t =
        .ok () t' ∧ t'.WellFormed O C 0 ∧
      t'.keys = f.keysLeft t.f.node 0 path ++ f.keysRight t.f.node 0 e path ∧
      t'.f.allocFailed = t.f.allocFailed := by
  have hR := removed_leaf hC hW hHit hL hA hHeight
  obtain ⟨t', hRun, hW', hKeys, hFailed⟩ := collapseRoot_run
    (hR.placed.uncollapsed (by omega) fun _ => Nat.zero_le _)
  refine ⟨t', ?_, hW', hKeys.trans hR.keys, hFailed.trans hR.allocFailed⟩
  rw [fastDeleteFromLeaf, deleteDatabaseKey_at, Exec.bind_ok (access_some _ _),
    Exec.bind_ok writeNode_run, Exec.bind_ok (addKeys_run _)]
  exact hRun

/-- The nodes on the way to the leftmost leaf after an entry, seen from that leaf. -/
theorem trimmed_leftmost {h : Nat} (hW : t.WellFormed O C 0) (hHit : Hit C key t.f.node f e)
    (hL : Located C t.f.node 0 t.order t.header.root (h + 1 + 1) f.address path)
    (hHeight : path.length + (h + 1 + 1) = t.height) (reads : Nat) :
    ∃ p segment, (∀ q ∈ p :: segment, q.before = []) ∧ segment.length = h ∧
      PathTo t.f.node 0 t.order t.header.root 0 p.child (p :: segment ++ f.follow e :: path) ∧
      Trimmed O t 0 p.child (p :: segment ++ f.follow e :: path) t ∧
      leftmost (reads + (h + 1)) e.rightChild [] t =
        .ok (p.address, p.node, segment.map Frame.address, reads) t := by
  obtain ⟨b, segment, hLeft, hPath⟩ := leftPath_segment t.f.node h e.rightChild
  have hNode : t.f.node f.address = some ⟨f.leftChild, (f.before ++ [e]) ++ f.after⟩ := by
    simpa using hHit.node
  obtain ⟨hFollow, hRight⟩ := hL.reach.down hL.sub hNode
  rw [lastBranch_concat] at hFollow hRight
  obtain ⟨hReach, hSub, hLength⟩ := leftPath_reach hFollow hRight
  obtain ⟨⟨c, l⟩, hn, hRun⟩ := leftmost_run hRight reads [] []
  rw [hPath] at hReach hSub hLength hn hRun
  simp only [List.append_nil, List.map_nil] at hRun hn
  have hReachLeaf := (hReach.down (l := []) hSub hn).1
  rw [List.length_append, List.length_cons] at hLength
  have hPerm := Btree.nodes_of_path (t := t) hReachLeaf
    (by rw [List.length_cons, List.length_append, List.length_cons]; omega)
  rw [nodesFrom, List.append_nil] at hPerm
  refine ⟨⟨b, c, [], l⟩, segment, ?_, by omega, hReachLeaf, ?_, hRun⟩
  · intro q hq
    rcases List.mem_cons.mp hq with rfl | hq
    · rfl
    · exact hLeft q hq
  · exact ⟨rfl, rfl, rfl, hW.blocks.perm hPerm, hW.nNodes.trans (by rw [hPerm.length_eq]; rfl), rfl⟩

theorem fastDeleteFromParent_run {h : Nat} (hC : C.Strict) (hW : t.WellFormed O C 0)
    (hHit : Hit C key t.f.node f e)
    (hL : Located C t.f.node 0 t.order t.header.root (h + 1 + 1) f.address path)
    (hHeight : path.length + (h + 1 + 1) = t.height) {p : Frame κ} {segment : List (Frame κ)}
    (hLeft : ∀ q ∈ p :: segment, q.before = []) (hLength : segment.length = h)
    (hReach : PathTo t.f.node 0 t.order t.header.root 0 p.child (p :: segment ++ f.follow e :: path))
    (hT : Trimmed O t 0 p.child (p :: segment ++ f.follow e :: path) t) {reads : Nat}
    (hReads : h ≤ reads) (k : DatabaseKey κ) :
    ∃ k' t', fastDeleteFromParent k f.address ⟨f.leftChild, f.before ++ e :: f.after⟩ f.before.length
        p.address p.node (segment.map Frame.address) reads t = .ok k' t' ∧ t'.WellFormed O C 0 ∧
      t'.keys = f.keysLeft t.f.node (h + 1) path ++ f.keysRight t.f.node (h + 1) e path ∧
      t'.f.allocFailed = t.f.allocFailed := by
  have hPNode : t.f.node p.address = some p.node := hReach.2.2.1
  have hPCount : p.node.keyCount ≤ t.order := hReach.2.2.2.2.1
  rw [fastDeleteFromParent]
  by_cases hEmpty : p.node.isEmpty = true
  · have hLoop : removeSibling p.address (removeEmptySiblings (segment.map Frame.address) reads) t =
        removeEmptySiblings ((p :: segment).map Frame.address) (reads + 1) t := by
      rw [List.map_cons, removeEmptySiblings, Exec.bind_ok (readNode_run hPNode hPCount), if_pos hEmpty]
    rw [if_pos hEmpty]
    have hEnough : (p :: segment).length ≤ reads + 1 := by
      rw [List.length_cons]
      omega
    rcases removeEmptySiblings_run hReach hLeft hT hEnough with
      ⟨empty, q, rest, u, hSplit, hFull, hRun, hU⟩ | ⟨u, hRun, hU⟩
    · rw [Exec.bind_ok (hLoop.trans hRun)]
      obtain ⟨x, l, hAfter⟩ := List.exists_cons_of_ne_nil hFull
      rw [hSplit, List.append_assoc, List.cons_append] at hReach
      have hSegment : empty.length + (rest.length + 1) = h + 1 := by
        have hSum := congrArg List.length hSplit
        rw [List.length_cons, List.length_append, List.length_cons] at hSum
        omega
      obtain ⟨t', hRun', hW', hKeys, hFailed⟩ := promoteFirst_removed hC hW hHit hL hHeight
        hReach.above (by rw [List.length_cons]; omega)
        (fun r hr => hLeft r (hSplit ▸ List.mem_append_right _ hr)) hU hAfter
      exact ⟨_, t', hRun', hW', hKeys, hFailed⟩
    · rw [Exec.bind_ok (hLoop.trans hRun)]
      rw [f.follow_child, Nat.zero_add, List.length_cons, hLength] at hU
      obtain ⟨t', hRun', hW', hKeys, hFailed⟩ := dropKey_run hW hHit hL hHeight hU
      refine ⟨k, t', ?_, hW', hKeys, hFailed⟩
      dsimp only
      rw [Exec.bind_ok hRun']
      rfl
  · rw [if_neg hEmpty]
    have hBefore := hLeft p List.mem_cons_self
    have hFull : p.after ≠ [] := by
      intro hNil
      exact hEmpty (by simp [Frame.node, hBefore, hNil, isEmpty, keyCount])
    obtain ⟨x, l, hAfter⟩ := List.exists_cons_of_ne_nil hFull
    obtain ⟨t', hRun', hW', hKeys, hFailed⟩ := promoteFirst_removed hC hW hHit hL hHeight hReach
      (by rw [List.length_cons]; omega) hLeft hT hAfter
    exact ⟨_, t', hRun', hW', hKeys, hFailed⟩

theorem fastDeleteDatabaseKey_run (hK : K.StrictOrder) (hW : t.WellFormed O K.comparison 0)
    (hReads : 2 * t.height ≤ gxBtreeMaxNodeReads) (c : FAU) :
    (∃ l x r, t.keys = l ++ x :: r ∧ K.comparison.eqv key x = true ∧
      ∃ k t', fastDeleteDatabaseKey K ⟨c, key⟩ t = .ok k t' ∧ t'.WellFormed O K.comparison 0 ∧
        t'.keys = l ++ r ∧ t'.f.allocFailed = t.f.allocFailed) ∨
    ∃ l r, t.keys = l ++ r ∧ (∀ x ∈ l, K.comparison.lt x key = true) ∧
      (∀ x ∈ r, K.comparison.lt key x = true) ∧
      fastDeleteDatabaseKey K ⟨c, key⟩ t = .error (.error .entryNotFound) t := by
  obtain ⟨n, hn⟩ : ∃ n, gxBtreeMaxNodeReads = n + t.height := ⟨gxBtreeMaxNodeReads - t.height, by omega⟩
  rcases hW.search hK.strict key with ⟨h, f, e, path, hE⟩ | ⟨path, hD, hKeys, hA⟩
  · left
    have hL := hE.located hW
    have hHeight := hE.height
    refine ⟨_, _, _, hE.keys hW, hE.hit.equal, ?_⟩
    have hWalk : findWalk K key (n + t.height) t.header.root t = _ :=
      findWalk_descent hK hE.descent n
    rw [← Nat.add_assoc, findWalk_hit hK hL.sub.nonzero hE.hit (hE.hit.count hL)] at hWalk
    rw [fastDeleteDatabaseKey, Exec.bind_ok (Exec.get_run _), hn, Exec.bind_ok hWalk]
    dsimp only
    rw [getBranch_at, Exec.bind_ok (access_some _ _)]
    have hRight := (hL.down (l := f.before ++ [e]) (r := f.after) (by simpa using hE.hit.node)).sub
    rw [lastBranch_concat, topKeys_cons] at hRight
    cases h with
    | zero =>
      obtain ⟨t', hRun, hW', hKeys, hFailed⟩ :=
        fastDeleteFromLeaf_run hK.strict hW hE.hit hL (hE.around hK.strict hW) hHeight
      refine ⟨⟨0, key⟩, t', ?_, hW', hKeys, hFailed⟩
      rw [if_pos (Subtree.zero_iff.mp hRight), Exec.bind_ok hRun]
      rfl
    | succ h =>
      obtain ⟨p, segment, hLeft, hLength, hReach, hT, hRun⟩ :=
        trimmed_leftmost hW hE.hit hL hHeight n
      obtain ⟨k, t', hRun', hRest⟩ := fastDeleteFromParent_run hK.strict hW hE.hit hL hHeight hLeft
        hLength hReach hT (show h ≤ n by omega) ⟨0, key⟩
      refine ⟨k, t', ?_, hRest⟩
      rw [if_neg hRight.nonzero, Exec.bind_ok hRun]
      exact hRun'
  · right
    refine ⟨_, _, hKeys, hA.1, hA.2, ?_⟩
    have hWalk : findWalk K key (n + t.height) t.header.root t = _ := findWalk_descent hK hD n
    rw [findWalk_null] at hWalk
    rw [fastDeleteDatabaseKey, Exec.bind_ok (Exec.get_run _), hn, Exec.bind_error hWalk]

end Call

end DataReel
