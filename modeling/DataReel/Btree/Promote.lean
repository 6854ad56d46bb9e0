import DataReel.Btree.Leftmost

/-! # A key of an inner node gives way to the next one

The first key of the nodes to the right of a deleted key takes its place. That
changes two nodes of the tree, the one that held the deleted key and one on the
leftmost path of the branch after it.
-/

namespace DataReel

open BtreeNode

variable {κ : Type} {O : OtherTrees κ} {C : Comparison κ} {lo : Nat}

/-- The state once the key is out of the tree: what is left to do starts at the node that lost an
entry. -/
structure Removed (O : OtherTrees κ) (C : Comparison κ) (lo : Nat) (t : Btree κ) (ks : List κ) (key : κ) (h : Nat)
    (a : FAU) (n : BtreeNode κ) (path : List (Frame κ)) (t' : Btree κ) : Prop where
  placed : Btree.Placed O C lo (topKeys lo (h + 1) path - 1) t' (h + 1) a path
  node : t'.f.node a = some n
  below : ∀ x ∈ keysBefore t'.f.node (h + 1) path, C.lt key x = false
  above : ∀ x ∈ keysAfter t'.f.node (h + 1) path, C.lt key x = true
  order : t'.order = t.order
  safe : balanceSafe t.f.node t.order path → balanceSafe t'.f.node t'.order path
  keys : t'.keys = ks
  allocFailed : t'.f.allocFailed = t.f.allocFailed

/-- The entry with the key that takes the place of the deleted one. -/
def promoted (e x : DatabaseKey κ) : DatabaseKey κ := ⟨e.rightChild, x.dbKey⟩

namespace Frame

variable (f : Frame κ) (e x : DatabaseKey κ)

/-- The path into the branch after an entry that follows those before. -/
def follow : Frame κ := ⟨f.address, f.leftChild, f.before ++ [e], f.after⟩

/-- The same once the entry has been exchanged. -/
def promote : Frame κ := f.follow (promoted e x)

theorem follow_node : (f.follow e).node = ⟨f.leftChild, f.before ++ e :: f.after⟩ := by
  simp [follow, node]

theorem follow_child : (f.follow e).child = e.rightChild := lastBranch_concat _ _ _

theorem follow_siblings : (f.follow e).siblings = f.node.branches := by
  rw [follow, siblings, initBranches_concat, node, branches_append, List.append_assoc,
    List.singleton_append]

theorem promote_child : (f.promote e x).child = e.rightChild := f.follow_child _

theorem promote_siblings : (f.promote e x).siblings = (f.follow e).siblings := by
  rw [promote, follow, follow, siblings, siblings, initBranches_concat, initBranches_concat]

theorem promote_keyCount : (f.promote e x).node.keyCount = (f.follow e).node.keyCount := by
  simp [promote, follow, keyCount_node]

end Frame

/-- The nodes after the key of an inner node was exchanged. The place `a` of height `k` is on the
leftmost path of the branch after the key. -/
structure Promoting (lo m : Nat) (root : FAU) (g : NodeMap κ) (h : Nat) (f : Frame κ)
    (e x : DatabaseKey κ) (k : Nat) (a : FAU) (segment path : List (Frame κ)) (g' : NodeMap κ) :
    Prop where
  reach : PathTo g lo m root k a (segment ++ f.follow e :: path)
  height : k + segment.length = h
  left : ∀ p ∈ segment, p.before = []
  nodup : (pathNodes g k (segment ++ f.follow e :: path)).Nodup
  new : g' f.address = some (f.promote e x).node
  other : ∀ b, b ≠ f.address → g' b = g b

namespace Promoting

variable {m : Nat} {root : FAU} {g g' : NodeMap κ} {h : Nat} {f : Frame κ} {e x : DatabaseKey κ}
  {k : Nat} {a : FAU} {segment path : List (Frame κ)}
  (hP : Promoting lo m root g h f e x k a segment path g')

include hP

theorem fresh : f.address ∉ pathNodes g k segment ∧
    f.address ∉ (f.follow e).siblings.flatMap (nodesFrom g h) ∧
    f.address ∉ pathNodes g (h + 1) path := by
  have hNodup := hP.nodup
  rw [pathNodes_append, hP.height, pathNodes, List.cons_append] at hNodup
  obtain ⟨-, hCons, hDisjoint⟩ := List.nodup_append.mp hNodup
  have hHead := (List.nodup_cons.mp hCons).1
  rw [List.mem_append, not_or] at hHead
  exact ⟨fun hMem => hDisjoint _ hMem _ List.mem_cons_self rfl, hHead⟩

theorem same_segment : ∀ b ∈ pathNodes g k segment, g' b = g b :=
  fun b hb => hP.other b (ne_of_mem_of_not_mem hb hP.fresh.1)

theorem same_siblings : ∀ b ∈ (f.follow e).siblings, ∀ d ∈ nodesFrom g h b, g' d = g d :=
  fun b hb d hd => hP.other d (ne_of_mem_of_not_mem (List.mem_flatMap.mpr ⟨b, hb, hd⟩) hP.fresh.2.1)

theorem same_path : ∀ b ∈ pathNodes g (h + 1) path, g' b = g b :=
  fun b hb => hP.other b (ne_of_mem_of_not_mem hb hP.fresh.2.2)

theorem reach' : PathTo g' lo m root k a (segment ++ f.promote e x :: path) := by
  refine PathTo.replace (by simp) (by simp) hP.same_segment hP.reach ?_
  rw [hP.height]
  rintro b ⟨rfl, hNull, -, hLow, hm, hSib, hAbove⟩
  rw [← f.promote_keyCount e x] at hLow hm
  refine ⟨?_, hNull, hP.new, hLow, hm, ?_, hAbove.congr hP.same_path⟩
  · rw [f.promote_child, f.follow_child]
  · rw [f.promote_siblings]
    exact fun b hb => (hSib b hb).congr (hP.same_siblings b hb)

theorem keysBefore_eq : keysBefore g' k (segment ++ f.promote e x :: path) =
    f.keysLeft g h path ++ [x.dbKey] := by
  have hInit : initKeys (keysFrom g' h) f.leftChild (f.before ++ [promoted e x]) =
      initKeys (keysFrom g h) f.leftChild (f.before ++ [promoted e x]) := by
    apply initKeys_congr
    intro b hb
    refine keysFrom_congr (hP.same_siblings b ?_)
    rw [← f.promote_siblings e x]
    exact List.mem_append_left _ hb
  rw [keysBefore_append, keysBefore_left _ _ _ hP.left, List.append_nil, hP.height, keysBefore,
    keysBefore_congr hP.same_path, Frame.keysLeft]
  change _ ++ initKeys _ f.leftChild (f.before ++ [promoted e x]) = _
  rw [hInit, initKeys_concat]
  simp [promoted, Frame.child]

theorem keysAfter_eq : keysAfter g' k (segment ++ f.promote e x :: path) =
    keysAfter g k (segment ++ f.follow e :: path) := by
  have hTail : tailKeys (keysFrom g' h) f.after = tailKeys (keysFrom g h) f.after :=
    tailKeys_congr fun b hb => keysFrom_congr (hP.same_siblings b (List.mem_append_right _ hb))
  rw [keysAfter_append, keysAfter_append, keysAfter_congr hP.same_segment, hP.height, keysAfter,
    keysAfter, keysAfter_congr hP.same_path]
  change _ ++ (tailKeys _ f.after ++ _) = _
  rw [hTail]
  rfl

theorem pathNodes_eq : pathNodes g' k (segment ++ f.promote e x :: path) =
    pathNodes g k (segment ++ f.follow e :: path) := by
  have hSib : (f.follow e).siblings.flatMap (nodesFrom g' h) =
      (f.follow e).siblings.flatMap (nodesFrom g h) :=
    List.flatMap_congr fun b hb => nodesFrom_congr (hP.same_siblings b hb)
  rw [pathNodes_append, pathNodes_append, pathNodes_congr hP.same_segment, hP.height, pathNodes,
    pathNodes, pathNodes_congr hP.same_path, f.promote_siblings, hSib]
  rfl

end Promoting

/-- What the branch after an entry holds, seen from a place in it that holds nothing. -/
theorem keysRight_eq {m : Nat} {root : FAU} {g : NodeMap κ} {h k : Nat} {a : FAU} {f : Frame κ}
    {e : DatabaseKey κ} {segment path : List (Frame κ)}
    (hReach : PathTo g lo m root k a (segment ++ f.follow e :: path))
    (hHeight : k + segment.length = h) (hLeft : ∀ p ∈ segment, p.before = []) :
    f.keysRight g h e path = keysFrom g k a ++ keysAfter g k (segment ++ f.follow e :: path) := by
  have hBelow := keysFrom_fill hReach
  have hAbove := keysFrom_fill hReach.above
  have hLength : (f.follow e :: path).length + (k + segment.length) =
      (segment ++ f.follow e :: path).length + k := by
    simp
    omega
  have hBefore := keysBefore_append g k segment (f.follow e :: path)
  rw [keysBefore_left _ _ _ hLeft, List.append_nil] at hBefore
  rw [hLength, hBelow, hBefore, List.append_assoc, List.append_assoc] at hAbove
  rw [List.append_cancel_left hAbove, f.follow_child, keysAfter, hHeight, Frame.keysRight,
    List.append_assoc]
  rfl

theorem removed_first (hC : C.Strict) {u : Btree κ} {h k : Nat} {f p : Frame κ}
    {e x : DatabaseKey κ} {rest : List (DatabaseKey κ)} {segment path : List (Frame κ)}
    (hOrder : 5 ≤ u.header.nodeOrder) (hHeight : u.header.btreeHeight = (path.length + (h + 1) : Nat))
    (hP : Promoting lo u.order u.header.root u.f.node h f e x k p.child (p :: segment) path
      (u.setNode f.address (f.promote e x).node).f.node)
    (hAfter : p.after = x :: rest) (hEmpty : keysFrom u.f.node k p.child = [])
    (hSorted : C.Sorted (f.keysLeft u.f.node h path ++ e.dbKey :: f.keysRight u.f.node h e path))
    (hKeys : u.header.nKeys =
      (f.keysLeft u.f.node h path ++ e.dbKey :: f.keysRight u.f.node h e path).length)
    (hBlocks : u.f.Blocks O (pathNodes u.f.node k (p :: segment ++ f.follow e :: path)))
    (hNodes : u.header.nNodes =
      (pathNodes u.f.node k (p :: segment ++ f.follow e :: path)).length) :
    Removed O C lo u (f.keysLeft u.f.node h path ++ f.keysRight u.f.node h e path) x.dbKey k p.address
      ⟨x.rightChild, rest⟩ (segment ++ f.promote e x :: path)
      (((u.setNode f.address (f.promote e x).node).setNode p.address
        ⟨x.rightChild, rest⟩).addKeys (-1)) := by
  obtain ⟨v, hv⟩ : ∃ v, v = u.setNode f.address (f.promote e x).node := ⟨_, rfl⟩
  rw [← hv] at hP ⊢
  have hHeader : v.header = u.header := by rw [hv, setNode_header]
  have hOrderV : v.order = u.order := by rw [hv, setNode_order]
  have hFirst : p.before = [] := hP.left p List.mem_cons_self
  have hSiblings : branches ⟨x.rightChild, rest⟩ = p.siblings := by
    rw [Frame.siblings, hFirst, hAfter]
    rfl
  have hLength := hP.height
  rw [List.length_cons] at hLength
  obtain ⟨-, hNull, hNode, hLow, hm, hSib, hReach⟩ := hP.reach'
  rw [p.keyCount_node, hFirst, hAfter, List.length_nil, List.length_cons] at hLow hm
  have hTop : topKeys lo (k + 1) (segment ++ f.promote e x :: path) ≤ 0 + (rest.length + 1) := hLow
  have hRight := keysRight_eq hP.reach hP.height hP.left
  rw [hEmpty, List.nil_append, ← hP.keysAfter_eq, List.cons_append, keysAfter, hAfter, tailKeys_cons,
    List.cons_append, List.cons_append] at hRight
  have hInorder : (⟨x.rightChild, rest⟩ : BtreeNode κ).inorder (keysFrom v.f.node k) ++
      keysAfter v.f.node (k + 1) (segment ++ f.promote e x :: path) =
      keysFrom v.f.node k x.rightChild ++ tailKeys (keysFrom v.f.node k) rest ++
        keysAfter v.f.node (k + 1) (segment ++ f.promote e x :: path) := rfl
  have hBefore := hP.keysBefore_eq
  rw [List.cons_append, keysBefore, hFirst, initKeys, List.append_nil] at hBefore
  have hSum : f.keysLeft u.f.node h path ++ f.keysRight u.f.node h e path =
      keysBefore v.f.node (k + 1) (segment ++ f.promote e x :: path) ++
        (⟨x.rightChild, rest⟩ : BtreeNode κ).inorder (keysFrom v.f.node k) ++
        keysAfter v.f.node (k + 1) (segment ++ f.promote e x :: path) := by
    rw [List.append_assoc, hInorder, hBefore, hRight]
    simp only [List.append_assoc, List.singleton_append]
  have hSorted' := Comparison.Sorted.sublist hSorted
    (List.Sublist.append_left (List.sublist_cons_self _ _) _)
  have hPerm : (p.address :: (branches ⟨x.rightChild, rest⟩).flatMap (nodesFrom v.f.node k) ++
      pathNodes v.f.node (k + 1) (segment ++ f.promote e x :: path)).Perm
      (pathNodes u.f.node k (p :: segment ++ f.follow e :: path)) := by
    rw [← hP.pathNodes_eq, hSiblings]
    exact List.Perm.refl _
  have hBlocksV : v.f.Blocks O (pathNodes u.f.node k (p :: segment ++ f.follow e :: path)) := by
    have hMem : f.follow e ∈ p :: segment ++ f.follow e :: path := by simp
    rw [hv]
    exact hBlocks.setNode (address_mem_pathNodes hMem) _
  rw [List.length_append, List.length_cons] at hKeys
  have hW := written (C := C) (n := ⟨x.rightChild, rest⟩) (d := -1) (hHeader ▸ hOrder)
    (by rw [hHeader, hHeight, List.length_append, List.length_cons]; omega)
    (by rw [hOrderV, hHeader]; exact hReach) hNull (by rw [hSiblings, hOrderV]; exact hSib)
    (show topKeys lo (k + 1) (segment ++ f.promote e x :: path) - 1 ≤ rest.length by omega)
    (by
      rw [hOrderV]
      exact (show rest.length ≤ u.order by omega))
    (hSum ▸ hSorted') (hBlocksV.perm hPerm.symm)
    (by rw [hHeader, hKeys, ← hSum, List.length_append]; omega)
    (by rw [hHeader, hNodes, hPerm.length_eq])
  have hAll := hSorted'
  rw [hSum, hBefore, List.append_assoc, List.append_assoc] at hAll
  obtain ⟨-, hFrom, hLess⟩ := Comparison.sorted_append.mp hAll
  refine ⟨hW.placed, hW.node, ?_, ?_, hOrderV, ?_, hW.keys.trans hSum.symm, ?_⟩
  · rw [hW.before, hBefore]
    intro y hy
    rcases List.mem_append.mp hy with hy | hy
    · exact hC.lt_not_gt (hLess y hy _ (by simp))
    · obtain rfl := List.mem_singleton.mp hy
      exact hC.lt_irrefl _
  · rw [hW.after]
    have hCons : C.Sorted (x.dbKey :: ((⟨x.rightChild, rest⟩ : BtreeNode κ).inorder
      (keysFrom v.f.node k) ++ keysAfter v.f.node (k + 1) (segment ++ f.promote e x :: path))) := hFrom
    exact fun y hy => (Comparison.sorted_cons.mp hCons).1 y (List.mem_append_right _ hy)
  · intro hSafe
    have hOld : u.f.node f.address = some (f.follow e).node := hP.reach.above.2.2.1
    have hCounts : ∀ b, (v.f.node b).map keyCount = (u.f.node b).map keyCount := by
      intro b
      by_cases hb : b = f.address
      · rw [hb, hP.new, hOld, Option.map_some, Option.map_some, f.promote_keyCount]
      · rw [hP.other b hb]
    have hSafeV : balanceSafe v.f.node u.order (segment ++ f.promote e x :: path) :=
      balanceSafe_congr (h := 0) (fun b _ => hCounts b) hSafe
    rw [← hOrderV] at hSafeV
    exact balanceSafe_congr (fun b hb => by rw [hW.same b hb]) hSafeV
  · rw [hv]
    rfl

/-! ## A key goes with the branch after it -/

/-- The empty nodes at the end of a path are gone. -/
structure Trimmed (O : OtherTrees κ) (t : Btree κ) (k : Nat) (a : FAU) (path : List (Frame κ)) (u : Btree κ) : Prop where
  node : u.f.node = t.f.node
  header : u.header = { t.header with nNodes := u.header.nNodes }
  empty : keysFrom t.f.node k a = []
  blocks : u.f.Blocks O (pathNodes t.f.node k path)
  nNodes : u.header.nNodes = (pathNodes t.f.node k path).length
  allocFailed : u.f.allocFailed = t.f.allocFailed

theorem dropped {t u : Btree κ} {h : Nat} {f : Frame κ} {e : DatabaseKey κ} {path : List (Frame κ)}
    {key : κ} (hW : t.WellFormed O C lo) (hHit : Hit C key t.f.node f e)
    (hL : Located C t.f.node lo t.order t.header.root (h + 1) f.address path)
    (hHeight : path.length + (h + 1) = t.height)
    (hT : Trimmed O t h e.rightChild (f.follow e :: path) u) :
    Written O C lo (topKeys lo (h + 1) path - 1) u h f.address f.node path
        ((u.setNode f.address f.node).addKeys (-1)) ∧
      ((u.setNode f.address f.node).addKeys (-1)).keys =
        f.keysLeft t.f.node h path ++ f.keysRight t.f.node h e path := by
  have hKeys := hHit.keys hL.reach hHeight
  have hOrder : u.order = t.order := by rw [Btree.order, hT.header, Btree.order]
  have hRoot : u.header.root = t.header.root := by rw [hT.header]
  have hBlocks := hT.blocks
  have hNNodes := hT.nNodes
  have hCount := hHit.count hL
  rw [pathNodes, f.follow_siblings, ← hT.node] at hBlocks hNNodes
  obtain ⟨n, hn, hTop, -, hB⟩ := hL.sub.at_node
  obtain rfl := Option.some.inj (hHit.node.symm.trans hn)
  rw [keyCount, List.length_append, List.length_cons] at hTop
  have hSum : f.keysLeft t.f.node h path ++ f.keysRight t.f.node h e path =
      keysBefore u.f.node (h + 1) path ++ f.node.inorder (keysFrom u.f.node h) ++
        keysAfter u.f.node (h + 1) path := by
    rw [hT.node, f.inorder_node, Frame.keysLeft, Frame.keysRight, hT.empty]
    simp only [List.append_assoc, List.nil_append]
  have hSorted := Comparison.Sorted.sublist (hKeys ▸ hW.sorted)
    (List.Sublist.append_left (List.sublist_cons_self _ _) _)
  have hBranches : ∀ b ∈ f.node.branches, Subtree u.f.node lo u.order lo h b := by
    intro b hb
    rw [hT.node, hOrder]
    refine hB b ?_
    rw [Frame.node, branches_append] at hb
    rw [branches_append, List.map_cons]
    simp only [List.mem_append, List.mem_cons] at hb ⊢
    rcases hb with hb | hb | hb
    · exact .inl hb
    · exact .inr (.inl hb)
    · exact .inr (.inr (.inr hb))
  have hNKeys := hW.nKeys
  rw [hKeys, List.length_append, List.length_cons] at hNKeys
  rw [List.length_append, List.length_cons] at hCount
  have hNew := written (C := C) (n := f.node) (d := -1) (by rw [hT.header]; exact hW.order)
    (by rw [hT.header, hHeight]; exact hW.height_eq.symm)
    (by rw [hT.node, hOrder, hRoot]; exact hL.reach) hL.sub.nonzero hBranches
    (show topKeys lo (h + 1) path - 1 ≤ f.node.keyCount by rw [f.keyCount_node]; omega)
    (by rw [f.keyCount_node]; omega) (hSum ▸ hSorted) hBlocks
    (by
      rw [← hSum, List.length_append, hT.header]
      change t.header.nKeys + -1 = _
      rw [hNKeys]
      omega)
    hNNodes
  exact ⟨hNew, hNew.keys.trans hSum.symm⟩

end DataReel
