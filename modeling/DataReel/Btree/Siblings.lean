import DataReel.Btree.Delete
import DataReel.Btree.Invariant

/-! # Two neighbouring children of a node

Balancing touches a node and two children with one entry between them. The
entries of both children with that entry in the middle are one sequence, which
a rotation cuts at another place and a merge leaves whole.
-/

namespace DataReel

open BtreeNode

variable {κ : Type} {O : OtherTrees κ} {C : Comparison κ}

/-- A parent node, split at one of its entries, and the children left and right of that entry. -/
structure Siblings (κ : Type) where
  address : FAU
  leftChild : FAU
  before : List (DatabaseKey κ)
  entry : DatabaseKey κ
  after : List (DatabaseKey κ)
  left : BtreeNode κ
  right : BtreeNode κ

namespace Siblings

variable (s : Siblings κ)

def parent : BtreeNode κ := ⟨s.leftChild, s.before ++ s.entry :: s.after⟩

def leftAddress : FAU := lastBranch s.leftChild s.before

def rightAddress : FAU := s.entry.rightChild

/-- The entry between the children as it moves down. -/
def separator : DatabaseKey κ := ⟨s.right.leftChild, s.entry.dbKey⟩

/-- Both children as one node. -/
def joined : BtreeNode κ :=
  ⟨s.left.leftChild, s.left.keyEntries ++ s.separator :: s.right.keyEntries⟩

/-- The other children of the parent. -/
def others : List FAU :=
  initBranches s.leftChild s.before ++ s.after.map DatabaseKey.rightChild

theorem joined_branches : s.joined.branches = s.left.branches ++ s.right.branches := by
  simp [joined, branches, separator]

theorem joined_inorder (F : FAU → List κ) :
    s.joined.inorder F = s.left.inorder F ++ s.entry.dbKey :: s.right.inorder F := by
  simp [joined, inorder, separator]

theorem joined_keyCount : s.joined.keyCount = s.left.keyCount + 1 + s.right.keyCount := by
  simp [joined, keyCount]
  omega

theorem parent_branches : s.parent.branches.Perm (s.leftAddress :: s.rightAddress :: s.others) := by
  rw [parent, branches_append, others, leftAddress, rightAddress, List.map_cons]
  exact List.perm_middle.trans (List.Perm.cons _ List.perm_middle)

/-- The keys of the tree, through the joined children. -/
def keys (g : NodeMap κ) (h : Nat) (path : List (Frame κ)) : List κ :=
  keysBefore g (h + 1 + 1) path ++ (initKeys (keysFrom g (h + 1)) s.leftChild s.before ++
    s.joined.inorder (keysFrom g h) ++ tailKeys (keysFrom g (h + 1)) s.after) ++
    keysAfter g (h + 1 + 1) path

/-- The nodes other than the three that balancing touches. -/
def rest (g : NodeMap κ) (h : Nat) (path : List (Frame κ)) : List FAU :=
  s.joined.branches.flatMap (nodesFrom g h) ++ s.others.flatMap (nodesFrom g (h + 1)) ++
    pathNodes g (h + 1 + 1) path

def nodes (g : NodeMap κ) (h : Nat) (path : List (Frame κ)) : List FAU :=
  s.address :: s.leftAddress :: s.rightAddress :: s.rest g h path

theorem mem_nodes {g : NodeMap κ} {h : Nat} {path : List (Frame κ)} :
    s.address ∈ s.nodes g h path ∧ s.leftAddress ∈ s.nodes g h path ∧
      s.rightAddress ∈ s.nodes g h path := by
  simp [nodes]

end Siblings

/-- A tree in which two neighbouring children may be balanced: they may hold any number of keys up
to `m`. The parent may lose one of its keys by that. -/
structure Balancing (O : OtherTrees κ) (C : Comparison κ) (lo : Nat) (t : Btree κ) (h : Nat) (s : Siblings κ)
    (path : List (Frame κ)) : Prop where
  order : 5 ≤ t.header.nodeOrder
  height : t.header.btreeHeight = (path.length + (h + 1 + 1) : Nat)
  nonzero : s.address ≠ 0
  left_nonzero : s.leftAddress ≠ 0
  right_nonzero : s.rightAddress ≠ 0
  parent : t.f.node s.address = some s.parent
  left : t.f.node s.leftAddress = some s.left
  right : t.f.node s.rightAddress = some s.right
  low : topKeys lo (h + 1 + 1) path ≤ s.parent.keyCount
  count : s.parent.keyCount ≤ t.order
  left_count : s.left.keyCount ≤ t.order
  right_count : s.right.keyCount ≤ t.order
  reach : PathTo t.f.node lo t.order t.header.root (h + 1 + 1) s.address path
  children : ∀ b ∈ s.joined.branches, Subtree t.f.node lo t.order lo h b
  others : ∀ b ∈ s.others, Subtree t.f.node lo t.order lo (h + 1) b
  sorted : C.Sorted (s.keys t.f.node h path)
  blocks : t.f.Blocks O (s.nodes t.f.node h path)
  nKeys : t.header.nKeys = (s.keys t.f.node h path).length
  nNodes : t.header.nNodes = (s.nodes t.f.node h path).length

/-- The state after balancing: the place of the parent in the tree, with the same keys. -/
structure Balanced (O : OtherTrees κ) (C : Comparison κ) (lo : Nat) (t : Btree κ) (h : Nat) (a : FAU)
    (path : List (Frame κ)) (t' : Btree κ) : Prop where
  placed : Btree.Placed O C lo (topKeys lo h path - 1) t' h a path
  before : keysBefore t'.f.node h path = keysBefore t.f.node h path
  after : keysAfter t'.f.node h path = keysAfter t.f.node h path
  same : ∀ d ∈ pathNodes t.f.node h path, t'.f.node d = t.f.node d
  keys : t'.keys = t.keys
  root : t'.header.root = t.header.root
  order : t'.order = t.order
  allocFailed : t'.f.allocFailed = t.f.allocFailed

namespace Balancing

variable {lo : Nat} {t t' : Btree κ} {h : Nat} {s : Siblings κ} {path : List (Frame κ)}
  (hB : Balancing O C lo t h s path)

include hB

theorem keys_eq : t.keys = s.keys t.f.node h path := by
  have hHeight : path.length + (h + 1 + 1) = t.height := by
    rw [Btree.height, hB.height, Int.toNat_natCast]
  rw [Btree.keys_of_path hB.reach hHeight, keysFrom_at hB.parent, Siblings.parent, inorder_append,
    tailKeys_cons, Siblings.keys, s.joined_inorder, ← keysFrom_at hB.left, ← keysFrom_at hB.right,
    Siblings.leftAddress, Siblings.rightAddress]
  simp

section Other

variable {g : NodeMap κ}
  (hOther : ∀ d, d ≠ s.address → d ≠ s.leftAddress → d ≠ s.rightAddress → g d = t.f.node d)

include hOther

theorem same : ∀ d ∈ s.rest t.f.node h path, g d = t.f.node d := by
  have hNodup := hB.blocks.nodes_nodup
  simp only [Siblings.nodes, List.nodup_cons, List.mem_cons, not_or] at hNodup
  intro d hd
  exact hOther d (ne_of_mem_of_not_mem hd hNodup.1.2.2) (ne_of_mem_of_not_mem hd hNodup.2.1.2)
    (ne_of_mem_of_not_mem hd hNodup.2.2.1)

theorem same_children : ∀ d ∈ s.joined.branches.flatMap (nodesFrom t.f.node h), g d = t.f.node d :=
  fun d hd => hB.same hOther d (List.mem_append_left _ (List.mem_append_left _ hd))

theorem same_others : ∀ b ∈ s.others, ∀ d ∈ nodesFrom t.f.node (h + 1) b, g d = t.f.node d :=
  fun b hb d hd => hB.same hOther d (List.mem_append_left _ (List.mem_append_right _
    (List.mem_flatMap.mpr ⟨b, hb, hd⟩)))

theorem same_path : ∀ d ∈ pathNodes t.f.node (h + 1 + 1) path, g d = t.f.node d :=
  fun d hd => hB.same hOther d (List.mem_append_right _ hd)

theorem same_initKeys : initKeys (keysFrom g (h + 1)) s.leftChild s.before =
    initKeys (keysFrom t.f.node (h + 1)) s.leftChild s.before :=
  initKeys_congr fun b hb => keysFrom_congr (hB.same_others hOther b (List.mem_append_left _ hb))

theorem same_tailKeys : tailKeys (keysFrom g (h + 1)) s.after =
    tailKeys (keysFrom t.f.node (h + 1)) s.after :=
  tailKeys_congr fun b hb => keysFrom_congr (hB.same_others hOther b (List.mem_append_right _ hb))

theorem same_flatMap_others :
    s.others.flatMap (nodesFrom g (h + 1)) = s.others.flatMap (nodesFrom t.f.node (h + 1)) :=
  List.flatMap_congr fun b hb => nodesFrom_congr (hB.same_others hOther b hb)

theorem others_subtree : ∀ b ∈ s.others, Subtree g lo t.order lo (h + 1) b :=
  fun b hb => (hB.others b hb).congr (hB.same_others hOther b hb)

end Other

theorem balanced {n : BtreeNode κ}
    (hOther : ∀ d, d ≠ s.address → d ≠ s.leftAddress → d ≠ s.rightAddress →
      t'.f.node d = t.f.node d)
    (hNode : t'.f.node s.address = some n)
    (hLow : topKeys lo (h + 1 + 1) path - 1 ≤ n.keyCount) (hCount : n.keyCount ≤ t.order)
    (hBranches : ∀ b ∈ n.branches, Subtree t'.f.node lo t.order lo (h + 1) b)
    (hInorder : n.inorder (keysFrom t'.f.node (h + 1)) =
      initKeys (keysFrom t.f.node (h + 1)) s.leftChild s.before ++
        s.joined.inorder (keysFrom t.f.node h) ++ tailKeys (keysFrom t.f.node (h + 1)) s.after)
    (hBlocks : t'.f.Blocks O (s.address :: n.branches.flatMap (nodesFrom t'.f.node (h + 1)) ++
      pathNodes t.f.node (h + 1 + 1) path))
    (hNodes : t'.header.nNodes = (s.address :: n.branches.flatMap (nodesFrom t'.f.node (h + 1)) ++
      pathNodes t.f.node (h + 1 + 1) path).length)
    (hHeader : t'.header = { t.header with nNodes := t'.header.nNodes })
    (hFailed : t'.f.allocFailed = t.f.allocFailed) :
    Balanced O C lo t (h + 1 + 1) s.address path t' := by
  have hPath := hB.same_path hOther
  have hRoot : t'.header.root = t.header.root := by rw [hHeader]
  have hOrder : t'.order = t.order := by rw [Btree.order, hHeader, Btree.order]
  have hKeys : keysBefore t'.f.node (h + 1 + 1) path ++ keysFrom t'.f.node (h + 1 + 1) s.address ++
      keysAfter t'.f.node (h + 1 + 1) path = s.keys t.f.node h path := by
    rw [keysBefore_congr hPath, keysAfter_congr hPath, keysFrom_at hNode, hInorder, Siblings.keys]
  have hPerm : (s.address :: n.branches.flatMap (nodesFrom t'.f.node (h + 1)) ++
      pathNodes t.f.node (h + 1 + 1) path).Perm (pathNodes t'.f.node (h + 1 + 1) path ++
      nodesFrom t'.f.node (h + 1 + 1) s.address) := by
    rw [pathNodes_congr hPath, nodesFrom_at hNode]
    exact List.perm_append_comm
  have hPlaced : Btree.Placed O C lo (topKeys lo (h + 1 + 1) path - 1) t' (h + 1 + 1) s.address
      path := by
    refine ⟨?_, ?_, ?_, ?_, hKeys ▸ hB.sorted, hBlocks.perm hPerm, ?_, ?_⟩
    · rw [hHeader]
      exact hB.order
    · rw [hHeader]
      exact hB.height
    · rw [hRoot, hOrder]
      exact hB.reach.congr hPath
    · rw [hOrder]
      exact Subtree.mk hB.nonzero hNode hLow hCount hBranches
    · rw [hKeys, hHeader]
      exact hB.nKeys
    · rw [hNodes, hPerm.length_eq]
  exact ⟨hPlaced, keysBefore_congr hPath, keysAfter_congr hPath, hPath,
    (hPlaced.keys_eq.trans hKeys).trans hB.keys_eq.symm, hRoot, hOrder, hFailed⟩

theorem addresses_ne : s.address ≠ s.leftAddress ∧ s.address ≠ s.rightAddress ∧
    s.leftAddress ≠ s.rightAddress := by
  have hNodup := hB.blocks.nodes_nodup
  simp only [Siblings.nodes, List.nodup_cons, List.mem_cons, not_or] at hNodup
  exact ⟨hNodup.1.1, hNodup.1.2.1, hNodup.2.1.1⟩

theorem rotated {L R : List (DatabaseKey κ)} {z : DatabaseKey κ}
    (hJoined : s.joined.keyEntries = L ++ z :: R) (hL : lo ≤ L.length) (hLm : L.length ≤ t.order)
    (hR : lo ≤ R.length) (hRm : R.length ≤ t.order)
    (hNode : t'.f.node s.address =
      some ⟨s.leftChild, s.before ++ ⟨s.rightAddress, z.dbKey⟩ :: s.after⟩)
    (hLeft : t'.f.node s.leftAddress = some ⟨s.left.leftChild, L⟩)
    (hRight : t'.f.node s.rightAddress = some ⟨z.rightChild, R⟩)
    (hOther : ∀ d, d ≠ s.address → d ≠ s.leftAddress → d ≠ s.rightAddress →
      t'.f.node d = t.f.node d)
    (hBlocks : t'.f.Blocks O (s.nodes t.f.node h path)) (hHeader : t'.header = t.header)
    (hFailed : t'.f.allocFailed = t.f.allocFailed) :
    Balanced O C lo t (h + 1 + 1) s.address path t' := by
  have hChildren := hB.same_children hOther
  have hSplit : s.joined.branches = branches ⟨s.left.leftChild, L⟩ ++ branches ⟨z.rightChild, R⟩ := by
    rw [← branches_split, ← hJoined]
    rfl
  have hSub := branches_congr hChildren hB.children
  have hFlat := flatMap_nodesFrom_congr hChildren
  have hInorder := inorder_keysFrom_congr hChildren
  rw [hSplit] at hSub
  rw [hSplit, List.flatMap_append, ← hSplit] at hFlat
  have hBranches : (branches ⟨s.leftChild, s.before ++ ⟨s.rightAddress, z.dbKey⟩ :: s.after⟩).Perm
      (s.leftAddress :: s.rightAddress :: s.others) := by
    rw [branches_append, Siblings.others, Siblings.leftAddress, List.map_cons]
    exact List.perm_middle.trans (List.Perm.cons _ List.perm_middle)
  have hPerm : (s.address :: (branches ⟨s.leftChild, s.before ++
      ⟨s.rightAddress, z.dbKey⟩ :: s.after⟩).flatMap (nodesFrom t'.f.node (h + 1)) ++
      pathNodes t.f.node (h + 1 + 1) path).Perm (s.nodes t.f.node h path) := by
    have hParts := hBranches.flatMap_right (nodesFrom t'.f.node (h + 1))
    rw [List.flatMap_cons, List.flatMap_cons, nodesFrom_at hLeft, nodesFrom_at hRight,
      hB.same_flatMap_others hOther] at hParts
    refine ((hParts.cons _).append_right _).trans ?_
    rw [Siblings.nodes, Siblings.rest, ← hFlat]
    simp only [List.cons_append, List.append_assoc]
    exact List.Perm.cons _ (List.Perm.cons _ List.perm_middle)
  have hParent : keyCount ⟨s.leftChild, s.before ++ ⟨s.rightAddress, z.dbKey⟩ :: s.after⟩ =
      s.parent.keyCount := by simp [Siblings.parent, keyCount]
  refine hB.balanced hOther hNode ?_ ?_ ?_ ?_ (hBlocks.perm hPerm.symm) ?_ ?_ hFailed
  · rw [hParent]
    exact Nat.le_trans (Nat.sub_le _ _) hB.low
  · rw [hParent]
    exact hB.count
  · intro b hb
    rcases List.mem_cons.mp (hBranches.mem_iff.mp hb) with rfl | hb
    · exact Subtree.mk hB.left_nonzero hLeft hL hLm fun d hd => hSub d (List.mem_append_left _ hd)
    · rcases List.mem_cons.mp hb with rfl | hb
      · exact Subtree.mk hB.right_nonzero hRight hR hRm
          fun d hd => hSub d (List.mem_append_right _ hd)
      · exact hB.others_subtree hOther b hb
  · have hMiddle : keysFrom t'.f.node (h + 1) s.leftAddress ++
        z.dbKey :: keysFrom t'.f.node (h + 1) s.rightAddress = s.joined.inorder (keysFrom t.f.node h) := by
      rw [keysFrom_at hLeft, keysFrom_at hRight, ← inorder_split, ← hJoined, ← hInorder]
      rfl
    rw [inorder_append, tailKeys_cons, hB.same_initKeys hOther, hB.same_tailKeys hOther, ← hMiddle,
      Siblings.leftAddress]
    simp only [List.append_assoc, List.cons_append]
  · rw [hPerm.length_eq, hHeader]
    exact hB.nNodes
  · rw [hHeader]

theorem merged (hLo : lo ≤ s.joined.keyCount) (hm : s.joined.keyCount ≤ t.order)
    (hNode : t'.f.node s.address = some ⟨s.leftChild, s.before ++ s.after⟩)
    (hLeft : t'.f.node s.leftAddress = some s.joined)
    (hOther : ∀ d, d ≠ s.address → d ≠ s.leftAddress → d ≠ s.rightAddress →
      t'.f.node d = t.f.node d)
    (hBlocks : t'.f.Blocks O (s.address :: s.leftAddress :: s.rest t.f.node h path))
    (hHeader : t'.header = { t.header with nNodes := t.header.nNodes - 1 })
    (hFailed : t'.f.allocFailed = t.f.allocFailed) :
    Balanced O C lo t (h + 1 + 1) s.address path t' := by
  have hChildren := hB.same_children hOther
  have hSub := branches_congr hChildren hB.children
  have hFlat := flatMap_nodesFrom_congr hChildren
  have hInorder := inorder_keysFrom_congr hChildren
  have hBranches : (branches ⟨s.leftChild, s.before ++ s.after⟩).Perm
      (s.leftAddress :: s.others) := by
    rw [branches_append, Siblings.others, Siblings.leftAddress]
    exact List.perm_middle
  have hPerm : (s.address :: (branches ⟨s.leftChild, s.before ++ s.after⟩).flatMap
      (nodesFrom t'.f.node (h + 1)) ++ pathNodes t.f.node (h + 1 + 1) path).Perm
      (s.address :: s.leftAddress :: s.rest t.f.node h path) := by
    have hParts := hBranches.flatMap_right (nodesFrom t'.f.node (h + 1))
    rw [List.flatMap_cons, nodesFrom_at hLeft, hB.same_flatMap_others hOther, hFlat] at hParts
    refine ((hParts.cons _).append_right _).trans ?_
    rw [Siblings.rest]
    simp only [List.cons_append, List.append_assoc]
    exact List.Perm.refl _
  have hParent : s.parent.keyCount = keyCount ⟨s.leftChild, s.before ++ s.after⟩ + 1 := by
    simp only [Siblings.parent, keyCount, List.length_append, List.length_cons]
    omega
  have hLow := hB.low
  have hCount := hB.count
  refine hB.balanced hOther hNode (by omega) (by omega) ?_ ?_ (hBlocks.perm hPerm.symm) ?_ ?_
    hFailed
  · intro b hb
    rcases List.mem_cons.mp (hBranches.mem_iff.mp hb) with rfl | hb
    · exact Subtree.mk hB.left_nonzero hLeft hLo hm hSub
    · exact hB.others_subtree hOther b hb
  · rw [inorder_append, hB.same_initKeys hOther, hB.same_tailKeys hOther, ← hInorder,
      ← keysFrom_at hLeft]
    rfl
  · rw [hPerm.length_eq, hHeader]
    have hCount := hB.nNodes
    simp only [Siblings.nodes, List.length_cons] at hCount ⊢
    omega
  · rw [hHeader]

end Balancing

end DataReel
