import DataReel.Btree.InsertSpec

/-! # Growing a tree from a leaf up

A node that takes one more entry either has room for it or is split around it,
and then its parent takes the entry that goes up. The keys of the whole tree
with the new entry in place are the same at every turn.
-/

namespace DataReel

open BtreeNode

variable {κ : Type} {O : OtherTrees κ} {K : KeyClass κ} {C : Comparison κ}

/-- The node with one more entry at the branch taken. -/
def Frame.put (f : Frame κ) (key : DatabaseKey κ) : BtreeNode κ :=
  ⟨f.leftChild, f.before ++ key :: f.after⟩

theorem Frame.keyCount_put (f : Frame κ) (key : DatabaseKey κ) :
    (f.put key).keyCount = f.node.keyCount + 1 := by
  simp [Frame.put, Frame.node, keyCount]
  omega

theorem Frame.perm_put (f : Frame κ) (key : DatabaseKey κ) :
    (f.put key).branches.Perm (f.child :: key.rightChild :: f.siblings) := by
  rw [Frame.put, branches_append, siblings, child, List.map_cons]
  exact List.perm_middle.trans (List.Perm.cons _ List.perm_middle)

theorem Frame.inorder_put (F : FAU → List κ) (f : Frame κ) (key : DatabaseKey κ) :
    (f.put key).inorder F = initKeys F f.leftChild f.before ++
      (F f.child ++ key.dbKey :: F key.rightChild) ++ tailKeys F f.after := by
  simp [Frame.put, inorder_append, child]

/-- The keys of the tree once the node of `f` has taken the entry. -/
def grownKeys (g : NodeMap κ) (h : Nat) (f : Frame κ) (key : DatabaseKey κ)
    (path : List (Frame κ)) : List κ :=
  keysBefore g (h + 1) path ++ (f.put key).inorder (keysFrom g h) ++ keysAfter g (h + 1) path

/-- The nodes of the tree once the node of `f` has taken the entry. -/
def grownNodes (g : NodeMap κ) (h : Nat) (f : Frame κ) (key : DatabaseKey κ)
    (path : List (Frame κ)) : List FAU :=
  f.address :: (f.put key).branches.flatMap (nodesFrom g h) ++ pathNodes g (h + 1) path

/-- A tree in which the node of `f` is about to take an entry. -/
structure Growing (O : OtherTrees κ) (C : Comparison κ) (lo : Nat) (t : Btree κ) (h : Nat) (f : Frame κ)
    (key : DatabaseKey κ) (path : List (Frame κ)) : Prop where
  order : 5 ≤ t.header.nodeOrder
  height : t.header.btreeHeight = (path.length + (h + 1) : Nat)
  nonzero : f.address ≠ 0
  node : t.f.node f.address = some f.node
  low : topKeys lo (h + 1) path ≤ f.node.keyCount
  count : f.node.keyCount ≤ t.order
  reach : PathTo t.f.node lo t.order t.header.root (h + 1) f.address path
  branches : ∀ b ∈ (f.put key).branches, Subtree t.f.node lo t.order lo h b
  sorted : C.Sorted (grownKeys t.f.node h f key path)
  blocks : t.f.Blocks O (grownNodes t.f.node h f key path)
  nKeys : t.header.nKeys + 1 = (grownKeys t.f.node h f key path).length
  nNodes : t.header.nNodes = (grownNodes t.f.node h f key path).length

namespace Growing

variable {lo : Nat} {t : Btree κ} {h : Nat} {f : Frame κ} {key : DatabaseKey κ}
  {path : List (Frame κ)}

theorem same (hG : Growing O C lo t h f key path) {g : NodeMap κ} {b : FAU}
    (hFresh : b ∉ grownNodes t.f.node h f key path)
    (hOther : ∀ d, d ≠ f.address → d ≠ b → g d = t.f.node d) :
    (∀ d ∈ (f.put key).branches.flatMap (nodesFrom t.f.node h), g d = t.f.node d) ∧
      ∀ d ∈ pathNodes t.f.node (h + 1) path, g d = t.f.node d := by
  have hNodup := hG.blocks.nodes_nodup
  simp only [grownNodes, List.cons_append, List.nodup_cons, List.mem_append, List.mem_cons,
    not_or] at hNodup hFresh
  constructor
  · intro d hd
    exact hOther d (ne_of_mem_of_not_mem hd hNodup.1.1) (ne_of_mem_of_not_mem hd hFresh.2.1)
  · intro d hd
    exact hOther d (ne_of_mem_of_not_mem hd hNodup.1.2) (ne_of_mem_of_not_mem hd hFresh.2.2)

theorem fits (hG : Growing O C lo t h f key path) (hRoom : f.node.keyCount < t.order) :
    ((t.setNode f.address (f.put key)).addKeys 1).WellFormed O C lo ∧
      ((t.setNode f.address (f.put key)).addKeys 1).keys = grownKeys t.f.node h f key path := by
  have hLow := hG.low
  have hCount := f.keyCount_put key
  have hWritten := written (C := C) (d := 1) hG.order hG.height hG.reach hG.nonzero hG.branches
    (show topKeys lo (h + 1) path ≤ (f.put key).keyCount by omega) (by omega) hG.sorted hG.blocks
    hG.nKeys hG.nNodes
  exact ⟨hWritten.placed.wellFormed (by omega), hWritten.keys⟩

end Growing

/-- The two halves of a split node, in a map of nodes that holds them. -/
structure Halves (t : Btree κ) (h : Nat) (f : Frame κ) (key : DatabaseKey κ)
    (path : List (Frame κ)) (b : FAU) (L R : List (DatabaseKey κ)) (mid : DatabaseKey κ)
    (g : NodeMap κ) : Prop where
  put : f.before ++ key :: f.after = L ++ mid :: R
  left_ne : L ≠ []
  right_ne : R ≠ []
  nonzero : b ≠ 0
  fresh : b ∉ grownNodes t.f.node h f key path
  left : g f.address = some ⟨f.leftChild, L⟩
  right : g b = some ⟨mid.rightChild, R⟩
  other : ∀ d, d ≠ f.address → d ≠ b → g d = t.f.node d

namespace Halves

variable {lo : Nat} {t : Btree κ} {h : Nat} {f : Frame κ} {key : DatabaseKey κ}
  {path : List (Frame κ)} {b : FAU} {L R : List (DatabaseKey κ)} {mid : DatabaseKey κ}
  {g : NodeMap κ}

section Split

variable (hH : Halves t h f key path b L R mid g)

include hH

theorem branches_eq :
    (f.put key).branches = branches ⟨f.leftChild, L⟩ ++ branches ⟨mid.rightChild, R⟩ := by
  rw [Frame.put, hH.put, branches_split]

theorem low {m : Nat} {order : Int} {above : List (Frame κ)} (hFull : f.node.keyCount = m)
    (hLeft : L.length = splitLeft order f.before.length)
    (hKeep : splitsKeep lo m order (f :: above)) :
    lo ≤ L.length ∧ lo ≤ R.length ∧ splitsKeep lo m order above := by
  obtain ⟨hL, hR, hAbove⟩ := hKeep hFull
  have hLength := congrArg List.length hH.put
  rw [f.keyCount_node] at hFull
  simp only [List.length_append, List.length_cons] at hLength
  exact ⟨by omega, by omega, hAbove⟩

variable (hG : Growing O C lo t h f key path)

include hG

theorem subtrees (hL : lo ≤ L.length) (hR : lo ≤ R.length) :
    Subtree g lo t.order lo (h + 1) f.address ∧ Subtree g lo t.order lo (h + 1) b := by
  have hBranch := branches_congr (hG.same hH.fresh hH.other).1 hG.branches
  have hLength := congrArg List.length hH.put
  have hCount := hG.count
  rw [f.keyCount_node] at hCount
  simp only [List.length_append, List.length_cons] at hLength
  rw [hH.branches_eq] at hBranch
  constructor
  · refine Subtree.mk hG.nonzero hH.left hL ?_ fun d hd => hBranch d (List.mem_append_left _ hd)
    change L.length ≤ t.order
    have := List.length_pos_of_ne_nil hH.right_ne
    omega
  · refine Subtree.mk hH.nonzero hH.right hR ?_ fun d hd => hBranch d (List.mem_append_right _ hd)
    change R.length ≤ t.order
    have := List.length_pos_of_ne_nil hH.left_ne
    omega

theorem keys : keysFrom g (h + 1) f.address ++ mid.dbKey :: keysFrom g (h + 1) b =
    (f.put key).inorder (keysFrom t.f.node h) := by
  rw [keysFrom_at hH.left, keysFrom_at hH.right, ← inorder_split, ← hH.put]
  exact inorder_keysFrom_congr (hG.same hH.fresh hH.other).1

theorem nodes : (nodesFrom g (h + 1) f.address ++ nodesFrom g (h + 1) b ++
    pathNodes g (h + 1) path).Perm (b :: grownNodes t.f.node h f key path) := by
  obtain ⟨hBranch, hPath⟩ := hG.same hH.fresh hH.other
  have hSum := flatMap_nodesFrom_congr hBranch
  rw [hH.branches_eq, List.flatMap_append, List.flatMap_append] at hSum
  rw [nodesFrom_at hH.left, nodesFrom_at hH.right, pathNodes_congr hPath, grownNodes, hH.branches_eq,
    List.flatMap_append, ← hSum]
  simp only [List.cons_append, List.append_assoc]
  refine (List.Perm.cons _ ?_).trans (List.Perm.swap _ _ _)
  exact List.perm_middle

end Split

section Above

/-! The parent takes the middle entry, with the right half for its child. -/

variable {p : Frame κ} (hH : Halves t h f key (p :: path) b L R mid g)
  (hG : Growing O C lo t h f key (p :: path))

include hH hG

theorem keys_above (hChild : p.child = f.address) :
    grownKeys g (h + 1) p ⟨b, mid.dbKey⟩ path = grownKeys t.f.node h f key (p :: path) := by
  have hPath := (hG.same hH.fresh hH.other).2
  rw [grownKeys, grownKeys, ← hH.keys hG, ← keysBefore_congr hPath, ← keysAfter_congr hPath,
    p.inorder_put, hChild, keysBefore, keysAfter]
  simp only [List.append_assoc]

theorem nodes_above (hChild : p.child = f.address) :
    (grownNodes g (h + 1) p ⟨b, mid.dbKey⟩ path).Perm
      (b :: grownNodes t.f.node h f key (p :: path)) := by
  refine List.Perm.trans ?_ (hH.nodes hG)
  have hPut := (p.perm_put ⟨b, mid.dbKey⟩).flatMap_right (nodesFrom g (h + 1))
  rw [hChild, List.flatMap_cons, List.flatMap_cons] at hPut
  rw [grownNodes, pathNodes]
  refine ((hPut.cons _).append_right _).trans ?_
  have hMove (x y z : List FAU) (d : FAU) : (d :: (x ++ (y ++ z))).Perm (x ++ (y ++ d :: z)) := by
    rw [← List.append_assoc, ← List.append_assoc]
    exact List.perm_middle.symm
  simpa only [List.cons_append, List.append_assoc] using hMove _ _ _ p.address

theorem climb (hL : lo ≤ L.length) (hR : lo ≤ R.length) {t' : Btree κ} (hNode : t'.f.node = g)
    (hBlocks : t'.f.Blocks O (b :: grownNodes t.f.node h f key (p :: path)))
    (hHeader : t'.header = { t.header with nNodes := t.header.nNodes + 1 }) :
    Growing O C lo t' (h + 1) p ⟨b, mid.dbKey⟩ path := by
  have hPath := (hG.same hH.fresh hH.other).2
  obtain ⟨hChild, hNull, hAt, hLow, hm, hSib, hP⟩ := hG.reach.congr hPath
  obtain ⟨hLeft, hRight⟩ := hH.subtrees hG hL hR
  have hOrder : t'.order = t.order := by rw [Btree.order, hHeader, Btree.order]
  have hKeys := hH.keys_above hG hChild
  have hNodes := hH.nodes_above hG hChild
  subst hNode
  rw [← hOrder] at hLeft hRight hm hSib hP
  refine ⟨?_, ?_, hNull, hAt, hLow, hm, ?_, ?_, ?_, hBlocks.perm hNodes.symm, ?_, ?_⟩
  · rw [hHeader]
    exact hG.order
  · rw [hHeader]
    simp only [hG.height, List.length_cons]
    omega
  · rw [hHeader]
    exact hP
  · intro d hd
    rcases List.mem_cons.mp ((p.perm_put _).mem_iff.mp hd) with rfl | hd
    · rw [hChild]
      exact hLeft
    · rcases List.mem_cons.mp hd with rfl | hd
      · exact hRight
      · exact hSib d hd
  · rw [hKeys]
    exact hG.sorted
  · rw [hKeys, hHeader]
    exact hG.nKeys
  · rw [hNodes.length_eq, hHeader, List.length_cons]
    simp only [hG.nNodes]
    omega

end Above

end Halves

/-! ## A new root -/

/-- What `GrowNewRoot` makes of the tree. -/
def Btree.newRoot (t : Btree κ) (key : DatabaseKey κ) : Btree κ :=
  (Btree.setHeader { t with f := t.f.alloc.2 } { t.header with
    nNodes := t.header.nNodes + 1
    btreeHeight := t.header.btreeHeight + 1
    root := t.f.alloc.1 }).setNode t.f.alloc.1 ⟨t.header.root, [key]⟩

theorem growNewRoot_run (t : Btree κ) (key : DatabaseKey κ) :
    growNewRoot key t = .ok () (t.newRoot key) := by
  have hRoom : ([] : List (DatabaseKey κ)).length < t.order := by
    have := four_le_order t
    simp
    omega
  rw [growNewRoot, Exec.bind_ok (Exec.get_run _), Exec.bind_ok (allocNode_run),
    Exec.bind_ok (Exec.modify_run _ _), insertDatabaseKey_first _ _ _ _ hRoom,
    Exec.bind_ok (access_some _ _), writeNode_run]
  rfl

theorem Halves.grow {lo : Nat} {t : Btree κ} {h : Nat} {f : Frame κ} {key : DatabaseKey κ} {b : FAU}
    {L R : List (DatabaseKey κ)} {mid : DatabaseKey κ} {t' : Btree κ}
    (hH : Halves t h f key [] b L R mid t'.f.node) (hG : Growing O C lo t h f key [])
    (hL : lo ≤ L.length) (hR : lo ≤ R.length)
    (hBlocks : t'.f.Blocks O (b :: grownNodes t.f.node h f key []))
    (hHeader : t'.header = { t.header with nNodes := t.header.nNodes + 1 })
    (hAlloc : t'.f.alloc.1 ≠ 0) :
    ((t'.newRoot ⟨b, mid.dbKey⟩).addKeys 1).WellFormed O C lo ∧
      ((t'.newRoot ⟨b, mid.dbKey⟩).addKeys 1).keys = grownKeys t.f.node h f key [] := by
  have hRoot : f.address = t.header.root := hG.reach
  have hOrder : t'.order = t.order := by rw [Btree.order, hHeader, Btree.order]
  obtain ⟨hLeft, hRight⟩ := hH.subtrees hG hL hR
  have hKeys := hH.keys hG
  have hNodes := hH.nodes hG
  rcases hBlocks.alloc with ⟨h0, -⟩ | ⟨hNew, hBlocks', -, hOther⟩
  · exact absurd h0 hAlloc
  obtain ⟨n, hn⟩ : ∃ n : BtreeNode κ, n = ⟨f.address, [⟨b, mid.dbKey⟩]⟩ := ⟨_, rfl⟩
  obtain ⟨g, hg⟩ : ∃ g, g = ((t'.newRoot ⟨b, mid.dbKey⟩).addKeys 1).f.node := ⟨_, rfl⟩
  have hSelf : g t'.f.alloc.1 = some n := by
    rw [hg, hn, hRoot]
    change Function.update t'.f.alloc.2.node t'.f.alloc.1
      (some (⟨t'.header.root, [⟨b, mid.dbKey⟩]⟩ : BtreeNode κ)) t'.f.alloc.1 = _
    rw [Function.update_self, hHeader]
  have hBranches : n.branches.flatMap (nodesFrom t'.f.node (h + 1)) =
      nodesFrom t'.f.node (h + 1) f.address ++ nodesFrom t'.f.node (h + 1) b := by
    simp [hn, branches]
  have hPerm : (n.branches.flatMap (nodesFrom t'.f.node (h + 1))).Perm
      (b :: grownNodes t.f.node h f key []) := by
    rw [hBranches]
    simpa [pathNodes] using hNodes
  have hSame : ∀ d ∈ n.branches.flatMap (nodesFrom t'.f.node (h + 1)), g d = t'.f.node d := by
    intro d hd
    have hNe : d ≠ t'.f.alloc.1 := by
      rintro rfl
      exact (List.nodup_cons.mp hBlocks'.nodes_nodup).1 (hPerm.mem_iff.mp hd)
    rw [hg]
    exact (Function.update_of_ne hNe _ _).trans (hOther d hNe)
  have hRootKeys : keysFrom g (h + 1 + 1) t'.f.alloc.1 = grownKeys t.f.node h f key [] := by
    rw [keysFrom_at hSelf, inorder_keysFrom_congr hSame, grownKeys, ← hKeys, hn]
    simp [inorder, keysBefore, keysAfter]
  have hRootNodes : (nodesFrom g (h + 1 + 1) t'.f.alloc.1).Perm
      (t'.f.alloc.1 :: b :: grownNodes t.f.node h f key []) := by
    rw [nodesFrom_at hSelf, flatMap_nodesFrom_congr hSame]
    exact hPerm.cons _
  have hBranch : ∀ d ∈ n.branches, Subtree t'.f.node lo t'.order lo (h + 1) d := by
    rw [hOrder, hn]
    simp [branches, hLeft, hRight]
  have hL : Located C g lo t'.order t'.f.alloc.1 (h + 1 + 1) t'.f.alloc.1 [] := by
    refine ⟨rfl, ?_, ?_⟩
    · have hFour := four_le_order t'
      have hCount : n.keyCount = 1 := by simp [hn, keyCount]
      have hTop : topKeys lo (h + 1 + 1) ([] : List (Frame κ)) ≤ 1 := by
        rw [topKeys_nil, rootKeys]
        split <;> omega
      exact Subtree.mk hNew hSelf (by omega) (by omega) (branches_congr hSame hBranch)
    · simpa [keysBefore, keysAfter, hRootKeys] using hG.sorted
  subst hg
  have hPlaced : Btree.Placed O C lo (topKeys lo (h + 1 + 1) ([] : List (Frame κ)))
      ((t'.newRoot ⟨b, mid.dbKey⟩).addKeys 1) (h + 1 + 1) t'.f.alloc.1 [] := by
    refine ⟨?_, ?_, hL.reach, hL.sub, hL.sorted, (hBlocks'.setNode List.mem_cons_self _).perm hRootNodes.symm, ?_, ?_⟩
    · change 5 ≤ t'.header.nodeOrder
      rw [hHeader]
      exact hG.order
    · change t'.header.btreeHeight + 1 = _
      rw [hHeader]
      simp only [hG.height, List.length_nil]
      omega
    · change t'.header.nKeys + 1 = _
      rw [keysBefore, keysAfter, List.nil_append, List.append_nil, hRootKeys, hHeader]
      exact hG.nKeys
    · change t'.header.nNodes + 1 = _
      rw [pathNodes, List.nil_append, hRootNodes.length_eq, hHeader]
      simp only [hG.nNodes, List.length_cons]
      omega
  refine ⟨hPlaced.wellFormed (by simp), hPlaced.keys_eq.trans ?_⟩
  rw [keysBefore, keysAfter, List.nil_append, List.append_nil]
  exact hRootKeys

end DataReel
