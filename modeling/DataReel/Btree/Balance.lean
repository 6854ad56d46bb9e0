import DataReel.Btree.Siblings

/-! # Balancing after a deletion

A child with few keys takes one from a neighbour that has many, or is merged
with a neighbour. The parent may lose a key that way and is balanced next.
-/

namespace DataReel

open BtreeNode

variable {κ : Type} {O : OtherTrees κ} {K : KeyClass κ} {C : Comparison κ}

/-! ## The runs of the rotations and of the merge -/

/-- A balancing step that leaves the parent with `count` keys. -/
def BalanceOk (O : OtherTrees κ) (C : Comparison κ) (lo : Nat) (t : Btree κ) (h : Nat) (a : FAU) (path : List (Frame κ))
    (count : Nat) (res : EStateM.Result Halt (Btree κ) (BtreeNode κ)) : Prop :=
  ∃ n t', res = .ok n t' ∧ t'.f.node a = some n ∧ n.keyCount = count ∧ Balanced O C lo t h a path t'

namespace Balancing

variable {lo : Nat} {t : Btree κ} {h : Nat} {s : Siblings κ} {path : List (Frame κ)}
  (hB : Balancing O C lo t h s path)

theorem getBranch_left (s : Siblings κ) :
    s.parent.getBranch ((s.before.length : Int) - 1) = some s.leftAddress :=
  getBranch_last _ _ _ _ rfl

theorem getBranch_right (s : Siblings κ) :
    s.parent.getBranch s.before.length = some s.rightAddress :=
  getBranch_at _ _ _ _

include hB

theorem rotation_run {rotate : Nat → FAU → Int → BtreeNode κ → BtreeNode κ → BtreeNode κ →
    Option (BtreeNode κ × BtreeNode κ × BtreeNode κ)} {L R : List (DatabaseKey κ)}
    {z : DatabaseKey κ} (hJoined : s.joined.keyEntries = L ++ z :: R) (hL : lo ≤ L.length)
    (hLm : L.length ≤ t.order) (hR : lo ≤ R.length) (hRm : R.length ≤ t.order)
    (hRotate : rotate t.order s.rightAddress s.before.length s.parent s.right s.left =
      some (⟨s.leftChild, s.before ++ ⟨s.rightAddress, z.dbKey⟩ :: s.after⟩, ⟨z.rightChild, R⟩,
        ⟨s.left.leftChild, L⟩)) :
    BalanceOk O C lo t (h + 1 + 1) s.address path s.parent.keyCount
      (rotation rotate s.address s.parent s.before.length t) := by
  obtain ⟨hAL, hAR, hLR⟩ := hB.addresses_ne
  refine ⟨⟨s.leftChild, s.before ++ ⟨s.rightAddress, z.dbKey⟩ :: s.after⟩, ((t.setNode s.address
    ⟨s.leftChild, s.before ++ ⟨s.rightAddress, z.dbKey⟩ :: s.after⟩).setNode s.rightAddress
    ⟨z.rightChild, R⟩).setNode s.leftAddress ⟨s.left.leftChild, L⟩, ?_, ?_, ?_, ?_⟩
  · rw [rotation, Exec.bind_ok (Exec.get_run _), getBranch_right, Exec.bind_ok (access_some _ _),
      getBranch_left, Exec.bind_ok (access_some _ _),
      Exec.bind_ok (readNode_run hB.right hB.right_count),
      Exec.bind_ok (readNode_run hB.left hB.left_count), hRotate, Exec.bind_ok (access_some _ _)]
    rfl
  · simp [Function.update_of_ne hAL, Function.update_of_ne hAR]
  · simp [Siblings.parent, keyCount]
  · have hWritten := ((hB.blocks.setNode s.mem_nodes.1 ⟨s.leftChild,
      s.before ++ ⟨s.rightAddress, z.dbKey⟩ :: s.after⟩).setNode s.mem_nodes.2.2
        ⟨z.rightChild, R⟩).setNode s.mem_nodes.2.1 ⟨s.left.leftChild, L⟩
    refine hB.rotated hJoined hL hLm hR hRm ?_ ?_ ?_ ?_ hWritten rfl rfl
    · simp [Function.update_of_ne hAL, Function.update_of_ne hAR]
    · simp
    · simp [Function.update_of_ne (Ne.symm hLR)]
    · intro d hd hdl hdr
      simp [Function.update_of_ne hd, Function.update_of_ne hdl, Function.update_of_ne hdr]

theorem insertRightRotation_run {L : List (DatabaseKey κ)} {z : DatabaseKey κ}
    (hLeft : s.left.keyEntries = L ++ [z]) (hL : lo ≤ L.length)
    (hR : lo ≤ s.right.keyCount + 1) (hRoom : s.right.keyCount < t.order) :
    BalanceOk O C lo t (h + 1 + 1) s.address path s.parent.keyCount
      (insertRightRotation s.address s.parent s.before.length t) := by
  have hJoined : s.joined.keyEntries = L ++ z :: (s.separator :: s.right.keyEntries) := by
    simp [Siblings.joined, hLeft]
  have hCount := hB.left_count
  rw [keyCount, hLeft, List.length_append, List.length_singleton] at hCount
  have hNode : s.left = ⟨s.left.leftChild, L ++ [z]⟩ := by rw [← hLeft]
  have hHighest : s.left.highestKey = L.length := by
    rw [highestKey, keyCount, hLeft]
    simp
  refine hB.rotation_run hJoined hL (by omega) hR hRoom ?_
  have hPut := insertDatabaseKey_first s.right.leftChild s.right.keyEntries s.separator t.order hRoom
  simp only [rotateRight, hHighest, Siblings.parent, loadKey_at, Option.bind_eq_bind,
    Option.bind_some]
  rw [hNode]
  change Option.bind (BtreeNode.insertDatabaseKey t.order ⟨s.right.leftChild, s.right.keyEntries⟩ s.separator 0)
    _ = _
  simp [hPut, getBranch_at, loadKey_at, overWriteDatabaseKey_at, deleteDatabaseKey_at,
    Siblings.rightAddress]

theorem insertLeftRotation_run {R : List (DatabaseKey κ)} {z : DatabaseKey κ}
    (hRight : s.right.keyEntries = z :: R) (hL : lo ≤ s.left.keyCount + 1)
    (hR : lo ≤ R.length) (hRoom : s.left.keyCount < t.order) :
    BalanceOk O C lo t (h + 1 + 1) s.address path s.parent.keyCount
      (insertLeftRotation s.address s.parent s.before.length t) := by
  have hJoined : s.joined.keyEntries = (s.left.keyEntries ++ [s.separator]) ++ z :: R := by
    simp [Siblings.joined, hRight]
  have hCount := hB.right_count
  rw [keyCount, hRight, List.length_cons] at hCount
  have hNode : s.right = ⟨s.right.leftChild, z :: R⟩ := by rw [← hRight]
  refine hB.rotation_run hJoined (by rw [List.length_append]; exact hL)
    (by rw [List.length_append]; exact hRoom) hR (by omega) ?_
  have hPut := appendDatabaseKey_at t.order s.left.leftChild s.left.keyEntries s.separator hRoom
  simp only [rotateLeft, Siblings.parent, loadKey_at, Option.bind_eq_bind, Option.bind_some]
  change Option.bind (appendDatabaseKey t.order ⟨s.left.leftChild, s.left.keyEntries⟩ s.separator)
    _ = _
  rw [hNode]
  simp [hPut, getBranch_first, loadKey_first, overWriteDatabaseKey_at, deleteDatabaseKey_first,
    Siblings.rightAddress]

theorem merge_run (hLow : lo ≤ s.joined.keyCount) (hRoom : s.joined.keyCount ≤ t.order) :
    BalanceOk O C lo t (h + 1 + 1) s.address path (s.parent.keyCount - 1)
      (merge s.address s.parent s.before.length t) := by
  obtain ⟨hAL, hAR, hLR⟩ := hB.addresses_ne
  have hCount := s.joined_keyCount
  have hMerge : mergeNodes t.order s.before.length s.parent s.right s.left =
      some (⟨s.leftChild, s.before ++ s.after⟩, s.joined) := by
    have hPut := appendDatabaseKey_at t.order s.left.leftChild s.left.keyEntries s.separator
      (show s.left.keyCount < t.order by omega)
    have hAll : (s.left.keyEntries ++ [s.separator] ++ s.right.keyEntries).length ≤ t.order := by
      simpa [Siblings.joined, keyCount] using hRoom
    have hTake := mergeNode_at t.order s.left.leftChild _ _ s.right.leftChild hAll
    simp only [mergeNodes, Siblings.parent, loadKey_at, Option.bind_eq_bind, Option.bind_some]
    change Option.bind (appendDatabaseKey t.order ⟨s.left.leftChild, s.left.keyEntries⟩ s.separator)
      _ = _
    simp [hPut, hTake, Siblings.joined]
  have hPerm : (s.nodes t.f.node h path).Perm
      (s.rightAddress :: s.address :: s.leftAddress :: s.rest t.f.node h path) := by
    rw [Siblings.nodes]
    exact (List.Perm.cons _ (List.Perm.swap _ _ _)).trans (List.Perm.swap _ _ _)
  obtain ⟨hRemove, hBlocks, hFile⟩ := (hB.blocks.perm hPerm).remove (by simp [hB.right])
  refine ⟨⟨s.leftChild, s.before ++ s.after⟩, ((Btree.addNodes { t with
    f := (t.f.remove s.rightAddress).2 } (-1)).setNode s.address
    ⟨s.leftChild, s.before ++ s.after⟩).setNode s.leftAddress s.joined, ?_, ?_, ?_, ?_⟩
  · rw [merge, Exec.bind_ok (Exec.get_run _), getBranch_right, Exec.bind_ok (access_some _ _),
      getBranch_left, Exec.bind_ok (access_some _ _),
      Exec.bind_ok (readNode_run hB.right hB.right_count),
      Exec.bind_ok (readNode_run hB.left hB.left_count), hMerge, Exec.bind_ok (access_some _ _)]
    exact Exec.bind_ok ((removeNode_run _ hRemove).trans rfl)
  · simp [Function.update_of_ne hAL]
  · simp [Siblings.parent, keyCount]
  · have hWritten := (hBlocks.setNode List.mem_cons_self ⟨s.leftChild, s.before ++ s.after⟩).setNode
      (List.mem_cons_of_mem _ List.mem_cons_self) s.joined
    refine hB.merged hLow hRoom ?_ ?_ ?_ hWritten rfl ?_
    · simp [Function.update_of_ne hAL]
    · simp
    · intro d hd hdl hdr
      simp [Function.update_of_ne hd, Function.update_of_ne hdl, hFile]
    · change (t.f.remove s.rightAddress).2.allocFailed = _
      rw [hFile]

end Balancing

/-! ## Which neighbour is used -/

def Frame.leftSibling (f : Frame κ) : Option FAU := (initBranches f.leftChild f.before).getLast?

def Frame.rightSibling (f : Frame κ) : Option FAU := f.after.head?.map DatabaseKey.rightChild

/-- The node at an address can spare a key. -/
def spares (g : NodeMap κ) (m : Nat) (a : FAU) : Bool := (g a).any (hasMany m)

/-- The keys a parent has left once the child below it is balanced. -/
def Frame.countAfter (g : NodeMap κ) (m : Nat) (f : Frame κ) : Nat :=
  if f.leftSibling.any (spares g m) || f.rightSibling.any (spares g m) then f.node.keyCount
  else f.node.keyCount - 1

theorem perm_pathNodes (g : NodeMap κ) (h : Nat) (f : Frame κ) (path : List (Frame κ)) :
    (pathNodes g h (f :: path) ++ nodesFrom g h f.child).Perm
      (f.address :: f.node.branches.flatMap (nodesFrom g h) ++ pathNodes g (h + 1) path) := by
  have hBranches := f.perm_branches.flatMap_right (nodesFrom g h)
  rw [List.flatMap_cons] at hBranches
  refine List.Perm.trans ?_ ((hBranches.symm.cons _).append_right _)
  rw [pathNodes, List.cons_append, List.cons_append, List.cons_append]
  refine List.Perm.cons _ ?_
  refine List.perm_append_comm.trans ?_
  rw [List.append_assoc]

section Pair

variable {lo : Nat} {t : Btree κ} {h : Nat} {p : Frame κ} {path : List (Frame κ)}

theorem balancing_of_placed (hP : Btree.Placed O C lo (lo - 1) t (h + 1) p.child (p :: path))
    {s : Siblings κ} (hAddress : s.address = p.address) (hChild : s.leftChild = p.leftChild)
    (hEntries : s.before ++ s.entry :: s.after = p.before ++ p.after)
    (hOthers : ∀ b ∈ s.others, b ∈ p.siblings)
    (hLeft : t.f.node s.leftAddress = some s.left) (hRight : t.f.node s.rightAddress = some s.right) :
    Balancing O C lo t h s path := by
  have hParent : s.parent = p.node := by rw [Siblings.parent, Frame.node, hChild, hEntries]
  obtain ⟨-, hNull, hNode, hLow, hm, hSib, hReach⟩ := hP.reach
  have hTop : ∀ b ∈ p.node.branches, Subtree t.f.node lo t.order (lo - 1) (h + 1) b := by
    intro b hb
    rcases p.mem_branches.mp hb with rfl | hb
    · exact hP.sub
    · exact (hSib b hb).mono (Nat.sub_le lo 1)
  have hBranches := s.parent_branches
  rw [hParent] at hBranches
  have hSubL := hTop s.leftAddress (hBranches.mem_iff.mpr List.mem_cons_self)
  have hSubR := hTop s.rightAddress (hBranches.mem_iff.mpr (List.mem_cons_of_mem _ List.mem_cons_self))
  obtain ⟨nl, hnl, -, hml, hBl⟩ := hSubL.at_node
  obtain ⟨nr, hnr, -, hmr, hBr⟩ := hSubR.at_node
  obtain rfl := Option.some.inj (hnl.symm.trans hLeft)
  obtain rfl := Option.some.inj (hnr.symm.trans hRight)
  have hPerm : (pathNodes t.f.node (h + 1) (p :: path) ++ nodesFrom t.f.node (h + 1) p.child).Perm
      (s.nodes t.f.node h path) := by
    refine (perm_pathNodes _ _ _ _).trans ?_
    have hFlat := hBranches.flatMap_right (nodesFrom t.f.node (h + 1))
    rw [List.flatMap_cons, List.flatMap_cons, nodesFrom_at hLeft, nodesFrom_at hRight] at hFlat
    refine ((hFlat.cons _).append_right _).trans ?_
    rw [Siblings.nodes, Siblings.rest, s.joined_branches, List.flatMap_append, hAddress]
    simp only [List.cons_append, List.append_assoc]
    exact List.Perm.cons _ (List.Perm.cons _ List.perm_middle)
  have hKeys : keysBefore t.f.node (h + 1) (p :: path) ++ keysFrom t.f.node (h + 1) p.child ++
      keysAfter t.f.node (h + 1) (p :: path) = s.keys t.f.node h path := by
    have hInorder : s.parent.inorder (keysFrom t.f.node (h + 1)) =
        p.node.inorder (keysFrom t.f.node (h + 1)) := by rw [hParent]
    rw [p.inorder_node, Siblings.parent, inorder_append, tailKeys_cons] at hInorder
    have hWhole := congrArg (fun l => keysBefore t.f.node (h + 1 + 1) path ++ l ++
      keysAfter t.f.node (h + 1 + 1) path) hInorder
    rw [Siblings.keys, s.joined_inorder, ← keysFrom_at hLeft, ← keysFrom_at hRight, keysBefore,
      keysAfter]
    simpa [Siblings.leftAddress, Siblings.rightAddress] using hWhole.symm
  refine ⟨hP.order, ?_, hAddress ▸ hNull, hSubL.nonzero, hSubR.nonzero, ?_, hLeft, hRight, ?_, ?_,
    hml, hmr, hAddress ▸ hReach, ?_, ?_, hKeys ▸ hP.sorted, hP.blocks.perm hPerm, ?_, ?_⟩
  · have hHeight := hP.height
    simp only [List.length_cons] at hHeight
    omega
  · rw [hAddress, hParent]
    exact hNode
  · rw [hParent]
    exact hLow
  · rw [hParent]
    exact hm
  · rw [s.joined_branches]
    intro b hb
    rcases List.mem_append.mp hb with hb | hb
    · exact hBl b hb
    · exact hBr b hb
  · exact fun b hb => hSib b (hOthers b hb)
  · rw [← hKeys]
    exact hP.nKeys
  · rw [← hPerm.length_eq]
    exact hP.nNodes

theorem balancing_left (hP : Btree.Placed O C lo (lo - 1) t (h + 1) p.child (p :: path))
    {l : List (DatabaseKey κ)} {e : DatabaseKey κ} (hBefore : p.before = l ++ [e])
    {left right : BtreeNode κ} (hLeft : t.f.node (lastBranch p.leftChild l) = some left)
    (hRight : t.f.node p.child = some right) :
    Balancing O C lo t h ⟨p.address, p.leftChild, l, e, p.after, left, right⟩ path := by
  have hChild : p.child = e.rightChild := by rw [Frame.child, hBefore, lastBranch_concat]
  rw [hChild] at hRight
  refine balancing_of_placed hP rfl rfl (by simp [hBefore]) ?_ hLeft hRight
  intro b hb
  rw [Frame.siblings, hBefore, initBranches_concat]
  rcases List.mem_append.mp hb with hb | hb
  · exact List.mem_append_left _ (List.mem_append_left _ hb)
  · exact List.mem_append_right _ hb

theorem balancing_right (hP : Btree.Placed O C lo (lo - 1) t (h + 1) p.child (p :: path))
    {r : List (DatabaseKey κ)} {e : DatabaseKey κ} (hAfter : p.after = e :: r)
    {left right : BtreeNode κ} (hLeft : t.f.node p.child = some left)
    (hRight : t.f.node e.rightChild = some right) :
    Balancing O C lo t h ⟨p.address, p.leftChild, p.before, e, r, left, right⟩ path := by
  refine balancing_of_placed hP rfl rfl (by simp [hAfter]) ?_ hLeft hRight
  intro b hb
  rw [Frame.siblings, hAfter, List.map_cons]
  rcases List.mem_append.mp hb with hb | hb
  · exact List.mem_append_left _ hb
  · exact List.mem_append_right _ (List.mem_cons_of_mem _ hb)

theorem sibling_node (hP : Btree.Placed O C lo (lo - 1) t (h + 1) p.child (p :: path)) {b : FAU}
    (hb : b ∈ p.siblings) : ∃ n, t.f.node b = some n ∧ n.keyCount ≤ t.order := by
  obtain ⟨n, hn, -, hm, -⟩ := (hP.reach.2.2.2.2.2.1 b hb).at_node
  exact ⟨n, hn, hm⟩

theorem spares_at {g : NodeMap κ} {m : Nat} {a : FAU} {n : BtreeNode κ} (hn : g a = some n) :
    spares g m a = n.hasMany m := by
  simp [spares, hn]

theorem hasMany_iff {m : Nat} {n : BtreeNode κ} : n.hasMany m = true ↔ m / 2 < n.keyCount := by
  simp [hasMany]

section Few

variable (hP : Btree.Placed O C lo (lo - 1) t (h + 1) p.child (p :: path))
  (hLo : lo ≤ t.order / 2) {n : BtreeNode κ} (hn : t.f.node p.child = some n)
  (hFew : n.keyCount < t.order / 2)

include hP hn

theorem few_count : lo ≤ n.keyCount + 1 := by
  obtain ⟨n', hn', hLow, -⟩ := hP.sub.at_node
  obtain rfl := Option.some.inj (hn.symm.trans hn')
  omega

include hFew

section Borrow

include hLo

theorem borrow_left {l : List (DatabaseKey κ)} {e : DatabaseKey κ} (hBefore : p.before = l ++ [e])
    {left : BtreeNode κ} (hLeft : t.f.node (lastBranch p.leftChild l) = some left)
    (hMany : left.hasMany t.order = true) :
    BalanceOk O C lo t (h + 1 + 1) p.address path p.node.keyCount
      (insertRightRotation p.address p.node l.length t) := by
  have hFour := four_le_order t
  have hCount := hasMany_iff.mp hMany
  obtain ⟨L, z, hz⟩ : ∃ L z, left.keyEntries = L ++ [z] := by
    rcases List.eq_nil_or_concat left.keyEntries with hNil | ⟨L, z, hz⟩
    · rw [keyCount, hNil, List.length_nil] at hCount
      omega
    · exact ⟨L, z, hz.trans List.concat_eq_append⟩
  have hLength : left.keyCount = L.length + 1 := by simp [keyCount, hz]
  have hNode : p.node = ⟨p.leftChild, l ++ e :: p.after⟩ := by simp [Frame.node, hBefore]
  have hRun := (balancing_left hP hBefore hLeft hn).insertRightRotation_run hz (by omega)
    (few_count hP hn) (show n.keyCount < t.order by omega)
  rw [hNode]
  exact hRun

theorem borrow_right {r : List (DatabaseKey κ)} {e : DatabaseKey κ} (hAfter : p.after = e :: r)
    {right : BtreeNode κ} (hRight : t.f.node e.rightChild = some right)
    (hMany : right.hasMany t.order = true) :
    BalanceOk O C lo t (h + 1 + 1) p.address path p.node.keyCount
      (insertLeftRotation p.address p.node p.before.length t) := by
  have hFour := four_le_order t
  have hCount := hasMany_iff.mp hMany
  obtain ⟨z, R, hz⟩ : ∃ z R, right.keyEntries = z :: R := by
    refine List.exists_cons_of_ne_nil (List.ne_nil_of_length_pos ?_)
    change 0 < right.keyCount
    omega
  have hLength : right.keyCount = R.length + 1 := by simp [keyCount, hz]
  have hNode : p.node = ⟨p.leftChild, p.before ++ e :: r⟩ := by rw [Frame.node, hAfter]
  have hRun := (balancing_right hP hAfter hn hRight).insertLeftRotation_run hz (few_count hP hn)
    (by omega) (show n.keyCount < t.order by omega)
  rw [hNode]
  exact hRun

end Borrow

theorem merge_left {l : List (DatabaseKey κ)} {e : DatabaseKey κ} (hBefore : p.before = l ++ [e])
    {left : BtreeNode κ} (hLeft : t.f.node (lastBranch p.leftChild l) = some left)
    (hMany : ¬ left.hasMany t.order = true) :
    BalanceOk O C lo t (h + 1 + 1) p.address path (p.node.keyCount - 1)
      (merge p.address p.node l.length t) := by
  rw [hasMany_iff] at hMany
  have hNode : p.node = ⟨p.leftChild, l ++ e :: p.after⟩ := by simp [Frame.node, hBefore]
  have hB := balancing_left hP hBefore hLeft hn
  have hCount := Siblings.joined_keyCount ⟨p.address, p.leftChild, l, e, p.after, left, n⟩
  have hLow := few_count hP hn
  dsimp only at hCount
  rw [hNode]
  exact hB.merge_run (by omega) (by omega)

theorem merge_right {r : List (DatabaseKey κ)} {e : DatabaseKey κ} (hAfter : p.after = e :: r)
    {right : BtreeNode κ} (hRight : t.f.node e.rightChild = some right)
    (hMany : ¬ right.hasMany t.order = true) :
    BalanceOk O C lo t (h + 1 + 1) p.address path (p.node.keyCount - 1)
      (merge p.address p.node p.before.length t) := by
  rw [hasMany_iff] at hMany
  have hNode : p.node = ⟨p.leftChild, p.before ++ e :: r⟩ := by rw [Frame.node, hAfter]
  have hB := balancing_right hP hAfter hn hRight
  have hCount := Siblings.joined_keyCount ⟨p.address, p.leftChild, p.before, e, r, n, right⟩
  have hLow := few_count hP hn
  dsimp only at hCount
  rw [hNode]
  exact hB.merge_run (by omega) (by omega)

include hLo in
theorem insertBalance_run (hParent : 0 < p.node.keyCount) :
    BalanceOk O C lo t (h + 1 + 1) p.address path (p.countAfter t.f.node t.order)
      (insertBalance p.address p.node ((p.before.length : Int) - 1) t) := by
  have hCount := p.keyCount_node
  rcases List.eq_nil_or_concat p.before with hBefore | ⟨l, e, hBefore⟩
  · obtain ⟨e, r, hAfter⟩ : ∃ e r, p.after = e :: r := by
      refine List.exists_cons_of_ne_nil (List.ne_nil_of_length_pos ?_)
      rw [hBefore, List.length_nil] at hCount
      omega
    obtain ⟨right, hRight, hm⟩ := sibling_node hP (b := e.rightChild) (by simp [Frame.siblings, hAfter])
    have hBranch : p.node.getBranch 0 = some e.rightChild := by
      rw [Frame.node, hBefore, hAfter]
      exact getBranch_at _ [] _ _
    have hSpares : p.countAfter t.f.node t.order =
        if right.hasMany t.order then p.node.keyCount else p.node.keyCount - 1 := by
      simp [Frame.countAfter, Frame.leftSibling, Frame.rightSibling, hBefore, hAfter, initBranches,
        spares_at hRight]
    have hMerge := merge_right hP hn hFew hAfter hRight
    have hBorrow := borrow_right hP hLo hn hFew hAfter hRight
    rw [insertBalance, Exec.bind_ok (Exec.get_run _), if_pos (by rw [hBefore]; rfl), hBranch,
      Exec.bind_ok (access_some _ _), Exec.bind_ok (readNode_run hRight hm), hSpares]
    rw [hBefore] at hMerge hBorrow
    split
    · exact hBorrow ‹_›
    · exact hMerge ‹_›
  · rw [List.concat_eq_append] at hBefore
    have hLength : p.before.length = l.length + 1 := by simp [hBefore]
    have hSib : lastBranch p.leftChild l ∈ p.siblings := by
      simp [Frame.siblings, hBefore, initBranches_concat]
    obtain ⟨left, hLeft, hm⟩ := sibling_node hP hSib
    have hBranch : p.node.getBranch ((l.length : Int) - 1) = some (lastBranch p.leftChild l) := by
      exact getBranch_last p.leftChild l (e :: p.after) _ (by simp [Frame.node, hBefore])
    have hLoc : (p.before.length : Int) - 1 = l.length := by omega
    have hMerge := merge_left hP hn hFew hBefore hLeft
    have hBorrow := borrow_left hP hLo hn hFew hBefore hLeft
    rw [insertBalance, Exec.bind_ok (Exec.get_run _), if_neg (by omega), hLoc, hBranch]
    cases hAfter : p.after with
    | nil =>
      have hSpares : p.countAfter t.f.node t.order =
          if left.hasMany t.order then p.node.keyCount else p.node.keyCount - 1 := by
        simp [Frame.countAfter, Frame.leftSibling, Frame.rightSibling, hBefore, hAfter,
          initBranches_concat, spares_at hLeft]
      rw [hAfter, List.length_nil] at hCount
      rw [if_pos (by rw [highestKey]; omega), Exec.bind_ok (access_some _ _),
        Exec.bind_ok (readNode_run hLeft hm), hSpares]
      split
      · exact hBorrow ‹_›
      · exact hMerge ‹_›
    | cons e' r =>
      obtain ⟨right, hRight, hm'⟩ :=
        sibling_node hP (b := e'.rightChild) (by simp [Frame.siblings, hAfter])
      have hSpares : p.countAfter t.f.node t.order =
          if left.hasMany t.order ∨ right.hasMany t.order then p.node.keyCount
          else p.node.keyCount - 1 := by
        simp [Frame.countAfter, Frame.leftSibling, Frame.rightSibling, hBefore, hAfter,
          initBranches_concat, spares_at hLeft, spares_at hRight]
      have hNext : p.node.getBranch ((l.length : Int) + 1) = some e'.rightChild := by
        have hAt := getBranch_at p.leftChild p.before r e'
        rw [← hAfter] at hAt
        rwa [show (l.length : Int) + 1 = p.before.length by omega]
      have hBorrowRight := borrow_right hP hLo hn hFew hAfter hRight
      rw [hAfter, List.length_cons] at hCount
      rw [if_neg (by rw [highestKey]; omega), Exec.bind_ok (access_some _ _),
        Exec.bind_ok (readNode_run hLeft hm), hSpares]
      by_cases hLeftMany : left.hasMany t.order = true
      · rw [if_pos hLeftMany, if_pos (.inl hLeftMany)]
        exact hBorrow hLeftMany
      · rw [if_neg hLeftMany, hNext, Exec.bind_ok (access_some _ _),
          Exec.bind_ok (readNode_run hRight hm')]
        by_cases hRightMany : right.hasMany t.order = true
        · rw [if_pos hRightMany, if_pos (.inr hRightMany),
            show (l.length : Int) + 1 = p.before.length by omega]
          exact hBorrowRight hRightMany
        · rw [if_neg hRightMany, if_neg (not_or.mpr ⟨hLeftMany, hRightMany⟩)]
          exact hMerge hLeftMany

end Few

end Pair

end DataReel
