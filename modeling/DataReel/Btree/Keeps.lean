import DataReel.Btree.Alike
import DataReel.Btree.Refinement

/-! # What the programs on a tree keep

A program keeps a relation when its runs on two objects with the same tree end
alike and leave objects that have the same tree and are related again. Each
program keeps what the operations on nodes and blocks keep.
-/

namespace DataReel

open Btree

variable {κ α β : Type} {E : Btree κ → Btree κ → Prop} {A A' : List FAU} {B : α → List FAU}

/-- From related objects on which `A` may be written, the runs end alike; the nodes of `B` may be
written then. -/
def Keeps (E : Btree κ → Btree κ → Prop) (A : List FAU) (x : BtreeM κ α) (B : α → List FAU) : Prop :=
  Coupled (Alike E A) x (fun r => Alike E (B r)) (Alike E [])

theorem Btree.Alike.subset {s t : Btree κ} (h : Alike E A s t) (hSub : A' ⊆ A) : Alike E A' s t :=
  ⟨h.same, h.related, fun a ha => h.writable a (hSub ha)⟩

namespace Keeps

theorem pure {r : α} (hSub : B r ⊆ A) : Keeps E A (Pure.pure r) B :=
  Coupled.pure fun _ _ h => h.subset hSub

theorem bind {x : BtreeM κ α} {f : α → BtreeM κ β} {C : β → List FAU} (hx : Keeps E A x B)
    (hf : ∀ r, Keeps E (B r) (f r) C) : Keeps E A (x >>= f) C := Coupled.bind hx hf

theorem get {f : Btree κ → BtreeM κ α}
    (hSame : ∀ h a a' b b' file file', f ⟨h, a, b, file⟩ = f ⟨h, a', b', file'⟩)
    (hf : ∀ s, Keeps E A (f s) B) : Keeps E A (MonadState.get >>= f) B := by
  refine Coupled.get (fun s t h => ?_) hf
  obtain ⟨hdr, a, b, file⟩ := s
  obtain ⟨hdr', a', b', file'⟩ := t
  obtain rfl : hdr = hdr' := h.same.header
  exact hSame _ _ _ _ _ _ _

theorem ite {c : Prop} [Decidable c] {x y : BtreeM κ α} (hx : Keeps E A x B) (hy : Keeps E A y B) :
    Keeps E A (if c then x else y) B := Coupled.ite hx hy

theorem subset {x : BtreeM κ α} (hx : Keeps E A' x B) (hSub : A' ⊆ A) : Keeps E A x B :=
  Coupled.weaken hx fun _ _ h => h.subset hSub

theorem mono {x : BtreeM κ α} {B' : α → List FAU} (hx : Keeps E A x B) (hSub : ∀ r, B' r ⊆ B r) :
    Keeps E A x B' := Coupled.mono hx fun r _ _ h => h.subset (hSub r)

theorem fail (e : DatabaseError) : Keeps E A (DataReel.fail e) B :=
  Coupled.throw fun _ _ h => h.subset (List.nil_subset _)

theorem access (o : Option α) : Keeps E A (access (κ := κ) o) fun _ => A := by
  cases o with
  | none => exact Coupled.throw fun _ _ h => h.subset (List.nil_subset _)
  | some r => exact pure (List.Subset.refl _)

theorem readNode (a : FAU) : Keeps E A (readNode a) fun _ => a :: A := by
  intro s t h
  rw [DataReel.readNode, DataReel.readNode, h.same.node, h.same.order]
  cases hn : t.f.node a with
  | none => exact .error (h.subset (List.nil_subset _))
  | some n =>
    dsimp only
    split
    · exact .error (h.subset (List.nil_subset _))
    · refine .ok ⟨h.same, h.related, ?_⟩
      rintro b (_ | ⟨_, hb⟩)
      · exact .inl (by rw [h.same.node, hn]; rfl)
      · exact h.writable b hb

end Keeps

section Operations

variable (hE : StableUpdate E)

include hE

theorem writeNode_keeps {a : FAU} (ha : a ∈ A) (n : BtreeNode κ) :
    Keeps E A (writeNode n a) fun _ => A := by
  intro s t h
  refine .ok ⟨h.same.setNode a n, hE.setNode h.same h.related (h.writable a ha), fun b hb => ?_⟩
  exact (h.writable b hb).setNode a n

theorem modify_keeps {g : BtreeHeader → BtreeHeader}
    (hg : ∀ h, (g h).nodeOrder = h.nodeOrder ∧ (g h).keySize = h.keySize ∧
      (g h).numTrees = h.numTrees) :
    Keeps E A (modify fun t : Btree κ => t.setHeader (g t.header)) fun _ => A := by
  refine Coupled.update fun s t h => ?_
  rw [← h.same.header]
  obtain ⟨hOrder, hSize, hTrees⟩ := hg s.header
  exact ⟨h.same.setHeader _, hE.setHeader h.same h.related hOrder hSize hTrees, h.writable⟩

theorem addKeys_keeps (d : Int) : Keeps E A (addKeys (κ := κ) d) fun _ => A :=
  modify_keeps hE (g := fun h => { h with nKeys := h.nKeys + d }) fun _ => ⟨rfl, rfl, rfl⟩

theorem addNodes_keeps (d : Int) : Keeps E A (addNodes (κ := κ) d) fun _ => A :=
  modify_keeps hE (g := fun h => { h with nNodes := h.nNodes + d }) fun _ => ⟨rfl, rfl, rfl⟩

theorem Btree.Alike.removed {s t : Btree κ} (h : Alike E A s t) {a : FAU}
    (hRemove : (s.f.remove a).1 = true) : Alike E A (s.removed a) (t.removed a) :=
  ⟨h.same.removed, hE.remove h.same h.related hRemove, fun b hb => (h.writable b hb).removed a⟩

theorem removeNode_keeps (a : FAU) {rest : BtreeM κ Unit} (hRest : Keeps E A rest fun _ => A) :
    Keeps E A (removeNode a rest) fun _ => A := by
  intro s t h
  rw [removeNode, removeNode, ← h.same.remove, ← h.same.node]
  split
  · rename_i hRemove
    exact hRest _ _ (h.removed hE hRemove)
  · split
    · exact .ok h
    · exact .error (h.subset (List.nil_subset _))

theorem collapseRootNode_keeps (n : BtreeNode κ) : Keeps E A (collapseRootNode n) fun _ => A := by
  refine .get (fun _ _ _ _ _ _ _ => rfl) fun t => ?_
  refine .ite (.bind (modify_keeps hE (g := fun h => { h with
    root := n.leftChild
    nNodes := h.nNodes - 1
    btreeHeight := h.btreeHeight - 1 }) fun _ => ⟨rfl, rfl, rfl⟩) fun _ => ?_) ?_
  · exact removeNode_keeps hE _ (.pure (List.Subset.refl _))
  · exact .pure (List.Subset.refl _)

theorem collapseRoot_keeps : Keeps E A (collapseRoot (κ := κ)) fun _ => A := by
  refine .get (fun _ _ _ _ _ _ _ => rfl) fun t => ?_
  refine .bind (.readNode _) fun n => ?_
  exact (collapseRootNode_keeps hE n).subset (List.subset_cons_self _ _)

/-! ## Deletion -/

theorem rotation_keeps (rotate : Nat → FAU → Int → BtreeNode κ → BtreeNode κ → BtreeNode κ →
      Option (BtreeNode κ × BtreeNode κ × BtreeNode κ)) {a : FAU} (ha : a ∈ A) (parent : BtreeNode κ)
    (loc : Int) : Keeps E A (rotation rotate a parent loc) fun _ => A := by
  refine .get (fun _ _ _ _ _ _ _ => rfl) fun t => ?_
  refine .bind (.access _) fun rightChild => .bind (.access _) fun leftChild => ?_
  refine .bind (.readNode _) fun right => .bind (.readNode _) fun left => ?_
  refine .bind (.access _) fun ⟨parent, right, left⟩ => ?_
  refine .bind (writeNode_keeps hE ?_ _) fun _ => ?_
  · exact List.mem_cons_of_mem _ (List.mem_cons_of_mem _ ha)
  · refine .bind (writeNode_keeps hE (List.mem_cons_of_mem _ List.mem_cons_self) _) fun _ => ?_
    refine .bind (writeNode_keeps hE List.mem_cons_self _) fun _ => .pure fun b hb => ?_
    exact List.mem_cons_of_mem _ (List.mem_cons_of_mem _ hb)

theorem merge_keeps {a : FAU} (ha : a ∈ A) (parent : BtreeNode κ) (loc : Int) :
    Keeps E A (merge a parent loc) fun _ => A := by
  refine .get (fun _ _ _ _ _ _ _ => rfl) fun t => ?_
  refine .bind (.access _) fun rightChild => .bind (.access _) fun leftChild => ?_
  refine .bind (.readNode _) fun right => .bind (.readNode _) fun left => ?_
  refine .bind (.access _) fun ⟨parent, left⟩ => ?_
  refine .bind (removeNode_keeps hE _ (.bind (addNodes_keeps hE (-1)) fun _ => ?_)) fun _ =>
    .pure fun b hb => ?_
  · refine .bind (writeNode_keeps hE ?_ _) fun _ => writeNode_keeps hE List.mem_cons_self _
    exact List.mem_cons_of_mem _ (List.mem_cons_of_mem _ ha)
  · exact List.mem_cons_of_mem _ (List.mem_cons_of_mem _ hb)

theorem insertBalance_keeps {a : FAU} (ha : a ∈ A) (parent : BtreeNode κ) (loc : Int) :
    Keeps E A (insertBalance a parent loc) fun _ => A := by
  have hRotation (rotate) (b : FAU) (loc : Int) :
      Keeps E (b :: A) (rotation rotate a parent loc) fun _ => A :=
    (rotation_keeps hE rotate (List.mem_cons_of_mem _ ha) parent loc).mono fun _ =>
      List.subset_cons_self _ _
  have hMerge (b : FAU) (loc : Int) : Keeps E (b :: A) (merge a parent loc) fun _ => A :=
    (merge_keeps hE (List.mem_cons_of_mem _ ha) parent loc).mono fun _ => List.subset_cons_self _ _
  refine .get (fun _ _ _ _ _ _ _ => rfl) fun t => ?_
  refine .ite ?_ (.ite ?_ ?_)
  · refine .bind (.access _) fun rightChild => .bind (.readNode _) fun right => ?_
    exact .ite (hRotation rotateLeft _ _) (hMerge _ _)
  · refine .bind (.access _) fun leftChild => .bind (.readNode _) fun left => ?_
    exact .ite (hRotation rotateRight _ _) (hMerge _ _)
  · refine .bind (.access _) fun leftChild => .bind (.readNode _) fun left => ?_
    refine .ite (hRotation rotateRight _ _) (.bind (.access _) fun rightChild => ?_)
    refine .bind (.readNode _) fun right => ?_
    refine .ite ((hRotation rotateLeft rightChild _).subset ?_) ((hMerge rightChild _).subset ?_)
    all_goals exact List.cons_subset_cons _ (List.subset_cons_self _ _)

theorem balanceLoop_keeps (K : KeyClass κ) (key : κ) (stack : List FAU) :
    Keeps E A (balanceLoop K key stack) fun _ => A := by
  induction stack with
  | nil => exact .pure (List.Subset.refl _)
  | cons a stack ih =>
    refine .bind (.readNode a) fun parent => ?_
    refine .bind (insertBalance_keeps hE List.mem_cons_self _ _) fun parent => ?_
    refine .get (fun _ _ _ _ _ _ _ => rfl) fun t => ?_
    exact .ite (ih.subset (List.subset_cons_self _ _)) (.pure (List.subset_cons_self _ _))

theorem finishDelete_keeps (K : KeyClass κ) (key : DatabaseKey κ) (a : FAU) (leaf : BtreeNode κ)
    (stack : List FAU) : Keeps E A (finishDelete K key a leaf stack) fun _ => A := by
  refine .get (fun _ _ _ _ _ _ _ => rfl) fun t => ?_
  refine .ite (.bind (balanceLoop_keeps hE K _ stack) fun _ => ?_) ?_
  all_goals exact .bind (collapseRoot_keeps hE) fun _ => .pure (List.Subset.refl _)

omit hE in
theorem deleteWalk_keeps (K : KeyClass κ) (key : κ) (reads : Nat) (a : FAU) (stack : List FAU) :
    Keeps E A (deleteWalk K key reads a stack) fun r => r.1 :: A := by
  induction reads generalizing a stack A with
  | zero => exact .ite (.fail _) (.fail _)
  | succ reads ih =>
    refine .ite (.fail _) (.bind (.readNode a) fun curr => ?_)
    refine .ite (.pure (List.Subset.refl _)) (.bind (.access _) fun next => ?_)
    refine ((ih next (a :: stack)).subset ?_)
    exact List.subset_cons_self _ _

omit hE in
theorem leftmost_keeps (reads : Nat) (a : FAU) (stack : List FAU) :
    Keeps E A (leftmost (κ := κ) reads a stack) fun r => r.1 :: A := by
  induction reads generalizing a stack with
  | zero => exact .fail _
  | succ reads ih =>
    refine .bind (.readNode a) fun n => .ite (.pure (List.Subset.refl _)) ?_
    exact (ih _ _).subset (List.subset_cons_self _ _)

theorem deleteFromLeaf_keeps (key : DatabaseKey κ) {a : FAU} (ha : a ∈ A) (curr : BtreeNode κ)
    (loc : Int) (stack : List FAU) : Keeps E A (deleteFromLeaf key a curr loc stack) fun _ => A := by
  refine .bind (.access _) fun curr => .bind (writeNode_keeps hE ha _) fun _ => ?_
  exact .bind (addKeys_keeps hE (-1)) fun _ => .pure (List.Subset.refl _)

theorem deleteFromParent_keeps {a : FAU} (ha : a ∈ A) (curr : BtreeNode κ) (loc : Int)
    (siblingAddress : FAU) (stack : List FAU) (reads : Nat) :
    Keeps E A (deleteFromParent a curr loc siblingAddress stack reads) fun _ => A := by
  refine .bind (.access _) fun compareKey => ?_
  refine .bind (leftmost_keeps _ _ _) fun ⟨siblingAddress, sibling, stack, _⟩ => ?_
  refine .bind (.access _) fun promoted => .bind (.access _) fun sibling => ?_
  refine .bind (.access _) fun curr => ?_
  refine .bind (writeNode_keeps hE (List.mem_cons_of_mem _ ha) _) fun _ => ?_
  refine .bind (writeNode_keeps hE List.mem_cons_self _) fun _ => ?_
  exact .bind (addKeys_keeps hE (-1)) fun _ => .pure (List.subset_cons_self _ _)

theorem deleteDatabaseKey_keeps (K : KeyClass κ) (key : DatabaseKey κ) :
    Keeps E [] (deleteDatabaseKey K key) fun _ => [] := by
  refine .get (fun _ _ _ _ _ _ _ => rfl) fun t => ?_
  refine .bind (deleteWalk_keeps K _ _ _ _) fun ⟨a, curr, loc, stack, reads⟩ => ?_
  refine .bind (.access _) fun siblingAddress => ?_
  have hFinish (r : DatabaseKey κ × FAU × BtreeNode κ × List FAU) :
      Keeps E [a] (finishDelete K r.1 r.2.1 r.2.2.1 r.2.2.2) fun _ => [] :=
    (finishDelete_keeps hE K r.1 r.2.1 r.2.2.1 r.2.2.2).mono fun _ => List.nil_subset _
  refine .ite (.bind ?_ hFinish) (.bind ?_ hFinish)
  · exact deleteFromParent_keeps hE List.mem_cons_self curr loc siblingAddress stack reads
  · exact deleteFromLeaf_keeps hE _ List.mem_cons_self curr loc stack

/-! ## Unbalanced deletion -/

omit hE in
theorem findWalk_keeps (K : KeyClass κ) (key : κ) (reads : Nat) (a : FAU) :
    Keeps E A (findWalk K key reads a) fun r => r.1 :: A := by
  induction reads generalizing a with
  | zero => exact .ite (.fail _) (.fail _)
  | succ reads ih =>
    refine .ite (.fail _) (.bind (.readNode a) fun curr => ?_)
    refine .ite (.pure (List.Subset.refl _)) (.bind (.access _) fun next => ?_)
    exact (ih next).subset (List.subset_cons_self _ _)

/-- The sibling that was found may be written. -/
def SiblingSearch.address : SiblingSearch κ → List FAU
  | .found a _ => [a]
  | .allRemoved | .stopped => []

theorem removeSibling_keeps (a : FAU) {next : BtreeM κ (SiblingSearch κ)}
    (hNext : Keeps E A next fun r => r.address ++ A) :
    Keeps E A (removeSibling a next) fun r => r.address ++ A := by
  intro s t h
  rw [removeSibling, removeSibling, ← h.same.remove, ← h.same.node]
  split
  · rename_i hRemove
    exact Keeps.bind (addNodes_keeps hE (-1)) (fun _ => hNext) _ _ (h.removed hE hRemove)
  · split
    · exact .ok h
    · exact .error (h.subset (List.nil_subset _))

theorem removeEmptySiblings_keeps (stack : List FAU) (reads : Nat) :
    Keeps E A (removeEmptySiblings (κ := κ) stack reads) fun r => r.address ++ A := by
  induction stack generalizing reads with
  | nil => exact .pure (List.Subset.refl _)
  | cons a stack ih =>
    cases reads with
    | zero => exact .fail _
    | succ reads =>
      refine .bind (.readNode a) fun sibling => .ite ?_ (.pure (List.Subset.refl _))
      exact (removeSibling_keeps hE a (ih reads)).subset (List.subset_cons_self _ _)

theorem promoteFirst_keeps {a siblingAddress : FAU} (ha : a ∈ A) (hSibling : siblingAddress ∈ A)
    (parent : BtreeNode κ) (loc : Int) (sibling : BtreeNode κ) :
    Keeps E A (promoteFirst a parent loc siblingAddress sibling) fun _ => A := by
  refine .bind (.access _) fun compareKey => .bind (.access _) fun promoted => ?_
  refine .bind (.access _) fun sibling => .bind (.access _) fun parent => ?_
  refine .bind (writeNode_keeps hE ha _) fun _ => .bind (writeNode_keeps hE hSibling _) fun _ => ?_
  exact .bind (addKeys_keeps hE (-1)) fun _ => .pure (List.Subset.refl _)

theorem dropKey_keeps {a : FAU} (ha : a ∈ A) (parent : BtreeNode κ) (loc : Int) :
    Keeps E A (dropKey a parent loc) fun _ => A := by
  refine .get (fun _ _ _ _ _ _ _ => rfl) fun t => ?_
  refine .bind (.access _) fun parent => .bind (writeNode_keeps hE ha _) fun _ => ?_
  refine .bind (addKeys_keeps hE (-1)) fun _ => ?_
  exact .ite (collapseRootNode_keeps hE parent) (.pure (List.Subset.refl _))

theorem fastDeleteFromLeaf_keeps {a : FAU} (ha : a ∈ A) (parent : BtreeNode κ) (loc : Int) :
    Keeps E A (fastDeleteFromLeaf a parent loc) fun _ => A := by
  refine .bind (.access _) fun parent => .bind (writeNode_keeps hE ha _) fun _ => ?_
  exact .bind (addKeys_keeps hE (-1)) fun _ => collapseRoot_keeps hE

theorem fastDeleteFromParent_keeps (key : DatabaseKey κ) {a leafAddress : FAU} (ha : a ∈ A)
    (hLeaf : leafAddress ∈ A) (parent : BtreeNode κ) (loc : Int) (leaf : BtreeNode κ)
    (stack : List FAU) (reads : Nat) :
    Keeps E A (fastDeleteFromParent key a parent loc leafAddress leaf stack reads) fun _ => A := by
  refine .ite (.bind (removeSibling_keeps hE _ (removeEmptySiblings_keeps hE stack reads)) ?_) ?_
  · rintro (⟨siblingAddress, sibling⟩ | _ | _)
    · exact (promoteFirst_keeps hE (List.mem_cons_of_mem _ ha) List.mem_cons_self parent loc
        sibling).mono fun _ => List.subset_cons_self _ _
    · exact .bind (dropKey_keeps hE ha parent loc) fun _ => .pure (List.Subset.refl _)
    · exact .pure (List.Subset.refl _)
  · exact promoteFirst_keeps hE ha hLeaf parent loc leaf

theorem fastDeleteDatabaseKey_keeps (K : KeyClass κ) (key : DatabaseKey κ) :
    Keeps E [] (fastDeleteDatabaseKey K key) fun _ => [] := by
  refine .get (fun _ _ _ _ _ _ _ => rfl) fun t => ?_
  refine .bind (findWalk_keeps K _ _ _) fun ⟨a, parent, loc, reads⟩ => ?_
  refine .bind (.access _) fun siblingAddress => .ite ?_ ?_
  · exact .bind (fastDeleteFromLeaf_keeps hE List.mem_cons_self parent loc) fun _ =>
      .pure (List.nil_subset _)
  · refine .bind (leftmost_keeps _ _ _) fun ⟨leafAddress, leaf, stack, reads⟩ => ?_
    refine (fastDeleteFromParent_keeps hE _ ?_ List.mem_cons_self _ _ _ _ _).mono fun _ =>
      List.nil_subset _
    exact List.mem_cons_of_mem _ List.mem_cons_self

end Operations

section Insertion

/-! ## Insertion -/

theorem insertWalk_keeps (K : KeyClass κ) (key : κ) (reads : Nat) (a : FAU) (curr : BtreeNode κ)
    (loc : Int) (stack : List FAU) :
    Keeps E stack (insertWalk K key reads a curr loc stack) fun r => r.2.2.1 := by
  induction reads generalizing a curr loc stack with
  | zero => exact .ite (.pure (List.Subset.refl _)) (.fail _)
  | succ reads ih =>
    refine .ite (.pure (List.Subset.refl _)) (.bind (.readNode a) fun curr => ?_)
    refine .ite (.fail _) (.bind (.access _) fun next => ?_)
    exact ih next curr _ (a :: stack)

variable (hE : Stable E)

include hE

theorem allocNode_keeps : Keeps E A (allocNode (κ := κ)) fun r => r :: A := by
  intro s t h
  rw [allocNode_run, allocNode_run, ← h.same.alloc]
  refine .ok ⟨h.same.allocated, hE.alloc h.same h.related, ?_⟩
  rintro b (_ | ⟨_, hb⟩)
  · exact h.same.writable_alloc
  · exact (h.writable b hb).allocated

theorem growNewRoot_keeps (key : DatabaseKey κ) : Keeps E A (growNewRoot key) fun _ => A := by
  refine .get (fun _ _ _ _ _ _ _ => rfl) fun t => ?_
  refine .bind (allocNode_keeps hE) fun a => ?_
  refine .bind (modify_keeps hE.toStableUpdate (g := fun h => { h with
    nNodes := h.nNodes + 1
    btreeHeight := h.btreeHeight + 1
    root := a }) fun _ => ⟨rfl, rfl, rfl⟩) fun _ => ?_
  refine .bind (.access _) fun n => ?_
  exact (writeNode_keeps hE.toStableUpdate List.mem_cons_self n).mono fun _ => List.subset_cons_self _ _

theorem insertLoop_keeps (K : KeyClass κ) (stack : List FAU) (numSplits : Nat) (key : DatabaseKey κ)
    (curr : BtreeNode κ) (loc : Int) (reads : Nat) :
    Keeps E stack (insertLoop K stack numSplits key curr loc reads) fun _ => [] := by
  induction stack generalizing numSplits key curr loc reads with
  | nil => exact .fail _
  | cons a stack ih =>
    refine .bind (B := fun _ => a :: stack) ?_ fun ⟨curr, loc, reads⟩ => ?_
    · refine .ite ?_ (.pure (List.Subset.refl _))
      cases reads with
      | zero => exact .fail _
      | succ reads =>
        refine .bind (.readNode a) fun curr => .pure (List.subset_cons_self _ _)
    · refine .get (fun _ _ _ _ _ _ _ => rfl) fun t => ?_
      refine .ite (.bind (allocNode_keeps hE) fun right => ?_) (.bind (.access _) fun curr => ?_)
      · refine .ite (.fail _) (.bind (addNodes_keeps hE.toStableUpdate 1) fun _ => ?_)
        refine .bind (.access _) fun ⟨curr, rightNode, middle⟩ => ?_
        refine .bind (writeNode_keeps hE.toStableUpdate List.mem_cons_self _) fun _ => ?_
        refine .bind (writeNode_keeps hE.toStableUpdate (List.mem_cons_of_mem _ List.mem_cons_self) _) fun _ => ?_
        refine .ite (.bind (growNewRoot_keeps hE _) fun _ => ?_) ?_
        · exact .bind (addKeys_keeps hE.toStableUpdate 1) fun _ => .pure (List.nil_subset _)
        · refine (ih _ _ _ _ _).subset fun b hb => ?_
          exact List.mem_cons_of_mem _ (List.mem_cons_of_mem _ hb)
      · refine .bind (writeNode_keeps hE.toStableUpdate List.mem_cons_self _) fun _ => ?_
        exact .bind (addKeys_keeps hE.toStableUpdate 1) fun _ => .pure (List.nil_subset _)

theorem insertDatabaseKey_keeps (K : KeyClass κ) (key : DatabaseKey κ) :
    Keeps E [] (insertDatabaseKey K key) fun _ => [] := by
  refine .get (fun _ _ _ _ _ _ _ => rfl) fun t => ?_
  refine .bind (insertWalk_keeps K _ _ _ _ _ []) fun ⟨curr, loc, stack, reads⟩ => ?_
  exact insertLoop_keeps hE K stack _ _ _ _ _

end Insertion

/-! ## Searches -/

section Searches

/-- The reply of a search leaves no node to be written. -/
abbrev Finds (E : Btree κ → Btree κ → Prop) (A : List FAU) (x : BtreeM κ (DatabaseKey κ × CurrNode κ)) :
    Prop := Keeps E A x fun _ => []

theorem find_keeps (K : KeyClass κ) (key : κ) (curr : CurrNode κ) : Finds E A (find K key curr) := by
  refine .get (fun _ _ _ _ _ _ _ => rfl) fun t => .ite ?_ ?_
  · exact .bind (.access _) fun loaded => .pure (List.nil_subset _)
  · refine .bind (findWalk_keeps K _ _ _) fun ⟨a, node, loc, _⟩ => ?_
    exact .bind (.access _) fun loaded => .pure (List.nil_subset _)

theorem loadLeftmost_keeps (reads : Nat) (a : FAU) : Finds E A (loadLeftmost (κ := κ) reads a) := by
  refine .bind (leftmost_keeps _ _ _) fun ⟨a, node, _, _⟩ => .ite (.fail _) ?_
  exact .bind (.access _) fun loaded => .pure (List.nil_subset _)

theorem findFirst_keeps : Finds E A (findFirst (κ := κ)) := by
  refine .get (fun _ _ _ _ _ _ _ => rfl) fun t => .ite (.fail _) ?_
  exact loadLeftmost_keeps _ _

theorem rightmost_keeps (reads : Nat) (a : FAU) :
    Keeps E A (rightmost (κ := κ) reads a) fun _ => [] := by
  induction reads generalizing a A with
  | zero => exact .fail _
  | succ reads ih =>
    refine .bind (.readNode a) fun node => .bind (.access _) fun branch => ?_
    exact .ite (.pure (List.nil_subset _)) (ih branch)

theorem findLast_keeps : Finds E A (findLast (κ := κ)) := by
  refine .get (fun _ _ _ _ _ _ _ => rfl) fun t => .ite (.fail _) ?_
  refine .bind (rightmost_keeps _ _) fun curr => .ite (.fail _) ?_
  exact .bind (.access _) fun loaded => .pure (List.nil_subset _)

theorem nextOf_keeps (reads : Nat) (curr : CurrNode κ) (loc : Int) (parent : FAU) (savLocation : Int) :
    Finds E A (nextOf reads curr loc parent savLocation) := by
  refine .bind (.access _) fun branch => .ite (loadLeftmost_keeps _ _) (.ite ?_ (.ite (.fail _) ?_))
  · exact .bind (.access _) fun loaded => .pure (List.nil_subset _)
  · cases reads with
    | zero => exact .fail _
    | succ reads =>
      refine .bind (.readNode parent) fun node => .ite (.fail _) (.ite (.fail _) ?_)
      exact .bind (.access _) fun loaded => .pure (List.nil_subset _)

theorem nextWalk_keeps (K : KeyClass κ) (key : κ) (reads : Nat) (a parent : FAU) (savLocation : Int) :
    Finds E A (nextWalk K key reads a parent savLocation) := by
  induction reads generalizing a parent savLocation A with
  | zero => exact .ite (.fail _) (.fail _)
  | succ reads ih =>
    refine .ite (.fail _) (.bind (.readNode a) fun curr => .ite (nextOf_keeps _ _ _ _ _) ?_)
    exact .bind (.access _) fun next => .ite (ih _ _ _) (ih _ _ _)

theorem findNext_keeps (K : KeyClass κ) (key : κ) (curr : CurrNode κ) :
    Finds E A (findNext K key curr) := by
  refine .get (fun _ _ _ _ _ _ _ => rfl) fun t => .ite (.bind (.access _) fun branch => ?_) ?_
  · refine .ite (loadLeftmost_keeps _ _) (.ite ?_ (nextWalk_keeps K _ _ _ _ _))
    exact .bind (.access _) fun loaded => .pure (List.nil_subset _)
  · exact nextWalk_keeps K _ _ _ _ _

theorem loadRightmost_keeps (reads : Nat) (curr : CurrNode κ) (loc : Int) :
    Finds E A (loadRightmost reads curr loc) := by
  refine .bind (.access _) fun branch => .ite ?_ (.bind (rightmost_keeps _ _) fun curr => ?_)
  all_goals exact .bind (.access _) fun loaded => .pure (List.nil_subset _)

theorem prevOf_keeps (reads : Nat) (curr : CurrNode κ) (loc : Int) (parent : Option (BtreeNode κ))
    (savLocation : Int) : Finds E A (prevOf reads curr loc parent savLocation) := by
  refine .ite (loadRightmost_keeps _ _ _) (.ite (loadRightmost_keeps _ _ _) ?_)
  cases parent with
  | none => exact .fail _
  | some node => exact .bind (.access _) fun loaded => .pure (List.nil_subset _)

theorem prevWalk_keeps (K : KeyClass κ) (key : κ) (reads : Nat) (a : FAU)
    (parent : Option (BtreeNode κ)) (savLocation : Int) :
    Finds E A (prevWalk K key reads a parent savLocation) := by
  induction reads using Nat.strongRecOn generalizing a parent savLocation A with
  | _ reads ih =>
    cases reads with
    | zero => exact .ite (.fail _) (.fail _)
    | succ reads =>
      rw [prevWalk]
      refine .ite (.fail _) (.bind (.readNode a) fun curr => .ite (prevOf_keeps _ _ _ _ _) (.ite ?_ ?_))
      · cases reads with
        | zero => exact .fail _
        | succ reads =>
          refine .bind (.readNode a) fun node => .bind (.access _) fun next => ?_
          exact ih reads (by omega) _ _ _
      · exact .bind (.access _) fun next => ih reads (by omega) _ _ _

theorem findPrev_keeps (K : KeyClass κ) (key : κ) (curr : CurrNode κ) :
    Finds E A (findPrev K key curr) := by
  refine .get (fun _ _ _ _ _ _ _ => rfl) fun t => .ite (prevOf_keeps _ _ _ _ _) ?_
  exact prevWalk_keeps K _ _ _ _ _

theorem partialFind_keeps (K : KeyClass κ) (key : κ) : Finds E A (partialFind K key) := by
  have hWalk (reads : Nat) (a : FAU) (curr : CurrNode κ) (loc : Int) (parent : FAU)
      (savLocation : Int) : Finds E A (partialWalk K key reads a curr loc parent savLocation) := by
    induction reads generalizing a curr loc parent savLocation A with
    | zero => exact .ite (nextOf_keeps _ _ _ _ _) (.fail _)
    | succ reads ih =>
      refine .ite (nextOf_keeps _ _ _ _ _) (.bind (.readNode a) fun curr => .ite ?_ ?_)
      · exact .bind (.access _) fun loaded => .pure (List.nil_subset _)
      · exact .bind (.access _) fun next => .ite (ih _ _ _ _ _) (ih _ _ _ _ _)
  exact .get (fun _ _ _ _ _ _ _ => rfl) fun t => hWalk _ _ _ _ _ _

end Searches

/-! ## The calls -/

section Calls

variable {s t : Btree κ}

theorem Keeps.reply {x : BtreeM κ α} (hx : Keeps E A x B) (h : Alike E A s t) (one : α → Reply κ) :
    (reply one (x s)).1 = (reply one (x t)).1 ∧
      Alike E [] (DataReel.reply one (x s)).2 (DataReel.reply one (x t)).2 := by
  have hEnds := hx s t h
  generalize x s = r at hEnds
  generalize x t = r' at hEnds
  cases hEnds with
  | ok h => exact ⟨rfl, h.subset (List.nil_subset _)⟩
  | @error e _ _ h => cases e <;> exact ⟨rfl, h⟩

/-- The states after a call, which may have written the header of the tree. -/
def AfterCall (E : Btree κ → Btree κ → Prop) (s t : Btree κ) : Prop :=
  Alike E [] s t ∨ ∃ s' t', Alike E [] s' t' ∧ s = s'.flush ∧ t = t'.flush

theorem Keeps.updated {x : BtreeM κ (DatabaseKey κ)} (hx : Keeps E [] x fun _ => [])
    (h : Alike E [] s t) (flushdb : Bool) :
    (updated flushdb x s).1 = (updated flushdb x t).1 ∧
      AfterCall E (DataReel.updated flushdb x s).2 (DataReel.updated flushdb x t).2 := by
  have hEnds := hx s t h
  generalize hs : x s = r at hEnds
  generalize ht : x t = r' at hEnds
  cases hEnds with
  | ok h =>
    rw [updated_ok hs, updated_ok ht]
    cases flushdb with
    | true => exact ⟨rfl, .inr ⟨_, _, h, rfl, rfl⟩⟩
    | false => exact ⟨rfl, .inl h⟩
  | @error e _ _ h =>
    cases e with
    | error e =>
      rw [updated_error hs, updated_error ht]
      exact ⟨rfl, .inl h⟩
    | badEntry =>
      rw [updated_undefined hs, updated_undefined ht]
      exact ⟨rfl, .inl h⟩

theorem Keeps.searched {x : BtreeM κ (DatabaseKey κ × CurrNode κ)} (hx : Finds E [] x)
    (h : Alike E [] s t) :
    (searched x s).1 = (searched x t).1 ∧
      Alike E [] (DataReel.searched x s).2 (DataReel.searched x t).2 := hx.reply h _

theorem call_keeps (K : KeyClass κ) (hE : Stable E) (c : Call κ) (h : Alike E [] s t) :
    ((gxBtree K).step c s).1 = ((gxBtree K).step c t).1 ∧
      AfterCall E ((gxBtree K).step c s).2 ((gxBtree K).step c t).2 := by
  have hSearch {x : BtreeM κ (DatabaseKey κ × CurrNode κ)} (hx : Finds E [] x) :
      (searched x s).1 = (searched x t).1 ∧ AfterCall E (searched x s).2 (searched x t).2 :=
    (hx.searched h).imp id .inl
  cases c with
  | insert key flushdb => exact (insertDatabaseKey_keeps hE K key).updated h flushdb
  | delete key flushdb => exact (deleteDatabaseKey_keeps hE.toStableUpdate K key).updated h flushdb
  | fastDelete key flushdb => exact (fastDeleteDatabaseKey_keeps hE.toStableUpdate K key).updated h flushdb
  | find key => exact hSearch (find_keeps K key _)
  | findFirst => exact hSearch findFirst_keeps
  | findLast => exact hSearch findLast_keeps
  | findNext key => exact hSearch (findNext_keeps K key _)
  | findPrev key => exact hSearch (findPrev_keeps K key _)

end Calls

end DataReel
