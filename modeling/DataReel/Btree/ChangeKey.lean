import DataReel.Btree.Enumerate

/-! # Changing a key in place

`ChangeKey` writes the whole entry, with the child link that the caller's key
object holds. The tree stays as it was exactly if that link is the one the
entry had.
-/

namespace DataReel

open BtreeNode

variable {κ : Type} {O : OtherTrees κ} {K : KeyClass κ} {lo : Nat}

def Frame.overwritten (f : Frame κ) (e : DatabaseKey κ) : BtreeNode κ :=
  ⟨f.leftChild, f.before ++ e :: f.after⟩

/-- The bytes of one key are replaced and nothing else changes: not in the file, not in what the
searches find. -/
structure KeyReplaced (K : KeyClass κ) (t : Btree κ) (f : Frame κ) (e : DatabaseKey κ) (newKey : κ)
    (t' : Btree κ) : Prop where
  header : t'.header = t.header
  file : t'.f = t.f.setNode f.address (f.overwritten ⟨e.rightChild, newKey⟩)
  keys : ∃ l r, t.keys = l ++ e.dbKey :: r ∧ t'.keys = l ++ newKey :: r
  nKeys : t'.header.nKeys = t'.keys.length
  find : ∀ key l x r, t'.keys = l ++ x :: r → K.comparison.eqv key x = true →
    ((gxBtree K).step (.find key) t').1 = .found x
  enumerates : Enumerates K t'

section Run

variable {t : Btree κ} {key : κ} {h : Nat} {f : Frame κ} {e : DatabaseKey κ} {path : List (Frame κ)}

theorem CurrNode.new_restart (K : KeyClass κ) (key : κ) :
    ¬ (0 < (CurrNode.new (κ := κ)).node.keyCount ∧
      ((CurrNode.new (κ := κ)).node.findKeyLocation K key).rv = 0) := by
  simp [CurrNode.new, BtreeNode.new, keyCount]

theorem changeKey_run (hK : K.StrictOrder) (hW : t.WellFormed O K.comparison lo)
    (hReads : t.height ≤ gxBtreeMaxNodeReads) (hE : t.EntryAt K.comparison key h f e path)
    (newKeyVals : DatabaseKey κ) :
    changeKey K key newKeyVals CurrNode.new t =
      .ok ⟨f.address, f.overwritten newKeyVals⟩ (t.setNode f.address (f.overwritten newKeyVals)) := by
  have hSelf := ((hE.hasEntry hW).entryAt hK.strict hW).hit
  have hFound := findKeyLocation_hit (c := f.leftChild) hK hSelf.before hSelf.equal hSelf.after
  rw [changeKey, Exec.bind_ok (find_entry hK hW hReads hE (CurrNode.new_restart K key))]
  simp only [hFound]
  rw [if_pos trivial, overWriteDatabaseKey_at, Exec.bind_ok (access_some _ _)]
  rfl

theorem changeKey_miss (hK : K.StrictOrder) (hReads : t.height ≤ gxBtreeMaxNodeReads)
    (hD : Descent K.comparison key t.f.node t.order t.height t.header.root [] 0 0 path)
    (newKeyVals : DatabaseKey κ) :
    changeKey K key newKeyVals CurrNode.new t = .error (.error .entryNotFound) t := by
  rw [changeKey, Exec.bind_error (find_miss hK hReads hD (CurrNode.new_restart K key))]

theorem Btree.WellFormed.replaceKey {C : Comparison κ} (hC : C.Strict) (hW : t.WellFormed O C lo)
    (hE : t.HasEntry C lo h f e path) {newKey : κ} (hEq : C.eqv newKey e.dbKey = true) :
    (t.setNode f.address (f.overwritten ⟨e.rightChild, newKey⟩)).WellFormed O C lo ∧
      (t.setNode f.address (f.overwritten ⟨e.rightChild, newKey⟩)).keys =
        f.keysLeft t.f.node h path ++ newKey :: f.keysRight t.f.node h e path := by
  obtain ⟨n, hn⟩ : ∃ n, n = f.overwritten ⟨e.rightChild, newKey⟩ := ⟨_, rfl⟩
  have hBranches : n.branches = branches ⟨f.leftChild, f.before ++ e :: f.after⟩ := by
    rw [hn]
    simp [Frame.overwritten, branches]
  have hCount : n.keyCount = keyCount ⟨f.leftChild, f.before ++ e :: f.after⟩ := by
    rw [hn]
    simp [Frame.overwritten, keyCount]
  have hInorder : keysBefore t.f.node (h + 1) path ++ n.inorder (keysFrom t.f.node h) ++
      keysAfter t.f.node (h + 1) path =
      f.keysLeft t.f.node h path ++ newKey :: f.keysRight t.f.node h e path := by
    rw [hn, Frame.overwritten, inorder_append, tailKeys_cons, Frame.keysLeft, Frame.keysRight,
      Frame.child]
    simp
  obtain ⟨m, hm, hTop, hMax, hB⟩ := hE.located.sub.at_node
  obtain rfl := Option.some.inj (hE.node.symm.trans hm)
  have hPerm := Btree.nodes_of_path hE.located.reach hE.height
  rw [nodesFrom_at hm, ← hBranches] at hPerm
  have hAround := KeySet.around hC (A := hW.keySet) hE.keys hEq
  have hSorted : C.Sorted (f.keysLeft t.f.node h path ++ newKey :: f.keysRight t.f.node h e path) := by
    refine Comparison.Sorted.put ?_ hAround.1 hAround.2
    exact (hE.keys ▸ hW.sorted).sublist
      (List.Sublist.append_left (List.sublist_cons_self _ _) _)
  have hHeight : t.header.btreeHeight = (path.length + (h + 1) : Nat) := by
    rw [hE.height, hW.height_eq]
  have hLength := congrArg List.length hE.keys
  have hNew : Written O C lo (topKeys lo (h + 1) path) t h f.address n path
      ((t.setNode f.address n).addKeys 0) := by
    refine written hW.order hHeight hE.located.reach hE.located.sub.nonzero ?_ ?_ ?_ ?_ ?_ ?_ ?_
    · rwa [hBranches]
    · rwa [hCount]
    · rwa [hCount]
    · rwa [hInorder]
    · exact hW.blocks.perm (hPerm.trans List.perm_append_comm)
    · rw [hInorder, hW.nKeys, hLength]
      simp
    · rw [hW.nNodes, (hPerm.trans List.perm_append_comm).length_eq]
  have hKeys := hNew.keys
  have hWell := hNew.placed.wellFormed (by omega)
  have hSame : (t.setNode f.address n).addKeys 0 =
      { t.setNode f.address n with headerInSync := false } := by
    simp [Btree.addKeys, Btree.setHeader]
  rw [hSame] at hWell hKeys
  rw [← hn]
  exact ⟨⟨hWell.order, hWell.height_pos, hWell.subtree, hWell.sorted, hWell.blocks, hWell.nKeys,
    hWell.nNodes⟩, hKeys.trans hInorder⟩

end Run

/-- Overwriting a key leaves the rest of the tree alone exactly if the caller's key object holds the
child link of the entry. -/
theorem changeKey_replaces_iff (hK : K.StrictOrder) {t : Btree κ}
    (hT : Reachable K (BalancedUpdate K) t) (key : κ) (newKeyVals : DatabaseKey κ) :
    changeKey K key newKeyVals CurrNode.new t = .error (.error .entryNotFound) t ∨
    ∃ h f e path curr t', t.EntryAt K.comparison key h f e path ∧
      changeKey K key newKeyVals CurrNode.new t = .ok curr t' ∧
      (K.comparison.eqv newKeyVals.dbKey e.dbKey = true →
        (KeyReplaced K t f e newKeyVals.dbKey t' ↔ newKeyVals.rightChild = e.rightChild)) := by
  obtain ⟨O, hW, -⟩ := hT.balanced hK
  have hReads : t.height ≤ gxBtreeMaxNodeReads := by
    have hTwice := hW.reads_le
    omega
  rcases hW.search hK.strict key with ⟨h, f, e, path, hE⟩ | ⟨path, hD, -, -⟩
  · refine .inr ⟨h, f, e, path, _, _, hE, changeKey_run hK hW hReads hE newKeyVals, fun hEq => ?_⟩
    constructor
    · intro hReplaced
      have hNode := congrArg (fun g => g.node f.address) hReplaced.file
      simp only [setNode_node, Function.update_self, IndexFile.setNode_same, Frame.overwritten,
        Option.some.injEq, BtreeNode.mk.injEq, List.append_cancel_left_eq, List.cons.injEq] at hNode
      rw [hNode.2.1]
    · intro hChild
      obtain ⟨c, newKey⟩ := newKeyVals
      obtain rfl : c = e.rightChild := hChild
      have hEntry := hE.hasEntry hW
      obtain ⟨hNew, hKeys⟩ := hW.replaceKey hK.strict hEntry hEq
      have hR : Represents O K.comparison 1 _ hNew.keySet := ⟨hNew, rfl⟩
      refine ⟨rfl, rfl, ⟨_, _, hEntry.keys, hKeys⟩, hNew.nKeys, ?_, ?_⟩
      · intro k l x r hSplit hEqv
        have hRun := find_run k hK hNew hReads (CurrNode.live_new _ _)
        rw [KeySet.find_of_split hK.strict (A := hNew.keySet) hSplit hEqv] at hRun
        exact (search_agrees hR hRun).1
      · exact enumerates_of_ready hK hNew (ready_of_keys hNew) hNew.reads_le
  · exact .inl (changeKey_miss hK hReads hD newKeyVals)

theorem changeKey_replaces_iff_int :
    let t := ((gxBtree KeyClass.int).run [.insert ⟨0, 1⟩ false, .insert ⟨0, 2⟩ false]
      (intTree 5 none)).2
    changeKey KeyClass.int 2 ⟨0, 2⟩ CurrNode.new t = .error (.error .entryNotFound) t ∨
    ∃ h f e path curr t', t.EntryAt KeyClass.int.comparison 2 h f e path ∧
      changeKey KeyClass.int 2 ⟨0, 2⟩ CurrNode.new t = .ok curr t' ∧
      (KeyClass.int.comparison.eqv 2 e.dbKey = true →
        (KeyReplaced KeyClass.int t f e 2 t' ↔ 0 = e.rightChild)) := by
  intro t
  have hT : Reachable KeyClass.int (BalancedUpdate KeyClass.int) t :=
    (Reachable.created (by decide) create_intTree).run
      ⟨⟨trivial, by decide⟩, ⟨trivial, by decide⟩, trivial⟩
  exact changeKey_replaces_iff KeyClass.int_strictOrder hT 2 ⟨0, 2⟩

/-- A key object as its constructor leaves it cuts off the keys after a key of an inner node. -/
theorem changeKey_loses_keys_int :
    ∃ t, Reachable KeyClass.int (BalancedUpdate KeyClass.int) t ∧
      ((gxBtree KeyClass.int).step (.find 4) t).1 = .found 4 ∧
      ∃ curr t', changeKey KeyClass.int 3 ⟨0, 3⟩ CurrNode.new t = .ok curr t' ∧
        ((gxBtree KeyClass.int).step (.find 4) t').1 = .zero ∧
        t'.header.nKeys = 5 ∧ t'.keys = [1, 2, 3] := by
  refine ⟨((gxBtree KeyClass.int).run [.insert ⟨0, 1⟩ false, .insert ⟨0, 2⟩ false,
    .insert ⟨0, 3⟩ false, .insert ⟨0, 4⟩ false, .insert ⟨0, 5⟩ false] (intTree 5 none)).2,
    ?_, by decide, _, _, rfl, by decide, by decide, by decide⟩
  exact (Reachable.created (by decide) create_intTree).run
    ⟨⟨trivial, by decide⟩, ⟨trivial, by decide⟩, ⟨trivial, by decide⟩, ⟨trivial, by decide⟩,
      ⟨trivial, by decide⟩, trivial⟩

end DataReel
