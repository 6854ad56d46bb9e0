import DataReel.Btree.ChangeKey

/-! # Changing a key or adding it

`ChangeOrAddKey` overwrites the entry of a key that it finds, with the child link
that the new key object holds, and inserts the key that it has searched if there
is none, not the new one.
-/

namespace DataReel

open BtreeNode

variable {κ : Type} {O : OtherTrees κ} {K : KeyClass κ}

/-- `ChangeOrAddKey` without `test_tree`. -/
def changeOrAddKey (K : KeyClass κ) (key newKeyVals : DatabaseKey κ) (curr : CurrNode κ) :
    BtreeM κ Unit := fun t =>
  match find K key.dbKey curr t with
  | .error (.error _) t => (insertDatabaseKey K key >>= fun _ => pure ()) t
  | .error .badEntry t => .error .badEntry t
  | .ok (loaded, curr) t =>
    let found := curr.node.findKeyLocation K loaded.dbKey
    if found.rv = 0 then
      (do let node ← access (curr.node.overWriteDatabaseKey newKeyVals found.keyLocation)
          writeNode node curr.address : BtreeM κ Unit) t
    else fail .entryNotFound t

/-- A key is in the tree, in the place of the equal one or as another, and nothing else has changed: not
in what the searches find, and if there was an equal one not in the file beside its bytes. -/
structure KeyPut (K : KeyClass κ) (t : Btree κ) (key newKey : κ) (t' : Btree κ) : Prop where
  keys : ∃ l r, t'.keys = l ++ newKey :: r ∧
    (t.keys = l ++ r ∨ ∃ x, t.keys = l ++ x :: r ∧ K.comparison.eqv key x = true)
  nKeys : t'.header.nKeys = t'.keys.length
  find : ∀ k l x r, t'.keys = l ++ x :: r → K.comparison.eqv k x = true →
    ((gxBtree K).step (.find k) t').1 = .found x
  enumerates : Enumerates K t'
  shape : ∀ h f e path, t.EntryAt K.comparison key h f e path →
    t'.f = t.f.setNode f.address (f.overwritten ⟨e.rightChild, newKey⟩)

section Run

variable {t : Btree κ} {key newKeyVals : DatabaseKey κ}

theorem changeOrAddKey_present (hK : K.StrictOrder) (hW : t.WellFormed O K.comparison 1)
    (hReads : t.height ≤ gxBtreeMaxNodeReads) {h : Nat} {f : Frame κ} {e : DatabaseKey κ}
    {path : List (Frame κ)} (hE : t.EntryAt K.comparison key.dbKey h f e path) :
    changeOrAddKey K key newKeyVals CurrNode.new t =
      .ok () (t.setNode f.address (f.overwritten newKeyVals)) := by
  have hSelf := ((hE.hasEntry hW).entryAt hK.strict hW).hit
  have hFound := findKeyLocation_hit (c := f.leftChild) hK hSelf.before hSelf.equal hSelf.after
  rw [changeOrAddKey, find_entry hK hW hReads hE (CurrNode.new_restart K key.dbKey)]
  simp only [hFound]
  rw [if_pos trivial, overWriteDatabaseKey_at, Exec.bind_ok (access_some _ _)]
  rfl

theorem changeOrAddKey_absent (hK : K.StrictOrder) (hReads : t.height ≤ gxBtreeMaxNodeReads)
    {path : List (Frame κ)}
    (hD : Descent K.comparison key.dbKey t.f.node t.order t.height t.header.root [] 0 0 path) :
    changeOrAddKey K key newKeyVals CurrNode.new t =
      (insertDatabaseKey K key >>= fun _ => pure () : BtreeM κ Unit) t := by
  rw [changeOrAddKey, find_miss hK hReads hD (CurrNode.new_restart K key.dbKey)]

theorem Btree.WellFormed.find_eq (hK : K.StrictOrder) (hW : t.WellFormed O K.comparison 1) {k x : κ}
    {l r : List κ} (hSplit : t.keys = l ++ x :: r) (hEqv : K.comparison.eqv k x = true) :
    ((gxBtree K).step (.find k) t).1 = .found x := by
  have hR : Represents O K.comparison 1 t hW.keySet := ⟨hW, rfl⟩
  have hReads : t.height ≤ gxBtreeMaxNodeReads := by
    have hTwice := hW.reads_le
    omega
  have hRun := find_run k hK hW hReads (CurrNode.live_new _ _)
  rw [KeySet.find_of_split hK.strict (A := hW.keySet) hSplit hEqv] at hRun
  exact (search_agrees hR hRun).1

theorem KeyPut.of_wellFormed (hK : K.StrictOrder) {k newKey : κ} {t' : Btree κ}
    (hW : t'.WellFormed O K.comparison 1) (hKeys : ∃ l r, t'.keys = l ++ newKey :: r ∧
      (t.keys = l ++ r ∨ ∃ x, t.keys = l ++ x :: r ∧ K.comparison.eqv k x = true))
    (hShape : ∀ h f e path, t.EntryAt K.comparison k h f e path →
      t'.f = t.f.setNode f.address (f.overwritten ⟨e.rightChild, newKey⟩)) :
    KeyPut K t k newKey t' where
  keys := hKeys
  nKeys := hW.nKeys
  find _ _ _ _ hSplit hEqv := hW.find_eq hK hSplit hEqv
  enumerates := enumerates_of_ready hK hW (ready_of_keys hW) hW.reads_le
  shape := hShape

theorem Btree.no_entry (hC : K.comparison.Strict) {k : κ} {l r : List κ} (hKeys : t.keys = l ++ r)
    (hl : ∀ x ∈ l, K.comparison.lt x k = true) (hr : ∀ x ∈ r, K.comparison.lt k x = true) {x : κ} (hx : x ∈ t.keys) :
    K.comparison.eqv k x = false := by
  rw [hKeys, List.mem_append] at hx
  cases hx with
  | inl hLeft => exact hC.gt_not_eqv (hl x hLeft)
  | inr hRight => exact hC.lt_not_eqv (hr x hRight)

theorem Btree.EntryAt.mem_keys {k : κ} {h : Nat} {f : Frame κ} {e : DatabaseKey κ}
    {path : List (Frame κ)} (hE : t.EntryAt K.comparison k h f e path)
    (hW : t.WellFormed O K.comparison 1) : e.dbKey ∈ t.keys := by
  rw [hE.keys hW]
  simp

theorem changeOrAddKey_present_iff (hK : K.StrictOrder) (hW : t.WellFormed O K.comparison 1)
    (hEq : K.comparison.eqv key.dbKey newKeyVals.dbKey = true) {t' : Btree κ}
    (hRun : changeOrAddKey K key newKeyVals CurrNode.new t = .ok () t') {h : Nat} {f : Frame κ}
    {e : DatabaseKey κ} {path : List (Frame κ)} (hE : t.EntryAt K.comparison key.dbKey h f e path) :
    KeyPut K t key.dbKey newKeyVals.dbKey t' ↔
      ∀ h f e path, t.EntryAt K.comparison key.dbKey h f e path →
        newKeyVals.rightChild = e.rightChild := by
  have hReads : t.height ≤ gxBtreeMaxNodeReads := by
    have hTwice := hW.reads_le
    omega
  have hC := hK.strict
  have hPlace {h f e path} (hE : t.EntryAt K.comparison key.dbKey h f e path) :
      t' = t.setNode f.address (f.overwritten newKeyVals) := by
    rw [changeOrAddKey_present hK hW hReads hE] at hRun
    cases hRun
    rfl
  constructor
  · intro hPut h f e path hE
    have hShape := hPut.shape h f e path hE
    rw [hPlace hE] at hShape
    have hNode := congrArg (fun g => g.node f.address) hShape
    simp only [setNode_node, Function.update_self, IndexFile.setNode_same, Frame.overwritten,
      Option.some.injEq, BtreeNode.mk.injEq, List.append_cancel_left_eq, List.cons.injEq] at hNode
    rw [hNode.2.1]
  · intro hLinks
    have hEntry := hE.hasEntry hW
    have hEqv : K.comparison.eqv newKeyVals.dbKey e.dbKey = true :=
      hC.eqv_trans (hC.eqv_symm hEq) hE.hit.equal
    obtain ⟨hNew, hKeys⟩ := hW.replaceKey hC hEntry hEqv
    obtain ⟨c, newKey⟩ := newKeyVals
    obtain rfl : c = e.rightChild := hLinks h f e path hE
    rw [← hPlace hE] at hNew hKeys
    apply KeyPut.of_wellFormed hK hNew
    · exact ⟨_, _, hKeys, .inr ⟨_, hEntry.keys, hE.hit.equal⟩⟩
    · intro h' f' e' path' hE'
      rw [hPlace hE', ← hLinks h' f' e' path' hE']
      rfl

theorem changeOrAddKey_absent_iff (hK : K.StrictOrder) (hW : t.WellFormed O K.comparison 1)
    (hEq : K.comparison.eqv key.dbKey newKeyVals.dbKey = true) {t' : Btree κ}
    (hRun : changeOrAddKey K key newKeyVals CurrNode.new t = .ok () t')
    (hAlloc : t'.f.allocFailed = false) {path : List (Frame κ)}
    (hD : Descent K.comparison key.dbKey t.f.node t.order t.height t.header.root [] 0 0 path)
    (hNone : ∀ x ∈ t.keys, K.comparison.eqv key.dbKey x = false) :
    KeyPut K t key.dbKey newKeyVals.dbKey t' ↔ newKeyVals.dbKey = key.dbKey := by
  have hReads : t.height ≤ gxBtreeMaxNodeReads := by
    have hTwice := hW.reads_le
    omega
  rw [changeOrAddKey_absent hK hReads hD] at hRun
  obtain ⟨c, k⟩ := key
  rcases insertDatabaseKey_run hK hW hW.reads_le c k (splitsKeep_of_few (Nat.le_refl 1) hW k) with
    ⟨l, x, r, hKeys, hEqv, -⟩ | ⟨l, r, hKeys, -, -, hOut⟩
  · have hNot := hNone x (by simp [hKeys])
    rw [hEqv] at hNot
    cases hNot
  · generalize hRes : insertDatabaseKey K ⟨c, k⟩ t = res at hOut
    cases hOut with
    | inserted hNew hPut =>
      rw [Exec.bind_ok hRes] at hRun
      cases hRun
      constructor
      · intro hKey
        obtain ⟨l', r', hKeys', -⟩ := hKey.keys
        have hGiven := hKey.find k l' newKeyVals.dbKey r' hKeys' hEq
        have hFound := hNew.find_eq hK hPut (hK.strict.eqv_refl k)
        rw [hGiven] at hFound
        cases hFound
        rfl
      · intro hBytes
        rw [hBytes]
        apply KeyPut.of_wellFormed hK hNew
        · exact ⟨l, r, hPut, .inl hKeys⟩
        · intro h f e path hE
          have hNot := hNone _ (hE.mem_keys hW)
          rw [hE.hit.equal] at hNot
          cases hNot
    | unharmed =>
      rw [Exec.bind_error hRes] at hRun
      cases hRun
    | keysLost =>
      rw [Exec.bind_error hRes] at hRun
      cases hRun
    | rootLost _ hFailed =>
      rw [Exec.bind_ok hRes] at hRun
      cases hRun
      rw [hFailed] at hAlloc
      cases hAlloc

end Run

/-- Keys with an address that is not compared. -/
def KeyClass.withAddress (K : KeyClass κ) : KeyClass (κ × FAU) where
  operatorGt a b := K.operatorGt a.1 b.1
  operatorEq a b := K.operatorEq a.1 b.1
  compareKey a b := K.compareKey a.1 b.1
  useBinarySearch := K.useBinarySearch
  useSingleCompare := K.useSingleCompare

theorem KeyClass.withAddress_strictOrder (hK : K.StrictOrder) : K.withAddress.StrictOrder where
  strict := by
    have hC := hK.strict
    constructor
    · exact hC.lt_trans
    · exact hC.eqv_symm
    · exact hC.eqv_trans
    · exact fun a b => hC.total a.1 b.1
    · exact hC.lt_not_eqv
    · exact hC.lt_not_gt
  compareKey_pos a b := hK.compareKey_pos a.1 b.1
  compareKey_zero a b := hK.compareKey_zero a.1 b.1

end DataReel
