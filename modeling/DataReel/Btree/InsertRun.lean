import DataReel.Btree.InsertLoop

/-! # Insertion as a whole

A call adds its key to a well-formed tree. When the file cannot grow the call
is harmless only if nothing has been split before.
-/

namespace DataReel

open BtreeNode

variable {κ : Type} {O : OtherTrees κ} {K : KeyClass κ}

/-- What an insertion that should leave the keys `ks` ends with: the tree with them, or the tree
as it was when the first `Alloc` fails, or a tree damaged by a later failure. -/
inductive InsertOutcome (O : OtherTrees κ) (C : Comparison κ) (lo : Nat) (t : Btree κ) (numSplits : Nat) (ks : List κ) :
    EStateM.Result Halt (Btree κ) (DatabaseKey κ) → Prop
  | inserted {key : DatabaseKey κ} {t' : Btree κ} (hW : t'.WellFormed O C lo) (hKeys : t'.keys = ks)
      (hAlloc : t'.f.allocFailed = t.f.allocFailed) : InsertOutcome O C lo t numSplits ks (.ok key t')
  | unharmed (hNone : numSplits = 0) (hAlloc : t.f.alloc.1 = 0) :
      InsertOutcome O C lo t numSplits ks
        (.error (.error .fileWriteError) { t with f := t.f.failAlloc })
  | keysLost {t' : Btree κ} (hFirst : numSplits = 0 → t.f.alloc.1 ≠ 0)
      (hFailed : t'.f.allocFailed = true) (hLost : t'.keys.length + 1 < ks.length) :
      InsertOutcome O C lo t numSplits ks (.error (.error .fileWriteError) t')
  | rootLost {key : DatabaseKey κ} {t' : Btree κ} (hFirst : numSplits = 0 → t.f.alloc.1 ≠ 0)
      (hFailed : t'.f.allocFailed = true) (hRoot : t'.header.root = 0) :
      InsertOutcome O C lo t numSplits ks (.ok key t')

/-- The outcome of a run from `t`, if its tree had the order `n`. A split looks at the order, and it may
be fine with one below 5, for which the nodes have the slots of an order of 5. -/
def OutcomeAt (O : OtherTrees κ) (C : Comparison κ) (lo : Nat) (n : Int) (t : Btree κ) (numSplits : Nat)
    (ks : List κ) : EStateM.Result Halt (Btree κ) (DatabaseKey κ) → Prop
  | .ok key t' => t'.header.nodeOrder = t.header.nodeOrder ∧
    InsertOutcome O C lo (t.atOrder n) numSplits ks (.ok key (t'.atOrder n))
  | .error e t' => t'.header.nodeOrder = t.header.nodeOrder ∧
    InsertOutcome O C lo (t.atOrder n) numSplits ks (.error e (t'.atOrder n))

theorem OutcomeAt.outcome {C : Comparison κ} {lo : Nat} {t : Btree κ} {numSplits : Nat} {ks : List κ}
    {res : EStateM.Result Halt (Btree κ) (DatabaseKey κ)}
    (hOut : OutcomeAt O C lo t.header.nodeOrder t numSplits ks res) :
    InsertOutcome O C lo t numSplits ks res := by
  cases res with
  | ok key t' =>
    obtain ⟨hOrder, hOut⟩ := hOut
    rwa [Btree.atOrder_self hOrder] at hOut
  | error e t' =>
    obtain ⟨hOrder, hOut⟩ := hOut
    rwa [Btree.atOrder_self hOrder] at hOut

section Loop

variable {lo : Nat} {n : Int} {t : Btree κ} {h : Nat} {f : Frame κ} {key : DatabaseKey κ}
  {path : List (Frame κ)}

theorem Growing.sorted_put {C : Comparison κ} (hG : Growing O C lo t h f key path) :
    C.Sorted ((f.before ++ key :: f.after).map DatabaseKey.dbKey) := by
  have hSorted := (Comparison.sorted_append.mp (Comparison.sorted_append.mp hG.sorted).1).2.1
  exact hSorted.sublist (keys_sublist _ (f.put key))

theorem Growing.locate (hK : K.StrictOrder) (hG : Growing O K.comparison lo t h f key path) :
    (f.node.findKeyLocation K key.dbKey).keyLocation = (f.before.length : Int) - 1 := by
  have hSorted := hG.sorted_put
  rw [List.map_append, List.map_cons] at hSorted
  obtain ⟨hBefore, hRest, hLess⟩ := Comparison.sorted_append.mp hSorted
  apply findKeyLocation_branch hK hBefore
  · intro e he
    exact hK.strict.lt_not_gt (hLess _ (List.mem_map_of_mem he) _ List.mem_cons_self)
  · intro e he
    exact (Comparison.sorted_cons.mp hRest).1 _ (List.mem_map_of_mem he)

theorem insertLocate_run (hK : K.StrictOrder) (hn : nodeOrder n = t.order)
    (hG : Growing O K.comparison lo (t.atOrder n) h f key path)
    {numSplits : Nat} {curr : BtreeNode κ} {loc : Int} {reads : Nat}
    (hFirst : numSplits = 0 → curr = f.node ∧ loc = (f.before.length : Int) - 1)
    (hReads : path.length + 1 ≤ reads) :
    ∃ reads', insertLocate K numSplits f.address key.dbKey curr loc reads t =
      .ok (f.node, (f.before.length : Int) - 1, reads') t ∧ path.length ≤ reads' := by
  rw [insertLocate.eq_def]
  split
  · obtain ⟨reads, rfl⟩ : ∃ r, reads = r + 1 := ⟨reads - 1, by omega⟩
    refine ⟨reads, ?_, by omega⟩
    dsimp only
    have hCount : f.node.keyCount ≤ t.order := le_of_le_of_eq hG.count hn
    have hNode : t.f.node f.address = some f.node := hG.node
    rw [Exec.bind_ok (readNode_run hNode hCount), hG.locate hK]
    rfl
  · obtain ⟨rfl, rfl⟩ := hFirst (by omega)
    exact ⟨reads, rfl, by omega⟩

/-- Before the failure the tree lacks the new key and what hangs right of it. -/
theorem Growing.keys_length {C : Comparison κ} (hG : Growing O C lo t h f key path) :
    t.keys.length + 1 + (keysFrom t.f.node h key.rightChild).length =
      (grownKeys t.f.node h f key path).length := by
  have hHeight : t.height = path.length + (h + 1) := by
    rw [Btree.height, hG.height, Int.toNat_natCast]
  rw [Btree.keys, hHeight, keysFrom_fill hG.reach, keysFrom_at hG.node, f.inorder_node, grownKeys,
    f.inorder_put]
  simp only [List.length_append, List.length_cons]
  omega

section Turn

variable {numSplits reads reads' : Nat} {curr : BtreeNode κ} {loc : Int}
  (hLocate : insertLocate K numSplits f.address key.dbKey curr loc reads t =
    .ok (f.node, (f.before.length : Int) - 1, reads') t)

include hLocate

theorem insertLoop_fits (stack : List FAU) (hRoom : f.node.keyCount < t.order) :
    insertLoop K (f.address :: stack) numSplits key curr loc reads t =
      .ok key ((t.setNode f.address (f.put key)).addKeys 1) := by
  have hFull : ¬ f.node.isFull t.order = true := by
    rw [isFull, decide_eq_true_eq]
    omega
  have hPut : f.node.insertDatabaseKey t.order key f.before.length = some (f.put key) :=
    insertDatabaseKey_at _ _ _ _ _ hRoom
  rw [insertLoop, Exec.bind_ok hLocate]
  dsimp only
  rw [Exec.bind_ok (Exec.get_run _), if_neg hFull, Int.sub_add_cancel, hPut,
    Exec.bind_ok (access_some _ _), Exec.bind_ok writeNode_run, Exec.bind_ok (addKeys_run _)]
  rfl

theorem insertLoop_noBlock (stack : List FAU) (hFull : f.node.keyCount = t.order)
    (hAlloc : t.f.alloc.1 = 0) :
    insertLoop K (f.address :: stack) numSplits key curr loc reads t =
      .error (.error .fileWriteError) { t with f := t.f.alloc.2 } := by
  have hFull : f.node.isFull t.order = true := by
    rw [isFull, decide_eq_true_eq]
    omega
  rw [insertLoop, Exec.bind_ok hLocate]
  dsimp only
  rw [Exec.bind_ok (Exec.get_run _), if_pos hFull, Exec.bind_ok allocNode_run, if_pos hAlloc]
  rfl

theorem insertLoop_split (stack : List FAU)
    (hSome : 1 ≤ splitLeft t.header.nodeOrder f.before.length)
    (hRoom : 1 + splitLeft t.header.nodeOrder f.before.length ≤ t.order)
    (hFull : f.node.keyCount = t.order) (hAlloc : t.f.alloc.1 ≠ 0) :
    ∃ L mid R, f.before ++ key :: f.after = L ++ mid :: R ∧
      L.length = splitLeft t.header.nodeOrder f.before.length ∧ L ≠ [] ∧ R ≠ [] ∧ ∀ t', t' = ((Btree.addNodes { t with f := t.f.alloc.2 } 1).setNode t.f.alloc.1
        ⟨mid.rightChild, R⟩).setNode f.address ⟨f.leftChild, L⟩ →
      insertLoop K (f.address :: stack) numSplits key curr loc reads t =
        if f.address = t.header.root then
          (do
            growNewRoot ⟨t.f.alloc.1, mid.dbKey⟩
            addKeys 1
            pure (⟨t.f.alloc.1, mid.dbKey⟩ : DatabaseKey κ) : BtreeM κ (DatabaseKey κ)) t'
        else insertLoop K stack (numSplits + 1) ⟨t.f.alloc.1, mid.dbKey⟩ ⟨f.leftChild, L⟩
          ((f.before.length : Int) - 1) reads' t' := by
  have hIsFull : f.node.isFull t.order = true := by
    rw [isFull, decide_eq_true_eq]
    omega
  obtain ⟨L, mid, R, hPut, hLeft, hL, hR, hSplit⟩ :=
    splitInsert_run (c := f.leftChild) (l := f.before) (r := f.after) hSome hRoom hFull
  refine ⟨L, mid, R, hPut, hLeft, hL, hR, ?_⟩
  rintro t' rfl
  rw [insertLoop, Exec.bind_ok hLocate]
  dsimp only
  rw [Exec.bind_ok (Exec.get_run _), if_pos hIsFull, Exec.bind_ok allocNode_run, if_neg hAlloc,
    Exec.bind_ok (addNodes_run _), Int.sub_add_cancel]
  change (access (splitInsert t.order t.header.nodeOrder ⟨f.leftChild, f.before ++ f.after⟩ key
    f.before.length) >>= _) _ = _
  rw [hSplit, Exec.bind_ok (access_some _ _)]
  dsimp only
  rw [Exec.bind_ok writeNode_run, Exec.bind_ok writeNode_run]
  split <;> rfl

end Turn

/-- The state after the split of a full node: the halves are written, the parent knows nothing
of the new one yet. -/
structure SplitState (O : OtherTrees κ) (t : Btree κ) (h : Nat) (f : Frame κ) (key : DatabaseKey κ)
    (path : List (Frame κ)) (L R : List (DatabaseKey κ)) (mid : DatabaseKey κ) (t' : Btree κ) :
    Prop where
  halves : Halves t h f key path t.f.alloc.1 L R mid t'.f.node
  blocks : t'.f.Blocks O (t.f.alloc.1 :: grownNodes t.f.node h f key path)
  header : t'.header = { t.header with nNodes := t.header.nNodes + 1 }
  allocFailed : t'.f.allocFailed = t.f.allocFailed

theorem Growing.split {C : Comparison κ} (hG : Growing O C lo t h f key path)
    (hAlloc : t.f.alloc.1 ≠ 0) {L R : List (DatabaseKey κ)} {mid : DatabaseKey κ}
    (hPut : f.before ++ key :: f.after = L ++ mid :: R) (hL : L ≠ []) (hR : R ≠ []) :
    SplitState O t h f key path L R mid (((Btree.addNodes { t with f := t.f.alloc.2 } 1).setNode
      t.f.alloc.1 ⟨mid.rightChild, R⟩).setNode f.address ⟨f.leftChild, L⟩) := by
  rcases hG.blocks.alloc with ⟨h0, -⟩ | ⟨hNew, hBlocks, hFailed, hOther⟩
  · exact absurd h0 hAlloc
  have hFresh := (List.nodup_cons.mp hBlocks.nodes_nodup).1
  have hNe : t.f.alloc.1 ≠ f.address := by
    intro hEq
    exact hFresh (hEq ▸ List.mem_cons_self)
  have hWritten := (hBlocks.setNode List.mem_cons_self ⟨mid.rightChild, R⟩).setNode
    (List.mem_cons_of_mem _ List.mem_cons_self) ⟨f.leftChild, L⟩
  refine ⟨⟨hPut, hL, hR, hNew, hFresh, ?_, ?_, ?_⟩, hWritten, rfl, hFailed⟩
  · simp
  · simp [Function.update_of_ne hNe]
  · intro d hd hdb
    simp [Function.update_of_ne hd, Function.update_of_ne hdb, hOther d hdb]

theorem insertLoop_turn (hK : K.StrictOrder) (hn : nodeOrder n = t.order)
    (hG : Growing O K.comparison lo (t.atOrder n) h f key path)
    (hSome : splitsKeep 1 t.order t.header.nodeOrder (f :: path)) {numSplits : Nat}
    {curr : BtreeNode κ} {loc : Int} {reads : Nat}
    (hFirst : numSplits = 0 → curr = f.node ∧ loc = (f.before.length : Int) - 1)
    (hRight : numSplits ≠ 0 → keysFrom t.f.node h key.rightChild ≠ [])
    (hReads : path.length + 1 ≤ reads) (stack : List FAU) :
    OutcomeAt O K.comparison lo n t numSplits (grownKeys t.f.node h f key path)
      (insertLoop K (f.address :: stack) numSplits key curr loc reads t) ∨
    t.f.alloc.1 ≠ 0 ∧ f.node.keyCount = t.order ∧
      ∃ L mid R t' reads', SplitState O (t.atOrder n) h f key path L R mid (t'.atOrder n) ∧
      t'.header.nodeOrder = t.header.nodeOrder ∧
      L.length = splitLeft t.header.nodeOrder f.before.length ∧ path.length ≤ reads' ∧
      insertLoop K (f.address :: stack) numSplits key curr loc reads t =
        if f.address = t.header.root then
          (do
            growNewRoot ⟨t.f.alloc.1, mid.dbKey⟩
            addKeys 1
            pure (⟨t.f.alloc.1, mid.dbKey⟩ : DatabaseKey κ) : BtreeM κ (DatabaseKey κ)) t'
        else insertLoop K stack (numSplits + 1) ⟨t.f.alloc.1, mid.dbKey⟩ ⟨f.leftChild, L⟩
          ((f.before.length : Int) - 1) reads' t' := by
  obtain ⟨reads', hLocate, hReads'⟩ := insertLocate_run hK hn hG hFirst hReads
  have hCount : f.node.keyCount ≤ t.order := le_of_le_of_eq hG.count hn
  rcases Nat.lt_or_eq_of_le hCount with hRoom | hFull
  · left
    rw [insertLoop_fits hLocate stack hRoom]
    obtain ⟨hW, hKeys⟩ := hG.fits (lt_of_lt_of_eq hRoom hn.symm)
    exact ⟨rfl, .inserted hW hKeys rfl⟩
  by_cases hAlloc : t.f.alloc.1 = 0
  · left
    rw [insertLoop_noBlock hLocate stack hFull hAlloc]
    rcases hG.blocks.alloc with ⟨-, hFail⟩ | ⟨hNew, -⟩
    · rw [show t.f.alloc.2 = t.f.failAlloc from hFail]
      refine ⟨rfl, ?_⟩
      by_cases hNone : numSplits = 0
      · exact .unharmed hNone hAlloc
      · have hLength := hG.keys_length
        have hPos := List.length_pos_of_ne_nil (hRight hNone)
        refine .keysLost (fun h0 => absurd h0 hNone) rfl ?_
        change (t.atOrder n).keys.length + 1 < (grownKeys t.f.node h f key path).length
        change (t.atOrder n).keys.length + 1 + (keysFrom t.f.node h key.rightChild).length =
          (grownKeys t.f.node h f key path).length at hLength
        omega
    · exact absurd hAlloc hNew
  · right
    obtain ⟨hOne, hRest, -⟩ := hSome hFull
    obtain ⟨L, mid, R, hPut, hLeft, hL, hR, hRun⟩ :=
      insertLoop_split hLocate stack hOne hRest hFull hAlloc
    refine ⟨hAlloc, hFull, L, mid, R, ((Btree.addNodes { t with f := t.f.alloc.2 } 1).setNode t.f.alloc.1
      ⟨mid.rightChild, R⟩).setNode f.address ⟨f.leftChild, L⟩, reads', ?_, rfl, hLeft, hReads', hRun _ rfl⟩
    exact hG.split hAlloc hPut hL hR

theorem InsertOutcome.after_split {C : Comparison κ} {t' : Btree κ} {ks : List κ} {numSplits : Nat}
    {res : EStateM.Result Halt (Btree κ) (DatabaseKey κ)} (hAlloc : t.f.alloc.1 ≠ 0)
    (hFailed : t'.f.allocFailed = t.f.allocFailed)
    (hOut : InsertOutcome O C lo t' (numSplits + 1) ks res) : InsertOutcome O C lo t numSplits ks res := by
  cases hOut with
  | inserted hW hKeys hSame => exact .inserted hW hKeys (hSame.trans hFailed)
  | unharmed hNone => exact absurd hNone (Nat.succ_ne_zero _)
  | keysLost _ hMark hLost => exact .keysLost (fun _ => hAlloc) hMark hLost
  | rootLost _ hMark hRoot => exact .rootLost (fun _ => hAlloc) hMark hRoot

theorem OutcomeAt.after_split {C : Comparison κ} {t' : Btree κ} {ks : List κ} {numSplits : Nat}
    {res : EStateM.Result Halt (Btree κ) (DatabaseKey κ)} (hAlloc : t.f.alloc.1 ≠ 0)
    (hFailed : t'.f.allocFailed = t.f.allocFailed) (hOrder : t'.header.nodeOrder = t.header.nodeOrder)
    (hOut : OutcomeAt O C lo n t' (numSplits + 1) ks res) : OutcomeAt O C lo n t numSplits ks res := by
  have hFirst : (t.atOrder n).f.alloc.1 ≠ 0 := hAlloc
  have hSame : (t'.atOrder n).f.allocFailed = (t.atOrder n).f.allocFailed := hFailed
  cases res with
  | ok key u => exact ⟨hOut.1.trans hOrder, hOut.2.after_split hFirst hSame⟩
  | error e u => exact ⟨hOut.1.trans hOrder, hOut.2.after_split hFirst hSame⟩

theorem grow_run {C : Comparison κ} (hG : Growing O C lo (t.atOrder n) h f key [])
    {L R : List (DatabaseKey κ)} (hL : lo ≤ L.length) (hR : lo ≤ R.length) {mid : DatabaseKey κ}
    {t' : Btree κ} {numSplits : Nat} (hAlloc : t.f.alloc.1 ≠ 0)
    (hOrder : t'.header.nodeOrder = t.header.nodeOrder)
    (hS : SplitState O (t.atOrder n) h f key [] L R mid (t'.atOrder n)) :
    OutcomeAt O C lo n t numSplits (grownKeys t.f.node h f key [])
      ((do
        growNewRoot ⟨t.f.alloc.1, mid.dbKey⟩
        addKeys 1
        pure (⟨t.f.alloc.1, mid.dbKey⟩ : DatabaseKey κ) : BtreeM κ (DatabaseKey κ)) t') := by
  rw [Exec.bind_ok (growNewRoot_run _ _), Exec.bind_ok (addKeys_run _), Exec.pure_run]
  refine ⟨hOrder, ?_⟩
  rcases hS.blocks.alloc with ⟨h0, hFail⟩ | ⟨hNew, -, hSame, -⟩
  · refine .rootLost (fun _ => hAlloc) ?_ h0
    change (t'.atOrder n).f.alloc.2.allocFailed = true
    rw [hFail]
    rfl
  · obtain ⟨hW, hKeys⟩ := hS.halves.grow hG hL hR hS.blocks hS.header hNew
    exact .inserted hW hKeys (hSame.trans hS.allocFailed)

theorem insertLoop_run (hK : K.StrictOrder) (hn : nodeOrder n = t.order)
    (hG : Growing O K.comparison lo (t.atOrder n) h f key path)
    (hKeep : splitsKeep lo t.order t.header.nodeOrder (f :: path))
    (hSome : splitsKeep 1 t.order t.header.nodeOrder (f :: path)) {numSplits : Nat}
    {curr : BtreeNode κ} {loc : Int} {reads : Nat}
    (hFirst : numSplits = 0 → curr = f.node ∧ loc = (f.before.length : Int) - 1)
    (hRight : numSplits ≠ 0 → keysFrom t.f.node h key.rightChild ≠ [])
    (hReads : path.length + 1 ≤ reads) :
    OutcomeAt O K.comparison lo n t numSplits (grownKeys t.f.node h f key path)
      (insertLoop K ((f :: path).map Frame.address) numSplits key curr loc reads t) := by
  induction path generalizing t h f key numSplits curr loc reads with
  | nil =>
    rcases insertLoop_turn hK hn hG hSome hFirst hRight hReads [] with
      hEnd | ⟨hAlloc, hFull, L, mid, R, t', reads', hS, hOrder, hLength, -, hRun⟩
    · exact hEnd
    · have hRoot : f.address = t.header.root := hG.reach
      obtain ⟨hL, hR, -⟩ := hS.halves.low hFull hLength hKeep
      rw [List.map_cons, List.map_nil, hRun, if_pos hRoot]
      exact grow_run hG hL hR hAlloc hOrder hS
  | cons p path ih =>
    rcases insertLoop_turn hK hn hG hSome hFirst hRight hReads _ with
      hEnd | ⟨hAlloc, hFull, L, mid, R, t', reads', hS, hOrder, hLength, hReads', hRun⟩
    · exact hEnd
    · have hRoot : f.address ≠ t.header.root := by
        intro hEq
        have hMem := hG.reach.root_mem (by simp)
        have hNodup := hG.blocks.nodes_nodup
        rw [grownNodes, List.cons_append, List.nodup_cons] at hNodup
        exact hNodup.1 (List.mem_append_right _ (hEq ▸ hMem))
      obtain ⟨hL, hR, hAbove⟩ := hS.halves.low hFull hLength hKeep
      obtain ⟨-, -, hSomeAbove⟩ := hS.halves.low hFull hLength hSome
      have hClimb := hS.halves.climb hG hL hR rfl hS.blocks hS.header
      have hSlots : t'.order = t.order := by rw [Btree.order, hOrder, Btree.order]
      rw [← hSlots, ← hOrder] at hAbove hSomeAbove
      have hRightKeys : keysFrom t'.f.node (h + 1) t.f.alloc.1 ≠ [] := by
        have hNode : t'.f.node t.f.alloc.1 = some ⟨mid.rightChild, R⟩ := hS.halves.right
        rw [keysFrom_at hNode]
        obtain ⟨e, R', rfl⟩ := List.exists_cons_of_ne_nil hS.halves.right_ne
        simp [inorder]
      have hKeys := hS.halves.keys_above hG hG.reach.1
      change grownKeys t'.f.node (h + 1) p _ path = grownKeys t.f.node h f key (p :: path) at hKeys
      rw [List.map_cons, hRun, if_neg hRoot, ← hKeys]
      have hFailed : t'.f.allocFailed = t.f.allocFailed := hS.allocFailed
      refine OutcomeAt.after_split hAlloc hFailed hOrder ?_
      exact ih (hn.trans hSlots.symm) hClimb hAbove hSomeAbove
        (fun h0 => absurd h0 (Nat.succ_ne_zero _)) (fun _ => hRightKeys) hReads'

end Loop

/-! ## The call -/

section Call

variable {lo : Nat} {n : Int} {t : Btree κ} {key : κ}

theorem growing_of_miss {C : Comparison κ} (hW : t.WellFormed O C lo) {f : Frame κ}
    {path : List (Frame κ)} (hHeight : path.length + 1 = t.height)
    (hL : Located C t.f.node lo t.order t.header.root 0 0 (f :: path))
    (hSorted : C.Sorted (keysBefore t.f.node 0 (f :: path) ++ key ::
      keysAfter t.f.node 0 (f :: path))) :
    Growing O C lo t 0 f ⟨0, key⟩ path ∧ grownKeys t.f.node 0 f ⟨0, key⟩ path =
      keysBefore t.f.node 0 (f :: path) ++ key :: keysAfter t.f.node 0 (f :: path) := by
  have hKeys := Btree.keys_of_path hL.reach hHeight
  have hNodes := Btree.nodes_of_path hL.reach hHeight
  have hGrown : grownKeys t.f.node 0 f ⟨0, key⟩ path =
      keysBefore t.f.node 0 (f :: path) ++ key :: keysAfter t.f.node 0 (f :: path) := by
    simp [grownKeys, f.inorder_put, keysBefore, keysAfter, keysFrom]
  have hNone (l : List FAU) : l.flatMap (nodesFrom t.f.node 0) = [] := by
    simp [nodesFrom]
  rw [pathNodes, hNone, nodesFrom, List.append_nil] at hNodes
  rw [keysFrom, List.append_nil] at hKeys
  obtain ⟨hChild, hNull, hNode, hLow, hm, hSib, hP⟩ := hL.reach
  refine ⟨⟨hW.order, ?_, hNull, hNode, hLow, hm, hP, ?_, hGrown ▸ hSorted, ?_, ?_, ?_⟩, hGrown⟩
  · rw [hHeight, hW.height_eq]
  · intro b hb
    rcases List.mem_cons.mp ((f.perm_put _).mem_iff.mp hb) with rfl | hb
    · rw [hChild]
      exact Subtree.null
    · rcases List.mem_cons.mp hb with rfl | hb
      · exact Subtree.null
      · exact hSib b hb
  · rw [grownNodes, hNone]
    exact hW.blocks.perm hNodes
  · rw [hW.nKeys, hGrown, hKeys]
    simp
    omega
  · rw [hW.nNodes, grownNodes, hNone, hNodes.length_eq]

/-- The splits of an insertion leave every half `lo` keys. -/
def SplitsKeep (K : KeyClass κ) (lo : Nat) (t : Btree κ) (key : κ) : Prop :=
  ∀ path, Descent K.comparison key t.f.node t.order t.height t.header.root [] 0 0 path →
    splitsKeep lo t.order t.header.nodeOrder path

theorem splitsKeep_of_few {C : Comparison κ} (hLo : lo ≤ 1) (hW : t.WellFormed O C lo) (key : κ) :
    SplitsKeep K lo t key :=
  fun path _ => splitsKeep_of_le_one hW.order hW.order_eq hLo path

theorem insertDatabaseKey_outcome (hK : K.StrictOrder) (hn : nodeOrder n = t.order)
    (hW : (t.atOrder n).WellFormed O K.comparison lo) (hReads : 2 * t.height ≤ gxBtreeMaxNodeReads)
    (c : FAU) (key : κ) (hKeep : SplitsKeep K lo t key) (hSome : SplitsKeep K 1 t key) :
    (∃ l x r, t.keys = l ++ x :: r ∧ K.comparison.eqv key x = true ∧
      insertDatabaseKey K ⟨c, key⟩ t = .error (.error .duplicateEntry) t) ∨
    ∃ l r, t.keys = l ++ r ∧ (∀ x ∈ l, K.comparison.lt x key = true) ∧
      (∀ x ∈ r, K.comparison.lt key x = true) ∧
      OutcomeAt O K.comparison lo n t 0 (l ++ key :: r) (insertDatabaseKey K ⟨c, key⟩ t) := by
  have hHeight : (t.height : Int) = t.header.btreeHeight := hW.height_eq
  have hPos : 0 < t.header.btreeHeight := hW.height_pos
  obtain ⟨k, hk⟩ : ∃ k, gxBtreeMaxNodeReads = k + t.height := ⟨gxBtreeMaxNodeReads - t.height, by omega⟩
  rcases hW.search hK.strict key with ⟨h', f, e, path, hE⟩ | ⟨path, hD, hKeys, hA⟩
  · left
    have hL := hE.located hW
    have hD : Descent K.comparison key t.f.node t.order t.height t.header.root [] (h' + 1) f.address
      path := hn ▸ hE.descent
    refine ⟨_, _, _, hE.keys hW, hE.hit.equal, ?_⟩
    have hWalk : insertWalk K key (k + t.height) t.header.root BtreeNode.new 0 [] t = _ :=
      insertWalk_descent hK hD k
    have hCount : (f.before ++ e :: f.after).length ≤ t.order := le_of_le_of_eq (hE.hit.count hL) hn
    have hHit : Hit K.comparison key t.f.node f e := hE.hit
    rw [← Nat.add_assoc, insertWalk_hit hK hL.sub.nonzero hHit hCount] at hWalk
    rw [insertDatabaseKey, Exec.bind_ok (Exec.get_run _), hk, Exec.bind_error hWalk]
  · right
    have hL := hD.located hW.located
    have hLength := hD.height
    have hDown : Descent K.comparison key t.f.node t.order t.height t.header.root [] 0 0 path := hn ▸ hD
    refine ⟨_, _, hKeys, hA.1, hA.2, ?_⟩
    cases path with
    | nil =>
      change [].length + 0 = [].length + t.height at hLength
      simp at hLength
      omega
    | cons f path =>
      have hSorted : K.comparison.Sorted (keysBefore t.f.node 0 (f :: path) ++ key ::
          keysAfter t.f.node 0 (f :: path)) :=
        Comparison.Sorted.put (hKeys ▸ hW.sorted) hA.1 hA.2
      have hWalk : insertWalk K key (k + t.height) t.header.root BtreeNode.new 0 [] t = _ :=
        insertWalk_descent hK hDown k
      rw [insertWalk_null] at hWalk
      change path.length + 1 + 0 = 0 + t.height at hLength
      obtain ⟨hG, hGrown⟩ := growing_of_miss hW (by change _ = t.height; omega) hL hSorted
      rw [insertDatabaseKey, Exec.bind_ok (Exec.get_run _), hk, Exec.bind_ok hWalk, ← hGrown]
      exact insertLoop_run hK hn hG (hKeep _ hDown) (hSome _ hDown) (fun _ => ⟨rfl, rfl⟩)
        (fun h0 => absurd rfl h0) (by omega)

theorem insertDatabaseKey_run (hK : K.StrictOrder) (hW : t.WellFormed O K.comparison lo)
    (hReads : 2 * t.height ≤ gxBtreeMaxNodeReads) (c : FAU) (key : κ) (hKeep : SplitsKeep K lo t key) :
    (∃ l x r, t.keys = l ++ x :: r ∧ K.comparison.eqv key x = true ∧
      insertDatabaseKey K ⟨c, key⟩ t = .error (.error .duplicateEntry) t) ∨
    ∃ l r, t.keys = l ++ r ∧ (∀ x ∈ l, K.comparison.lt x key = true) ∧
      (∀ x ∈ r, K.comparison.lt key x = true) ∧
      InsertOutcome O K.comparison lo t 0 (l ++ key :: r) (insertDatabaseKey K ⟨c, key⟩ t) := by
  rcases insertDatabaseKey_outcome (n := t.header.nodeOrder) hK rfl hW hReads c key hKeep
    (fun path _ => splitsKeep_of_le_one hW.order hW.order_eq (Nat.le_refl 1) path) with hOld | ⟨l, r, hKeys, hl, hr, hOut⟩
  · exact .inl hOld
  · exact .inr ⟨l, r, hKeys, hl, hr, hOut.outcome⟩

end Call

end DataReel
