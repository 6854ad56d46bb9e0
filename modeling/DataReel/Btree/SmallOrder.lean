import DataReel.Btree.Enumerate
import DataReel.Btree.HalfFull

/-! # Trees of any order

The constructor takes any order and gives a node at least four slots, while a
split goes by half the order. With an order of 4 both halves still get keys
wherever the entry goes; with one of 2 or 3 the left half stays empty when the
entry goes before the others, and with a lower one always.
-/

namespace DataReel

open BtreeNode

variable {κ : Type} {O : OtherTrees κ} {K : KeyClass κ}

/-- Both halves of every full node from the leaf up get keys. -/
def filledPlaces (m : Nat) (order : Int) : List (BtreeNode κ × Int) → Bool
  | [] => true
  | (n, loc) :: places =>
    !n.isFull m ||
      ((decide (4 ≤ order) || decide (2 ≤ order) && decide (0 < loc)) && filledPlaces m order places)

/-- The splits of the call leave no half empty. -/
def FilledSplits (K : KeyClass κ) : Call κ → Btree κ → Prop
  | .insert key _, t => filledPlaces t.order t.header.nodeOrder
      (insertPlaces K key.dbKey t.f.node gxBtreeMaxNodeReads t.header.root []) = true
  | _, _ => True

instance (K : KeyClass κ) : ∀ c t, Decidable (FilledSplits K c t)
  | .insert _ _, _ => inferInstanceAs (Decidable (_ = true))
  | .delete _ _, _ | .fastDelete _ _, _ | .find _, _ | .findFirst, _ | .findLast, _ | .findNext _, _
  | .findPrev _, _ => isTrue trivial

def Call.IsInsert : Call κ → Prop
  | .insert _ _ => True
  | _ => False

/-- An insertion that does not run out of space and leaves no half of a split empty. -/
structure FilledInsert (K : KeyClass κ) (c : Call κ) (t : Btree κ) : Prop where
  insert : c.IsInsert
  alloc : NoAllocFailure K c t
  filled : FilledSplits K c t

/-- Every node but the root has a key. -/
def Btree.NoEmptyNode (t : Btree κ) : Prop :=
  ∀ a ∈ t.nodes, a ≠ t.header.root → ∃ n, t.f.node a = some n ∧ 0 < n.keyCount

/-! ## The splits of an insertion -/

theorem splitLeft_filled {order : Int} {loc : Nat} (h : 4 ≤ order ∨ 2 ≤ order ∧ 0 < loc) :
    1 ≤ splitLeft order loc ∧ 1 + splitLeft order loc ≤ nodeOrder order := by
  have hHalf : order.tdiv 2 = order / 2 := Int.tdiv_eq_ediv_of_nonneg (by omega)
  rw [splitLeft, hHalf, nodeOrder]
  split <;> split <;> omega

theorem splitsKeep_of_filled {order : Int} {path : List (Frame κ)}
    (hFilled : filledPlaces (nodeOrder order) order (path.map Frame.place) = true) :
    splitsKeep 1 (nodeOrder order) order path := by
  induction path with
  | nil => trivial
  | cons f path ih =>
    intro hFull
    have hIsFull : f.node.isFull (nodeOrder order) = true := by simp [isFull, hFull]
    rw [List.map_cons, Frame.place, filledPlaces, hIsFull] at hFilled
    simp only [Bool.not_true, Bool.false_or, Bool.and_eq_true, Bool.or_eq_true, decide_eq_true_eq,
      Int.natCast_pos] at hFilled
    obtain ⟨hPlace, hRest⟩ := hFilled
    obtain ⟨hLeft, hRight⟩ := splitLeft_filled hPlace
    exact ⟨hLeft, hRight, ih hRest⟩

theorem splitsKeep_of_insertPlaces (hK : K.StrictOrder) {t : Btree κ} {key : κ}
    (hReads : t.height ≤ gxBtreeMaxNodeReads)
    (hFilled : filledPlaces t.order t.header.nodeOrder
      (insertPlaces K key t.f.node gxBtreeMaxNodeReads t.header.root []) = true) :
    SplitsKeep K 1 t key := by
  intro path hD
  rw [insertPlaces_eq hK hReads hD] at hFilled
  exact splitsKeep_of_filled hFilled

/-! ## Searches that do not look at the order -/

/-- Objects that the searches cannot tell apart. -/
structure SameNodes (s t : Btree κ) : Prop where
  node : s.f.node = t.f.node
  order : s.order = t.order
  root : s.header.root = t.header.root
  nKeys : s.header.nKeys = t.header.nKeys
  btreeHeight : s.header.btreeHeight = t.header.btreeHeight

/-- A program that ends alike on objects with the same nodes and leaves them so. -/
def Searching {α : Type} (x : BtreeM κ α) : Prop := Coupled SameNodes x (fun _ => SameNodes) SameNodes

namespace Searching

variable {α β : Type}

theorem pure (a : α) : Searching (Pure.pure a : BtreeM κ α) := Coupled.pure fun _ _ h => h

theorem fail (e : DatabaseError) : Searching (fail e : BtreeM κ α) := Coupled.throw fun _ _ h => h

theorem access (o : Option α) : Searching (access o : BtreeM κ α) := by
  cases o with
  | none => exact Coupled.throw fun _ _ h => h
  | some a => exact pure a

theorem bind {x : BtreeM κ α} {f : α → BtreeM κ β} (hx : Searching x) (hf : ∀ a, Searching (f a)) :
    Searching (x >>= f) := Coupled.bind hx hf

theorem ite {c : Prop} [Decidable c] {x y : BtreeM κ α} (hx : Searching x) (hy : Searching y) :
    Searching (if c then x else y) := Coupled.ite hx hy

theorem readNode (a : FAU) : Searching (readNode a : BtreeM κ (BtreeNode κ)) := by
  intro s t h
  rw [DataReel.readNode, DataReel.readNode, h.node, h.order]
  split
  · exact .error h
  · split
    · exact .error h
    · exact .ok h

theorem leftmost (reads : Nat) (a : FAU) (stack : List FAU) :
    Searching (leftmost reads a stack : BtreeM κ _) := by
  induction reads generalizing a stack with
  | zero => exact fail _
  | succ reads ih =>
    refine bind (readNode a) fun n => ?_
    exact ite (pure _) (ih _ _)

theorem rightmost (reads : Nat) (a : FAU) : Searching (rightmost reads a : BtreeM κ _) := by
  induction reads generalizing a with
  | zero => exact fail _
  | succ reads ih =>
    refine bind (readNode a) fun n => ?_
    refine bind (access _) fun b => ?_
    exact ite (pure _) (ih _)

theorem loadLeftmost (reads : Nat) (a : FAU) : Searching (loadLeftmost reads a : BtreeM κ _) := by
  refine bind (leftmost reads a []) ?_
  rintro ⟨a, node, -, -⟩
  refine ite (fail _) ?_
  exact bind (access _) fun _ => pure _

theorem findWalk (K : KeyClass κ) (key : κ) (reads : Nat) (a : FAU) :
    Searching (findWalk K key reads a) := by
  induction reads generalizing a with
  | zero => exact ite (fail _) (fail _)
  | succ reads ih =>
    refine ite (fail _) (bind (readNode a) fun curr => ?_)
    exact ite (pure _) (bind (access _) fun next => ih _)

theorem find (K : KeyClass κ) (key : κ) (curr : CurrNode κ) : Searching (find K key curr) := by
  refine Coupled.get (fun s t h => ?_) fun s => ?_
  · simp only [h.root]
  · refine ite (bind (access _) fun _ => pure _) (bind (findWalk _ _ _ _) ?_)
    rintro ⟨a, node, loc, -⟩
    exact bind (access _) fun _ => pure _

theorem findFirst : Searching (findFirst : BtreeM κ _) := by
  refine Coupled.get (fun s t h => ?_) fun s => ?_
  · rw [h.nKeys, h.root]
  · exact ite (fail _) (loadLeftmost _ _)

theorem findLast : Searching (findLast : BtreeM κ _) := by
  refine Coupled.get (fun s t h => ?_) fun s => ?_
  · rw [h.nKeys, h.root]
  · refine ite (fail _) (bind (rightmost _ _) fun curr => ?_)
    refine ite (fail _) ?_
    exact bind (access _) fun _ => pure _

theorem loadFromParent (reads : Nat) (parent : FAU) (savLocation : Int) (curr : CurrNode κ) :
    Searching (loadFromParent reads parent savLocation curr) := by
  refine ite (fail _) ?_
  cases reads with
  | zero => exact fail _
  | succ reads =>
    refine bind (readNode parent) fun node => ?_
    refine ite (fail _) (ite (fail _) ?_)
    exact bind (access _) fun _ => pure _

theorem nextOf (reads : Nat) (curr : CurrNode κ) (loc : Int) (parent : FAU) (savLocation : Int) :
    Searching (nextOf reads curr loc parent savLocation) := by
  refine bind (access _) fun branch => ?_
  refine ite (loadLeftmost _ _) (ite ?_ (loadFromParent _ _ _ _))
  exact bind (access _) fun _ => pure _

theorem nextWalk (K : KeyClass κ) (key : κ) (reads : Nat) (a parent : FAU) (savLocation : Int) :
    Searching (nextWalk K key reads a parent savLocation) := by
  induction reads generalizing a parent savLocation with
  | zero => exact ite (fail _) (fail _)
  | succ reads ih =>
    refine ite (fail _) (bind (readNode a) fun curr => ?_)
    refine ite (nextOf _ _ _ _ _) (bind (access _) fun next => ?_)
    exact ite (ih _ _ _) (ih _ _ _)

theorem findNext (K : KeyClass κ) (key : κ) (curr : CurrNode κ) : Searching (findNext K key curr) := by
  refine Coupled.get (fun s t h => ?_) fun s => ?_
  · simp only [h.root]
  · refine ite (bind (access _) fun branch => ?_) (nextWalk _ _ _ _ _ _)
    refine ite (loadLeftmost _ _) (ite ?_ (nextWalk _ _ _ _ _ _))
    exact bind (access _) fun _ => pure _

theorem loadRightmost (reads : Nat) (curr : CurrNode κ) (loc : Int) :
    Searching (loadRightmost reads curr loc) := by
  refine bind (access _) fun branch => ?_
  refine ite (bind (access _) fun _ => pure _) ?_
  refine bind (rightmost _ _) fun curr => ?_
  exact bind (access _) fun _ => pure _

theorem prevOf (reads : Nat) (curr : CurrNode κ) (loc : Int) (parent : Option (BtreeNode κ))
    (savLocation : Int) : Searching (prevOf reads curr loc parent savLocation) := by
  refine ite (loadRightmost _ _ _) (ite (loadRightmost _ _ _) ?_)
  cases parent with
  | none => exact fail _
  | some node => exact bind (access _) fun _ => pure _

theorem prevWalk (K : KeyClass κ) (key : κ) (reads : Nat) (a : FAU) (parent : Option (BtreeNode κ))
    (savLocation : Int) : Searching (prevWalk K key reads a parent savLocation) := by
  induction reads using Nat.strongRecOn generalizing a parent savLocation with
  | ind reads ih =>
    cases reads with
    | zero => exact ite (fail _) (fail _)
    | succ reads =>
      rw [DataReel.prevWalk.eq_def]
      refine ite (fail _) (bind (readNode a) fun curr => ?_)
      refine ite (prevOf _ _ _ _ _) (ite ?_ ?_)
      · cases reads with
        | zero => exact fail _
        | succ reads =>
          refine bind (readNode a) fun node => ?_
          exact bind (access _) fun next => ih _ (by omega) _ _ _
      · exact bind (access _) fun next => ih _ (by omega) _ _ _

theorem findPrev (K : KeyClass κ) (key : κ) (curr : CurrNode κ) : Searching (findPrev K key curr) := by
  refine Coupled.get (fun s t h => ?_) fun s => ?_
  · simp only [h.root]
  · exact ite (prevOf _ _ _ _ _) (prevWalk _ _ _ _ _ _)

end Searching

section SameNodes

variable {s t : Btree κ} (h : SameNodes s t)

include h

theorem SameNodes.keys : s.keys = t.keys := by
  rw [Btree.keys, Btree.keys, Btree.height, Btree.height, h.node, h.root, h.btreeHeight]

theorem SameNodes.walk {next : κ → CurrNode κ → BtreeM κ (DatabaseKey κ × CurrNode κ)}
    (hNext : ∀ key curr, Searching (next key curr)) {search : BtreeM κ (DatabaseKey κ × CurrNode κ)}
    (hSearch : Searching search) (n : Nat) : walk next n search s = walk next n search t := by
  induction n generalizing s t search with
  | zero => rfl
  | succ n ih =>
    have hEnds := hSearch s t h
    rw [DataReel.walk, DataReel.walk]
    generalize search s = r at hEnds
    generalize search t = r' at hEnds
    cases hEnds with
    | ok hNew =>
      dsimp only
      rw [ih hNew (hNext _ _)]
    | @error e =>
      cases e <;> rfl

theorem SameNodes.searched {x : BtreeM κ (DatabaseKey κ × CurrNode κ)} (hx : Searching x) :
    (searched x s).1 = (searched x t).1 := by
  have hEnds := hx s t h
  rw [DataReel.searched, DataReel.searched]
  generalize x s = r at hEnds
  generalize x t = r' at hEnds
  cases hEnds with
  | ok => rfl
  | @error e => cases e <;> rfl

theorem Enumerates.of_sameNodes (hEnum : Enumerates K t) : Enumerates K s where
  sorted := h.keys ▸ hEnum.sorted
  forward n hn := by
    have hNext (key : κ) (curr : CurrNode κ) : Searching (plain (findNext K) key curr) :=
      Searching.findNext K key CurrNode.new
    rw [h.walk hNext Searching.findFirst, h.keys]
    exact hEnum.forward n (h.keys ▸ hn)
  forwardCurr n hn := by
    rw [h.walk (Searching.findNext K) Searching.findFirst, h.keys]
    exact hEnum.forwardCurr n (h.keys ▸ hn)
  backward n hn := by
    have hPrev (key : κ) (curr : CurrNode κ) : Searching (plain (findPrev K) key curr) :=
      Searching.findPrev K key CurrNode.new
    rw [h.walk hPrev Searching.findLast, h.keys]
    exact hEnum.backward n (h.keys ▸ hn)
  backwardCurr n hn := by
    rw [h.walk (Searching.findPrev K) Searching.findLast, h.keys]
    exact hEnum.backwardCurr n (h.keys ▸ hn)
  next key l x r hSplit hEq := by
    have hNext := hEnum.next key l x r (h.keys ▸ hSplit) hEq
    exact (h.searched (Searching.findNext K key CurrNode.new)).trans hNext
  prev key l x r hSplit hEq := by
    have hPrev := hEnum.prev key l x r (h.keys ▸ hSplit) hEq
    exact (h.searched (Searching.findPrev K key CurrNode.new)).trans hPrev

end SameNodes

/-! ## A run of insertions -/

/-- The order from 5 on whose nodes have the same slots. -/
def Btree.slotOrder (t : Btree κ) : Int := max 5 t.header.nodeOrder

theorem Btree.nodeOrder_slotOrder (t : Btree κ) : nodeOrder t.slotOrder = t.order := by
  rw [Btree.order, nodeOrder, nodeOrder, Btree.slotOrder]
  split <;> split <;> omega

theorem Btree.sameNodes_atOrder (t : Btree κ) : SameNodes t (t.atOrder t.slotOrder) :=
  ⟨rfl, t.nodeOrder_slotOrder.symm, rfl, rfl, rfl⟩

/-- The tree would represent the set if it had an order from 5 on. -/
def RepresentsAt (O : OtherTrees κ) {C : Comparison κ} (t : Btree κ) (A : KeySet C) : Prop :=
  Represents O C 1 (t.atOrder t.slotOrder) A

theorem RepresentsAt.flush {C : Comparison κ} {t : Btree κ} {A : KeySet C} (hR : RepresentsAt O t A)
    (flushdb : Bool) : RepresentsAt O (if flushdb then t.flush else t) A := by
  cases flushdb with
  | false => exact hR
  | true =>
    obtain ⟨⟨hOrder, hPos, hSub, hSorted, hBlocks, hKeys, hNodes⟩, hSet⟩ := hR
    exact ⟨⟨hOrder, hPos, hSub, hSorted, hBlocks.setHeader _ _, hKeys, hNodes⟩, hSet⟩

/-- An insertion that leaves no half of a split empty does to the tree what it does to the set. -/
theorem RepresentsAt.insert (hK : K.StrictOrder) {t : Btree κ} {A : KeySet K.comparison}
    (hR : RepresentsAt O t A) {key : DatabaseKey κ} {flushdb : Bool}
    (hCall : FilledInsert K (.insert key flushdb) t) :
    ((gxBtree K).step (.insert key flushdb) t).1 = (KeySet.insertKey hK.strict key.dbKey A).1 ∧
      RepresentsAt O ((gxBtree K).step (.insert key flushdb) t).2
        (KeySet.insertKey hK.strict key.dbKey A).2 := by
  obtain ⟨c, key⟩ := key
  have hC := hK.strict
  have hW := hR.wellFormed
  have hReads : 2 * t.height ≤ gxBtreeMaxNodeReads := hW.reads_le
  have hKeep : SplitsKeep K 1 t key := splitsKeep_of_insertPlaces hK (by omega) hCall.filled
  have hAlloc : (updated flushdb (insertDatabaseKey K ⟨c, key⟩) t).2.f.allocFailed = false := hCall.alloc
  change (updated flushdb (insertDatabaseKey K ⟨c, key⟩) t).1 = _ ∧
    RepresentsAt O (updated flushdb (insertDatabaseKey K ⟨c, key⟩) t).2 _
  have hSet : t.keys = A.keys := hR.keys
  rcases insertDatabaseKey_outcome hK t.nodeOrder_slotOrder hW hReads c key hKeep hKeep with
    ⟨l, x, r, hKeys, hEq, hRun⟩ | ⟨l, r, hKeys, hl, hr, hOut⟩
  · rw [hSet] at hKeys
    rw [updated_error hRun, KeySet.insertKey, KeySet.find_of_split hC hKeys hEq]
    exact ⟨rfl, hR⟩
  · rw [hSet] at hKeys
    rw [KeySet.insertKey, KeySet.find_of_miss hC hKeys hl hr]
    have hInsert := KeySet.insert_of_miss hC hKeys hl hr
    cases hRun : insertDatabaseKey K ⟨c, key⟩ t with
    | ok k t' =>
      rw [hRun] at hOut
      obtain ⟨hOrder, hOut⟩ := hOut
      rw [updated_ok hRun] at hAlloc ⊢
      generalize hEnd : t'.atOrder t.slotOrder = u at hOut
      cases hOut with
      | inserted hNew hKeysNew =>
        subst hEnd
        have hSlots : t'.slotOrder = t.slotOrder := by rw [Btree.slotOrder, hOrder, Btree.slotOrder]
        refine ⟨rfl, RepresentsAt.flush ?_ flushdb⟩
        rw [RepresentsAt, hSlots]
        exact ⟨hNew, hKeysNew.trans hInsert.symm⟩
      | rootLost _ hFailed =>
        subst hEnd
        rw [flush_allocFailed] at hAlloc
        exact absurd (hAlloc.symm.trans hFailed) Bool.false_ne_true
    | error e t' =>
      rw [hRun] at hOut
      obtain ⟨-, hOut⟩ := hOut
      have hFailed : t'.f.allocFailed = true := by
        generalize hEnd : t'.atOrder t.slotOrder = u at hOut
        have hSame := congrArg (fun v => v.f.allocFailed) hEnd
        cases hOut with
        | unharmed => exact hSame
        | keysLost _ hFailed => exact hSame.trans hFailed
      rw [updated, flushed, Exec.bind_error hRun] at hAlloc
      cases e with
      | error e => exact absurd (hAlloc.symm.trans hFailed) Bool.false_ne_true
      | badEntry => exact absurd (hAlloc.symm.trans hFailed) Bool.false_ne_true

theorem inserts_simulates (hK : K.StrictOrder) :
    (gxBtree K).Simulates (KeySet.machine hK.strict) (FilledInsert K) (RepresentsAt O) := by
  constructor
  · intro c t A hR hCall
    cases c with
    | insert key flushdb => exact (hR.insert hK hCall).1
    | _ => exact absurd hCall.insert id
  · intro c t A hR hCall
    cases c with
    | insert key flushdb => exact (hR.insert hK hCall).2
    | _ => exact absurd hCall.insert id

theorem RepresentsAt.enumerates (hK : K.StrictOrder) {t : Btree κ} {A : KeySet K.comparison}
    (hR : RepresentsAt O t A) : Enumerates K t :=
  (enumerates_of_ready hK hR.wellFormed (ready_of_keys hR.wellFormed) hR.wellFormed.reads_le).of_sameNodes
    t.sameNodes_atOrder

theorem RepresentsAt.find (hK : K.StrictOrder) {t : Btree κ} {A : KeySet K.comparison}
    (hR : RepresentsAt O t A) (key : κ) :
    ((gxBtree K).step (.find key) t).1 = KeySet.answer (A.find key) := by
  have hW := hR.wellFormed
  have hHeight := hW.height_le
  have hMax : (t.atOrder t.slotOrder).height ≤ gxBtreeMaxNodeReads := by
    rw [gxBtreeMaxNodeReads]
    omega
  have hRun := find_run key hK hW hMax (CurrNode.live_new (C := K.comparison) 1 _)
  rw [hR.keySet_eq] at hRun
  calc ((gxBtree K).step (.find key) t).1
      = (searched (DataReel.find K key CurrNode.new) (t.atOrder t.slotOrder)).1 :=
        t.sameNodes_atOrder.searched (Searching.find K key CurrNode.new)
    _ = KeySet.answer (A.find key) := (search_agrees hR hRun).1

theorem RepresentsAt.noEmptyNode {C : Comparison κ} {t : Btree κ} {A : KeySet C}
    (hR : RepresentsAt O t A) : t.NoEmptyNode :=
  fun _ ha hNe => hR.wellFormed.subtree.counts ha hNe

/-- In every state of a run of insertions whose splits leave no half empty, no node but the root is empty
and the searches visit the inserted keys. -/
theorem inserts_noEmptyNode (hK : K.StrictOrder) {L : FileLayout} {order keySize numTrees : Int}
    {allocsLeft : Option Nat} {t : Btree κ}
    (hCreate : Btree.create L order keySize numTrees allocsLeft = .ok () t) {calls : List (Call κ)}
    (hCalls : (gxBtree K).Along (FilledInsert K) calls t) :
    ((gxBtree K).run calls t).1 = ((KeySet.machine hK.strict).run calls KeySet.empty).1 ∧
      ((gxBtree K).run calls t).2.keys = ((KeySet.machine hK.strict).run calls KeySet.empty).2.keys ∧
      Enumerates K ((gxBtree K).run calls t).2 ∧ ((gxBtree K).run calls t).2.NoEmptyNode := by
  obtain ⟨roots, hT, -⟩ := Btree.create_connected hCreate
  obtain ⟨O, hW, hKeys, -⟩ := hT.wellFormed (C := K.comparison) (n := t.slotOrder) (Int.le_max_left _ _) 1
  have hStart : RepresentsAt O t (KeySet.empty : KeySet K.comparison) := ⟨hW, hKeys⟩
  obtain ⟨hReplies, hEnd⟩ := (inserts_simulates hK).run hStart hCalls
  exact ⟨hReplies, hEnd.keys, hEnd.enumerates hK, hEnd.noEmptyNode⟩

theorem inserts_noEmptyNode_int :
    let calls : List (Call Int) := [.insert ⟨0, 1⟩ false, .insert ⟨0, 2⟩ false, .insert ⟨0, 3⟩ false,
      .insert ⟨0, 5⟩ false, .insert ⟨0, 4⟩ false]
    let t := intTree 2 none
    ((gxBtree KeyClass.int).run calls t).1 =
        ((KeySet.machine KeyClass.int_strictOrder.strict).run calls KeySet.empty).1 ∧
      ((gxBtree KeyClass.int).run calls t).2.keys =
        ((KeySet.machine KeyClass.int_strictOrder.strict).run calls KeySet.empty).2.keys ∧
      Enumerates KeyClass.int ((gxBtree KeyClass.int).run calls t).2 ∧
      ((gxBtree KeyClass.int).run calls t).2.NoEmptyNode := by
  intro calls t
  have hCreate : Btree.create (.ofRevision .E 2 16) 2 16 1 none = .ok () t := rfl
  refine inserts_noEmptyNode KeyClass.int_strictOrder hCreate ?_
  exact ⟨⟨trivial, by decide, by decide⟩, ⟨trivial, by decide, by decide⟩, ⟨trivial, by decide, by decide⟩,
    ⟨trivial, by decide, by decide⟩, ⟨trivial, by decide, by decide⟩, trivial⟩

/-- The key 1 goes before the keys of a full leaf and up into a new root, with an empty node on its left. -/
theorem inserts_emptyNode :
    let t := ((gxBtree KeyClass.int).run [.insert ⟨0, 5⟩ false, .insert ⟨0, 4⟩ false,
      .insert ⟨0, 3⟩ false, .insert ⟨0, 2⟩ false, .insert ⟨0, 1⟩ false] (intTree 3 none)).2
    t.keys = [1, 2, 3, 4, 5] ∧ ¬ t.NoEmptyNode ∧ ((gxBtree KeyClass.int).step .findFirst t).1 = .zero := by
  intro t
  refine ⟨by decide, ?_, by decide⟩
  intro hFull
  have hNode : t.f.node (t.nodes.getD 1 0) = some ⟨0, []⟩ := by decide
  obtain ⟨n, hn, hCount⟩ := hFull (t.nodes.getD 1 0) (by decide) (by decide)
  obtain rfl := Option.some.inj (hNode.symm.trans hn)
  exact absurd hCount (by decide)

end DataReel
