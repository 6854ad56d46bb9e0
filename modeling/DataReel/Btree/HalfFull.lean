import DataReel.Btree.Reachable
import DataReel.Btree.TreesRun

/-! # Nodes that are at least half full

Balanced deletion keeps every node but the root half full. A split does so
too, except for a tree of odd order where the entry goes one place before the
middle: it goes up itself and the left half is one entry short.
-/

namespace DataReel

open BtreeNode

variable {κ : Type} {O : OtherTrees κ} {K : KeyClass κ} {lo : Nat}

/-- Every node but the root has the keys that `HasFew` asks for. -/
def Btree.HalfFull (t : Btree κ) : Prop :=
  ∀ a ∈ t.nodes, a ≠ t.header.root → ∃ n, t.f.node a = some n ∧ t.order / 2 ≤ n.keyCount

/-- The nodes on the way to the leaf for a new key, each with the location an entry from below
would take in it, the leaf first. -/
def insertPlaces (K : KeyClass κ) (key : κ) (g : NodeMap κ) :
    Nat → FAU → List (BtreeNode κ × Int) → List (BtreeNode κ × Int)
  | 0, _, places => places
  | reads + 1, a, places =>
    if a = 0 then places
    else
      match g a with
      | none => []
      | some n =>
        let found := n.findKeyLocation K key
        -- A key that is there already stops the insertion before any split.
        if found.rv = 0 then []
        else
          match n.getBranch found.keyLocation with
          | none => []
          | some next => insertPlaces K key g reads next ((n, found.keyLocation + 1) :: places)

/-- No full node from the leaf up is split one place before the middle of an odd order. -/
def evenPlaces (m : Nat) (order : Int) : List (BtreeNode κ × Int) → Bool
  | [] => true
  | (n, loc) :: places =>
    !n.isFull m || (!(order % 2 == 1 && loc == order / 2 - 1) && evenPlaces m order places)

/-- The splits of the call leave both halves half full. -/
def EvenSplits (K : KeyClass κ) : Call κ → Btree κ → Prop
  | .insert key _, t => evenPlaces t.order t.header.nodeOrder
      (insertPlaces K key.dbKey t.f.node gxBtreeMaxNodeReads t.header.root []) = true
  | _, _ => True

/-! ## The splits of an insertion -/

def Frame.place (f : Frame κ) : BtreeNode κ × Int := (f.node, f.before.length)

theorem insertPlaces_descent (hK : K.StrictOrder) {key : κ} {g : NodeMap κ} {m h h' : Nat}
    {a a' : FAU} {path path' : List (Frame κ)}
    (hD : Descent K.comparison key g m h a path h' a' path') (reads : Nat) :
    insertPlaces K key g (reads + h) a (path.map Frame.place) =
      insertPlaces K key g (reads + h') a' (path'.map Frame.place) := by
  induction hD with
  | refl => rfl
  | @down h f path h' a' path' hNull hNode hCount hBefore hAfter hRest ih =>
    have hMiss : f.node.findKeyLocation K key = _ := findKeyLocation_miss hK hBefore hAfter
    rw [← ih, ← Nat.add_assoc, insertPlaces, if_neg hNull, hNode]
    simp only [hMiss]
    rw [if_neg (rv_miss _), f.getBranch_child, Int.sub_add_cancel]
    rfl

/-- The nodes on the way are those of the path that an absent key leads along. -/
theorem insertPlaces_eq (hK : K.StrictOrder) {t : Btree κ} (hReads : t.height ≤ gxBtreeMaxNodeReads)
    {key : κ} {path : List (Frame κ)}
    (hD : Descent K.comparison key t.f.node t.order t.height t.header.root [] 0 0 path) :
    insertPlaces K key t.f.node gxBtreeMaxNodeReads t.header.root [] = path.map Frame.place := by
  obtain ⟨n, hn⟩ : ∃ n, gxBtreeMaxNodeReads = n + t.height := ⟨gxBtreeMaxNodeReads - t.height, by omega⟩
  calc insertPlaces K key t.f.node gxBtreeMaxNodeReads t.header.root []
      = insertPlaces K key t.f.node (n + t.height) t.header.root (([] : List (Frame κ)).map Frame.place) := by
        rw [hn]
        rfl
    _ = insertPlaces K key t.f.node (n + 0) 0 (path.map Frame.place) := insertPlaces_descent hK hD n
    _ = path.map Frame.place := by cases n <;> rfl

theorem splitLeft_even {m : Nat} {order : Int} (hOrder : 5 ≤ order) (hm : (m : Int) = order - 1)
    (loc : Nat) (hLoc : ¬ (order % 2 = 1 ∧ (loc : Int) = order / 2 - 1)) :
    m / 2 ≤ splitLeft order loc ∧ m / 2 + splitLeft order loc ≤ m := by
  rw [splitLeft, Int.tdiv_eq_ediv_of_nonneg (by omega)]
  split <;> omega

theorem splitsKeep_of_even {m : Nat} {order : Int} (hOrder : 5 ≤ order) (hm : (m : Int) = order - 1)
    {path : List (Frame κ)} (hEven : evenPlaces m order (path.map Frame.place) = true) :
    splitsKeep (m / 2) m order path := by
  induction path with
  | nil => trivial
  | cons f path ih =>
    intro hFull
    have hIsFull : f.node.isFull m = true := by simp [isFull, hFull]
    rw [List.map_cons, Frame.place, evenPlaces, hIsFull] at hEven
    simp only [Bool.not_true, Bool.false_or, Bool.and_eq_true, Bool.not_eq_true',
      Bool.and_eq_false_iff, beq_eq_false_iff_ne] at hEven
    obtain ⟨hLoc, hRest⟩ := hEven
    obtain ⟨hLeft, hRight⟩ := splitLeft_even hOrder hm f.before.length (by omega)
    exact ⟨hLeft, hRight, ih hRest⟩

theorem splitsKeep_half (hK : K.StrictOrder) {t : Btree κ} (hW : t.WellFormed O K.comparison lo)
    (hReads : t.height ≤ gxBtreeMaxNodeReads) {key : DatabaseKey κ} {flushdb : Bool}
    (hEven : EvenSplits K (.insert key flushdb) t) : SplitsKeep K (t.order / 2) t key.dbKey := by
  intro path hD
  rw [EvenSplits, insertPlaces_eq hK hReads hD] at hEven
  exact splitsKeep_of_even hW.order hW.order_eq hEven

/-! ## Half-full trees -/

section Fewer

variable {lo' : Nat} {g : NodeMap κ} {m : Nat}

theorem Subtree.mono_lo (hLo : lo' ≤ lo) {top h : Nat} {a : FAU} (hT : Subtree g lo m top h a) :
    Subtree g lo' m top h a := by
  induction h generalizing a top with
  | zero => exact Subtree.zero_iff.mpr (Subtree.zero_iff.mp hT)
  | succ h ih =>
    obtain ⟨n, hn, hTop, hm, hB⟩ := hT.at_node
    exact Subtree.mk hT.nonzero hn hTop hm fun b hb => (ih (hB b hb)).mono hLo

theorem Btree.WellFormed.mono {C : Comparison κ} {t : Btree κ} (hW : t.WellFormed O C lo)
    (hLo : lo' ≤ lo) : t.WellFormed O C lo' := by
  refine { hW with subtree := (hW.subtree.mono_lo hLo).mono ?_ }
  rw [rootKeys, rootKeys]
  split <;> omega

theorem Subtree.counts {top h : Nat} {r a : FAU} (hT : Subtree g lo m top h r)
    (ha : a ∈ nodesFrom g h r) (hNe : a ≠ r) : ∃ n, g a = some n ∧ lo ≤ n.keyCount := by
  induction h generalizing r top with
  | zero => cases ha
  | succ h ih =>
    obtain ⟨n, hn, -, -, hB⟩ := hT.at_node
    rw [nodesFrom_at hn] at ha
    obtain ⟨b, hb, ha⟩ := List.mem_flatMap.mp (List.mem_of_ne_of_mem hNe ha)
    by_cases hEq : a = b
    · subst hEq
      cases h with
      | zero => cases ha
      | succ h =>
        obtain ⟨n', hn', hLow, -⟩ := (hB a hb).at_node
        exact ⟨n', hn', hLow⟩
    · exact ih (hB b hb) ha hEq

end Fewer

/-- A tree whose nodes stay half full. -/
def Btree.Half (K : KeyClass κ) (t : Btree κ) : Prop :=
  (∃ O : OtherTrees κ, t.WellFormed O K.comparison (t.order / 2)) ∧ t.f.allocFailed = false ∧
    t.FreeKept

theorem Btree.Half.halfFull {t : Btree κ} (hT : t.Half K) : t.HalfFull := by
  obtain ⟨⟨O, hW⟩, -⟩ := hT
  exact fun a ha hNe => hW.subtree.counts ha hNe

theorem Btree.create_free {L : FileLayout} {order keySize numTrees : Int} {allocsLeft : Option Nat}
    {t : Btree κ} (hOrder : 5 ≤ order)
    (hCreate : Btree.create L order keySize numTrees allocsLeft = .ok () t) : t.FreeKept := by
  have hSame : Btree.create (κ := κ) L order keySize (max numTrees 1) allocsLeft =
      Btree.create L order keySize numTrees allocsLeft := by
    rw [Btree.create, Btree.create, if_neg (show ¬ max numTrees 1 ≤ 0 by omega)]
    split
    · rw [show max numTrees 1 = 1 by omega]
    · rw [show max numTrees 1 = numTrees by omega]
  obtain ⟨H, hForest⟩ := create_forest (C := ⟨fun _ _ => false, fun _ _ => true⟩) hOrder
    (Int.le_max_right numTrees 1) (hSame.trans hCreate)
  exact hForest.free

theorem Btree.Half.step (hK : K.StrictOrder) {t : Btree κ} (hT : t.Half K) {c : Call κ}
    (hCall : BalancedUpdate K c t) (hEven : EvenSplits K c t) : ((gxBtree K).step c t).2.Half K := by
  obtain ⟨⟨O, hW⟩, -, hFree⟩ := hT
  obtain ⟨hUpdate, hAlloc⟩ := hCall
  obtain ⟨hFixed, hFree'⟩ := call_fixed K c hFree
  have hOrder : ((gxBtree K).step c t).2.order = t.order := by
    rw [Btree.order, hFixed.nodeOrder, Btree.order]
  have hOne := hW.mono (few_le_half (Nat.le_refl 1) t)
  have hHeight := hOne.height_le
  have hMax : t.height ≤ gxBtreeMaxNodeReads := by
    rw [gxBtreeMaxNodeReads]
    omega
  have hR : Represents O K.comparison (t.order / 2) t hW.keySet := ⟨hW, rfl⟩
  refine ⟨⟨O, ?_⟩, hAlloc, hFree'⟩
  rw [hOrder]
  cases c with
  | insert key flushdb =>
    exact (insert_agrees hK hR hOne.reads_le key (splitsKeep_half hK hW hMax hEven) flushdb
      hAlloc).2.wellFormed
  | delete key flushdb =>
    exact (delete_agrees_of_run hK hR flushdb (deleteDatabaseKey_run hK (Nat.le_refl _) hW hMax
      (deleteSafe_of_keys hOne key.dbKey) key.rightChild)).2.wellFormed
  | _ => exact absurd hUpdate id

/-- In every state of a run whose splits are even, every node but the root is half full. -/
theorem insertDelete_halfFull (hK : K.StrictOrder) {t : Btree κ}
    (hT : Reachable K (fun c t => BalancedUpdate K c t ∧ EvenSplits K c t) t) : t.HalfFull := by
  have hHalf : t.Half K := by
    induction hT with
    | @created _ _ _ _ _ t hOrder hCreate =>
      obtain ⟨O, hW, -, hFailed, -⟩ := Btree.create_run (C := K.comparison) hOrder hCreate (t.order / 2)
      exact ⟨⟨O, hW⟩, hFailed, Btree.create_free hOrder hCreate⟩
    | called c _ hCall ih => exact ih.step hK hCall.1 hCall.2
  exact hHalf.halfFull

theorem insertDelete_halfFull_int :
    let t := ((gxBtree KeyClass.int).run [.insert ⟨0, 1⟩ false, .insert ⟨0, 2⟩ false,
      .insert ⟨0, 3⟩ false, .insert ⟨0, 4⟩ false, .insert ⟨0, 5⟩ false, .delete ⟨0, 5⟩ true,
      .insert ⟨0, 6⟩ false] (intTree 5 none)).2
    t.HalfFull ∧ t.nodes.length = 3 := by
  intro t
  have hT : Reachable KeyClass.int
      (fun c t => BalancedUpdate KeyClass.int c t ∧ EvenSplits KeyClass.int c t) t :=
    (Reachable.created (by decide) create_intTree).run
      ⟨⟨⟨trivial, by decide⟩, rfl⟩, ⟨⟨trivial, by decide⟩, rfl⟩, ⟨⟨trivial, by decide⟩, rfl⟩,
        ⟨⟨trivial, by decide⟩, rfl⟩, ⟨⟨trivial, by decide⟩, rfl⟩, ⟨⟨trivial, by decide⟩, trivial⟩,
        ⟨⟨trivial, by decide⟩, rfl⟩, trivial⟩
  exact ⟨insertDelete_halfFull KeyClass.int_strictOrder hT, by decide⟩

/-- The key 2 goes into the full leaf 1, 3, 5, 7 one place before the middle and leaves 1 alone. -/
theorem insertDelete_not_halfFull :
    ∃ t : Btree Int, Reachable KeyClass.int (BalancedUpdate KeyClass.int) t ∧ ¬ t.HalfFull := by
  let t := ((gxBtree KeyClass.int).run [.insert ⟨0, 1⟩ false, .insert ⟨0, 3⟩ false,
    .insert ⟨0, 5⟩ false, .insert ⟨0, 7⟩ false, .insert ⟨0, 2⟩ false] (intTree 5 none)).2
  refine ⟨t, ?_, ?_⟩
  · exact (Reachable.created (by decide) create_intTree).run
      ⟨⟨trivial, by decide⟩, ⟨trivial, by decide⟩, ⟨trivial, by decide⟩, ⟨trivial, by decide⟩,
        ⟨trivial, by decide⟩, trivial⟩
  · intro hHalf
    have hNode : t.f.node (t.nodes.getD 1 0) = some ⟨0, [⟨0, 1⟩]⟩ := by decide
    obtain ⟨n, hn, hCount⟩ := hHalf (t.nodes.getD 1 0) (by decide) (by decide)
    obtain rfl := Option.some.inj (hNode.symm.trans hn)
    exact absurd hCount (by decide)

end DataReel
