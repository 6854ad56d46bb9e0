import DataReel.Btree.Reachable

/-! # The tree as a graph of pointers

Each node is reached by one pointer, all leaves lie at the height that the
header gives, and the header counts the nodes as the engine counts blocks.
-/

namespace DataReel

open BtreeNode

variable {κ : Type}

/-- The pointers of a node to children. -/
def BtreeNode.children (n : BtreeNode κ) : List FAU := n.branches.filter fun b => b ≠ 0

/-- The child pointers of the nodes at some addresses. -/
def pointersOf (g : NodeMap κ) (addresses : List FAU) : List FAU :=
  addresses.flatMap fun a => (g a).elim [] children

/-- `a` is the last node of a path of `d` nodes from the root. -/
inductive Btree.Reaches (t : Btree κ) : FAU → Nat → Prop
  | root : t.Reaches t.header.root 1
  | child {a b : FAU} {d : Nat} {n : BtreeNode κ} (hReach : t.Reaches a d) (hn : t.f.node a = some n)
      (hb : b ∈ n.children) : t.Reaches b (d + 1)

/-- Object addresses of all blocks of the file. -/
def IndexFile.blockAddresses (f : IndexFile κ) : List FAU :=
  (List.range ((f.eof - f.heapStart) / f.blockLength).toNat).map fun i : Nat =>
    f.heapStart + f.blockHeaderSize + i * f.blockLength

/-- Those that are neither deleted nor removed. -/
def IndexFile.normalBlocks (f : IndexFile κ) : List FAU :=
  f.blockAddresses.filter fun a => a ∉ f.freeList

structure Btree.TreeShaped (t : Btree κ) : Prop where
  nodup : t.nodes.Nodup
  nodes : ∀ a, a ∈ t.nodes ↔ ∃ d, t.Reaches a d
  stored : ∀ a d, t.Reaches a d → (t.f.node a).isSome
  /-- No node is pointed to twice and none points to the root. -/
  onePointer : (t.header.root :: pointersOf t.f.node t.nodes).Nodup
  /-- A node with a null pointer has no other pointers and lies at the height of the tree. -/
  leaf : ∀ a d n, t.Reaches a d → t.f.node a = some n → 0 ∈ n.branches →
    n.children = [] ∧ (d : Int) = t.header.btreeHeight
  nNodes : t.header.nNodes = t.nodes.length

section Subtree

variable {g : NodeMap κ} {lo m top h : Nat} {a : FAU}

theorem children_of_leaf {n : BtreeNode κ} (hB : ∀ b ∈ n.branches, Subtree g lo m lo 0 b) :
    n.children = [] := by
  refine List.filter_eq_nil_iff.mpr ?_
  intro b hb
  simp [Subtree.zero_iff.mp (hB b hb)]

theorem children_of_inner {n : BtreeNode κ} (hB : ∀ b ∈ n.branches, Subtree g lo m lo (h + 1) b) :
    n.children = n.branches := by
  refine List.filter_eq_self.mpr ?_
  intro b hb
  simpa using (hB b hb).nonzero

/-- Below an address, each node but the one there is pointed to once. -/
theorem nodesFrom_perm_pointers (hT : Subtree g lo m top (h + 1) a) :
    (nodesFrom g (h + 1) a).Perm (a :: pointersOf g (nodesFrom g (h + 1) a)) := by
  induction h generalizing a top with
  | zero =>
    obtain ⟨n, hn, -, -, hB⟩ := hT.at_node
    have hNone : n.branches.flatMap (nodesFrom g 0) = [] := by simp [nodesFrom]
    rw [nodesFrom_at hn, hNone, pointersOf, List.flatMap_singleton, hn, Option.elim_some,
      children_of_leaf hB]
  | succ h ih =>
    obtain ⟨n, hn, -, -, hB⟩ := hT.at_node
    rw [nodesFrom_at hn, pointersOf, List.flatMap_cons, hn, Option.elim_some, children_of_inner hB,
      List.flatMap_assoc]
    refine List.Perm.cons _ ?_
    have hBelow : (n.branches.flatMap (nodesFrom g (h + 1))).Perm
        (n.branches.flatMap fun b => [b] ++ pointersOf g (nodesFrom g (h + 1) b)) :=
      List.Perm.flatMap_left _ fun b hb => ih (hB b hb)
    refine hBelow.trans ((List.flatMap_append_perm _ _ _).symm.trans ?_)
    rw [List.flatMap_singleton']
    exact List.Perm.refl _

end Subtree

namespace Btree

variable {t : Btree κ} {lo : Nat}

theorem reaches_of_mem {h d : Nat} {a b : FAU} {top : Nat} (hReach : t.Reaches a d)
    (hT : Subtree t.f.node lo t.order top h a) (hb : b ∈ nodesFrom t.f.node h a) :
    ∃ d', t.Reaches b d' := by
  induction h generalizing a d top with
  | zero => cases hb
  | succ h ih =>
    obtain ⟨n, hn, -, -, hB⟩ := hT.at_node
    rw [nodesFrom_at hn] at hb
    rcases List.mem_cons.mp hb with rfl | hb
    · exact ⟨d, hReach⟩
    · obtain ⟨c, hc, hb⟩ := List.mem_flatMap.mp hb
      cases h with
      | zero => cases hb
      | succ h =>
        have hChild : c ∈ n.children := by
          rw [children_of_inner hB]
          exact hc
        exact ih (.child hReach hn hChild) (hB c hc) hb

end Btree

namespace Btree.WellFormed

variable {O : OtherTrees κ} {C : Comparison κ} {lo : Nat} {t : Btree κ} (hW : t.WellFormed O C lo)

include hW

theorem nodes_perm_pointers : t.nodes.Perm (t.header.root :: pointersOf t.f.node t.nodes) := by
  have hPos := hW.height_pos
  have hEq := hW.height_eq
  obtain ⟨h, hh⟩ : ∃ h, t.height = h + 1 := ⟨t.height - 1, by omega⟩
  have hT := hW.subtree
  rw [Btree.nodes, hh]
  rw [hh] at hT
  exact nodesFrom_perm_pointers hT

theorem reaches_subtree {a : FAU} {d : Nat} (hReach : t.Reaches a d) :
    ∃ h top, d + h = t.height ∧ Subtree t.f.node lo t.order top (h + 1) a := by
  have hPos := hW.height_pos
  have hEq := hW.height_eq
  induction hReach with
  | root =>
    obtain ⟨h, hh⟩ : ∃ h, t.height = h + 1 := ⟨t.height - 1, by omega⟩
    refine ⟨h, rootKeys lo t.height, by omega, ?_⟩
    rw [← hh]
    exact hW.subtree
  | child hReach hn hb ih =>
    obtain ⟨h, top, hd, hT⟩ := ih
    obtain ⟨n, hn', -, -, hB⟩ := hT.at_node
    obtain rfl := Option.some.inj (hn.symm.trans hn')
    obtain ⟨hBranch, hNonzero⟩ := List.mem_filter.mp hb
    have hChild := hB _ hBranch
    cases h with
    | zero => simp [Subtree.zero_iff.mp hChild] at hNonzero
    | succ h => exact ⟨h, lo, by omega, hChild⟩

theorem mem_nodes_iff (a : FAU) : a ∈ t.nodes ↔ ∃ d, t.Reaches a d := by
  constructor
  · exact fun ha => reaches_of_mem .root hW.subtree ha
  · rintro ⟨d, hReach⟩
    have hPerm := hW.nodes_perm_pointers
    induction hReach with
    | root => exact hPerm.symm.subset List.mem_cons_self
    | child hReach hn hb ih =>
      refine hPerm.symm.subset (List.mem_cons_of_mem _ (List.mem_flatMap.mpr ⟨_, ih, ?_⟩))
      rwa [hn]

theorem treeShaped : t.TreeShaped := by
  refine ⟨hW.blocks.nodes_nodup, hW.mem_nodes_iff, ?_, ?_, ?_, hW.nNodes⟩
  · intro a d hReach
    obtain ⟨h, top, -, hT⟩ := hW.reaches_subtree hReach
    obtain ⟨n, hn, -⟩ := hT.at_node
    rw [hn]
    rfl
  · exact hW.nodes_perm_pointers.nodup_iff.mp hW.blocks.nodes_nodup
  · intro a d n hReach hn hZero
    obtain ⟨h, top, hd, hT⟩ := hW.reaches_subtree hReach
    obtain ⟨n', hn', -, -, hB⟩ := hT.at_node
    obtain rfl := Option.some.inj (hn.symm.trans hn')
    cases h with
    | zero => exact ⟨children_of_leaf hB, by rw [← hW.height_eq, ← hd, Nat.add_zero]⟩
    | succ h => exact absurd rfl (hB 0 hZero).nonzero

end Btree.WellFormed

/-! ## Blocks -/

theorem IndexFile.Blocks.normalBlocks_length {O : OtherTrees κ} {f : IndexFile κ} {nodes : List FAU}
    (hF : f.Blocks O nodes) : f.normalBlocks.length = nodes.length + O.addresses.length := by
  obtain ⟨count, hCount⟩ : ∃ n, n = f.freeList.length + nodes.length + O.addresses.length := ⟨_, rfl⟩
  have hEof := hF.count
  rw [← hCount] at hEof
  have hLength : 0 < f.blockLength := Int.lt_trans hF.header_pos hF.header_lt
  have hNumber : ((f.eof - f.heapStart) / f.blockLength).toNat = count := by
    rw [hEof, add_sub_cancel_left, Int.mul_ediv_cancel _ (Int.ne_of_gt hLength),
      Int.toNat_natCast]
  have hNodup : f.blockAddresses.Nodup := by
    rw [IndexFile.blockAddresses]
    refine List.Nodup.map ?_ List.nodup_range
    intro i j hij
    have hMul : (i : Int) * f.blockLength = j * f.blockLength := Int.add_left_cancel hij
    exact Int.ofNat_inj.mp (Int.eq_of_mul_eq_mul_right (Int.ne_of_gt hLength) hMul)
  have hSub : ∀ a ∈ f.freeList, a ∈ f.blockAddresses := by
    intro a ha
    have hMem := List.mem_append_left nodes ha
    obtain ⟨i, hi⟩ := hF.grid a hMem
    have hBelow := (hF.inFile a hMem).2
    have hPos := hF.header_pos
    have hLess : (i : Int) * f.blockLength < count * f.blockLength := by
      rw [hi] at hBelow
      omega
    refine List.mem_map.mpr ⟨i, List.mem_range.mpr ?_, hi.symm⟩
    rw [hNumber]
    exact Int.ofNat_lt.mp (Int.lt_of_mul_lt_mul_right hLess (Int.le_of_lt hLength))
  have hFree : (f.blockAddresses.filter fun a => a ∈ f.freeList).Perm f.freeList := by
    refine (List.perm_ext_iff_of_nodup (hNodup.filter _) ?_).mpr fun a => ?_
    · exact (List.nodup_append.mp hF.nodup).1
    · rw [List.mem_filter, decide_eq_true_eq]
      exact ⟨And.right, fun ha => ⟨hSub a ha, ha⟩⟩
  have hAll : f.blockAddresses.length = count := by
    rw [IndexFile.blockAddresses, List.length_map, List.length_range, hNumber]
  have hSum := List.length_eq_length_filter_add (l := f.blockAddresses) fun a => a ∈ f.freeList
  have hRest : (f.blockAddresses.filter fun a => !decide (a ∈ f.freeList)) = f.normalBlocks := by
    simp [IndexFile.normalBlocks]
  rw [hAll, hFree.length_eq, hRest] at hSum
  omega

/-! ## Insertion and balanced deletion -/

/-- Along every run the tree keeps its shape, and the blocks in use are its nodes and the roots of
the other trees of the file. -/
theorem insertDelete_treeShaped {K : KeyClass κ} (hK : K.StrictOrder) {L : FileLayout}
    {order keySize numTrees : Int} {allocsLeft : Option Nat} {t : Btree κ} (hOrder : 5 ≤ order)
    (hCreate : Btree.create L order keySize numTrees allocsLeft = .ok () t) {calls : List (Call κ)}
    (hCalls : (gxBtree K).Along (BalancedUpdate K) calls t) :
    ((gxBtree K).run calls t).2.TreeShaped ∧
      (((gxBtree K).run calls t).2.f.normalBlocks.length : Int) =
        ((gxBtree K).run calls t).2.header.nNodes + (max numTrees 1 - 1) := by
  obtain ⟨O, hW, -, -, hOthers⟩ := Btree.create_run (C := K.comparison) hOrder hCreate 1
  have hBalanced : (gxBtree K).Along (fun c t => c.Balanced ∧ NoAllocFailure K c t) calls t :=
    hCalls.mono fun c _ t hCall => ⟨hCall.1.balanced, hCall.2⟩
  obtain ⟨-, hLast⟩ := (balanced_simulates hK).run (t := hW.keySet) ⟨hW, rfl⟩ hBalanced
  have hW' := hLast.wellFormed
  refine ⟨hW'.treeShaped, ?_⟩
  rw [hW'.blocks.normalBlocks_length, hW'.nNodes]
  omega

theorem insertDelete_treeShaped_int :
    let t := ((gxBtree KeyClass.int).run [.insert ⟨0, 1⟩ false, .insert ⟨0, 2⟩ false,
      .insert ⟨0, 3⟩ false, .insert ⟨0, 4⟩ false, .insert ⟨0, 5⟩ false, .insert ⟨0, 6⟩ false,
      .delete ⟨0, 3⟩ false]
      (intTree 5 none)).2
    t.TreeShaped ∧ (t.f.normalBlocks.length : Int) = t.header.nNodes + (max 1 1 - 1) ∧
      t.header.nNodes = 3 := by
  intro t
  obtain ⟨hShaped, hBlocks⟩ := insertDelete_treeShaped KeyClass.int_strictOrder (by decide)
    create_intTree (show (gxBtree KeyClass.int).Along (BalancedUpdate KeyClass.int)
      [.insert ⟨0, 1⟩ false, .insert ⟨0, 2⟩ false, .insert ⟨0, 3⟩ false, .insert ⟨0, 4⟩ false,
        .insert ⟨0, 5⟩ false, .insert ⟨0, 6⟩ false, .delete ⟨0, 3⟩ false] (intTree 5 none) from
      ⟨⟨trivial, by decide⟩, ⟨trivial, by decide⟩, ⟨trivial, by decide⟩, ⟨trivial, by decide⟩,
        ⟨trivial, by decide⟩, ⟨trivial, by decide⟩, ⟨trivial, by decide⟩, trivial⟩)
  exact ⟨hShaped, hBlocks, by decide⟩

end DataReel
