import DataReel.Btree.Descent
import DataReel.Btree.State

/-! # Well-formed trees

What every call may rely on: the blocks of the index file are apart, the tree
is ordered and of one height, and the header counts its keys and nodes.
-/

namespace DataReel

open BtreeNode

variable {κ : Type}

/-- Nodes of other trees in the same file, by their addresses. -/
structure OtherTrees (κ : Type) where
  addresses : List FAU
  node : NodeMap κ

def OtherTrees.none : OtherTrees κ := ⟨[], fun _ => .none⟩

variable {O : OtherTrees κ}

/-- The blocks that hold `nodes` and those on the free space list are distinct blocks of the
file. With the blocks of other trees, which keep their nodes, they are all it has. -/
structure IndexFile.Blocks (f : IndexFile κ) (O : OtherTrees κ) (nodes : List FAU) : Prop where
  nodup : (f.freeList ++ nodes).Nodup
  inFile : ∀ a ∈ f.freeList ++ nodes, (0 : Int) < a ∧ f.eof > a
  eof_pos : 0 < f.eof
  eof_le : f.eof ≤ maxFAU
  header_pos : 0 < f.blockHeaderSize
  header_lt : f.blockHeaderSize < f.blockLength
  others : ∀ a ∈ O.addresses, a ∉ f.freeList ++ nodes ∧ f.eof > a ∧ f.node a = O.node a
  grid : ∀ a ∈ f.freeList ++ nodes,
    ∃ i : Nat, a = f.heapStart + f.blockHeaderSize + i * f.blockLength
  count : f.eof = f.heapStart +
    (f.freeList.length + nodes.length + O.addresses.length : Nat) * f.blockLength

namespace IndexFile.Blocks

variable {f f' : IndexFile κ} {nodes nodes' : List FAU}

theorem perm (hF : f.Blocks O nodes) (hPerm : nodes.Perm nodes') : f.Blocks O nodes' where
  nodup := (hPerm.append_left f.freeList).nodup_iff.mp hF.nodup
  inFile a ha := hF.inFile a ((hPerm.append_left f.freeList).mem_iff.mpr ha)
  eof_pos := hF.eof_pos
  eof_le := hF.eof_le
  header_pos := hF.header_pos
  header_lt := hF.header_lt
  others a ha := by
    rw [← (hPerm.append_left f.freeList).mem_iff]
    exact hF.others a ha
  grid a ha := hF.grid a ((hPerm.append_left f.freeList).mem_iff.mpr ha)
  count := hPerm.length_eq ▸ hF.count

theorem nodes_nodup (hF : f.Blocks O nodes) : nodes.Nodup := (List.nodup_append.mp hF.nodup).2.1

theorem setNode (hF : f.Blocks O nodes) {a : FAU} (ha : a ∈ nodes) (n : BtreeNode κ) :
    (f.setNode a n).Blocks O nodes := by
  refine ⟨hF.nodup, hF.inFile, hF.eof_pos, hF.eof_le, hF.header_pos, hF.header_lt, ?_, hF.grid,
    hF.count⟩
  intro b hb
  obtain ⟨hApart, hBelow, hNode⟩ := hF.others b hb
  refine ⟨hApart, hBelow, ?_⟩
  rw [IndexFile.setNode_other, hNode]
  rintro rfl
  exact hApart (List.mem_append_right _ ha)

theorem reclaim {a : FAU} {rest : List FAU} (hF : f.Blocks O nodes) (hList : f.freeList = a :: rest) :
    (f.reclaim rest).Blocks O (a :: nodes) := by
  have hPerm : (f.freeList ++ nodes).Perm (rest ++ a :: nodes) := by
    rw [hList]
    exact List.perm_middle.symm
  refine ⟨hPerm.nodup_iff.mp hF.nodup, ?_, hF.eof_pos, hF.eof_le, hF.header_pos, hF.header_lt, ?_,
    ?_, ?_⟩
  · exact fun b hb => hF.inFile b (hPerm.mem_iff.mpr hb)
  · intro b hb
    change b ∉ rest ++ a :: nodes ∧ _
    rw [← hPerm.mem_iff]
    exact hF.others b hb
  · exact fun b hb => hF.grid b (hPerm.mem_iff.mpr hb)
  · have hCount := hF.count
    have hLength := hPerm.length_eq
    rw [List.length_append, List.length_append] at hLength
    rwa [hLength] at hCount

theorem extend (hF : f.Blocks O nodes) (hRoom : f.eof + f.blockLength ≤ maxFAU) :
    f.extend.Blocks O ((f.eof + f.blockHeaderSize) :: nodes) := by
  have hPerm : (f.freeList ++ (f.eof + f.blockHeaderSize) :: nodes).Perm
      ((f.eof + f.blockHeaderSize) :: (f.freeList ++ nodes)) := List.perm_middle
  have hEof := hF.eof_pos
  have hPos := hF.header_pos
  have hLt := hF.header_lt
  have hCount := hF.count
  have hFresh : f.eof + f.blockHeaderSize ∉ f.freeList ++ nodes := by
    intro hMem
    have hBelow := (hF.inFile _ hMem).2
    omega
  refine ⟨hPerm.nodup_iff.mpr (List.nodup_cons.mpr ⟨hFresh, hF.nodup⟩), ?_, ?_, hRoom, hPos, hLt,
    ?_, ?_, ?_⟩
  · intro b hb
    change (0 : Int) < b ∧ f.eof + f.blockLength > b
    rcases List.mem_cons.mp (hPerm.mem_iff.mp hb) with rfl | hb
    · omega
    · have hOld := hF.inFile b hb
      omega
  · change 0 < f.eof + f.blockLength
    omega
  · intro b hb
    obtain ⟨hApart, hBelow, hNode⟩ := hF.others b hb
    have hNe : b ≠ f.eof + f.blockHeaderSize := Ne.symm (Int.ne_of_gt (by omega))
    refine ⟨?_, ?_, ?_⟩
    · intro hMem
      rcases List.mem_cons.mp (hPerm.mem_iff.mp hMem) with hEq | hMem
      · exact hNe hEq
      · exact hApart hMem
    · change f.eof + f.blockLength > b
      omega
    · exact (Function.update_of_ne hNe _ _).trans hNode
  · intro b hb
    rcases List.mem_cons.mp (hPerm.mem_iff.mp hb) with rfl | hb
    · refine ⟨f.freeList.length + nodes.length + O.addresses.length, ?_⟩
      change f.eof + f.blockHeaderSize = f.heapStart + f.blockHeaderSize + _ * f.blockLength
      rw [hCount]
      omega
    · exact hF.grid b hb
  · change f.eof + f.blockLength = f.heapStart + (f.freeList.length + (nodes.length + 1) +
      O.addresses.length : Nat) * f.blockLength
    rw [hCount, show f.freeList.length + (nodes.length + 1) + O.addresses.length =
      f.freeList.length + nodes.length + O.addresses.length + 1 by omega, Int.natCast_succ,
      Int.add_mul, Int.one_mul, Int.add_assoc]

theorem alloc (hF : f.Blocks O nodes) :
    (f.alloc.1 = 0 ∧ f.alloc.2 = f.failAlloc) ∨
    (f.alloc.1 ≠ 0 ∧ f.alloc.2.Blocks O (f.alloc.1 :: nodes) ∧
      f.alloc.2.allocFailed = f.allocFailed ∧
      ∀ b, b ≠ f.alloc.1 → f.alloc.2.node b = f.node b) := by
  rcases f.alloc_cases with h | ⟨a, rest, hList, h⟩ | ⟨hList, hRoom, h⟩
  · rw [h]
    exact .inl ⟨rfl, rfl⟩
  · rw [h]
    have hPos := (hF.inFile a (by simp [hList])).1
    exact .inr ⟨(Int.ne_of_gt hPos), hF.reclaim hList, rfl, fun _ _ => rfl⟩
  · rw [h]
    have hEof := hF.eof_pos
    have hPos := hF.header_pos
    refine .inr ⟨?_, hF.extend hRoom, rfl, fun b hb => Function.update_of_ne hb _ _⟩
    change f.eof + f.blockHeaderSize ≠ 0
    omega

theorem remove {a : FAU} (hF : f.Blocks O (a :: nodes)) (ha : (f.node a).isSome) :
    (f.remove a).1 = true ∧ (f.remove a).2.Blocks O nodes ∧
      (f.remove a).2 = { f with freeList := a :: f.freeList } := by
  obtain ⟨hNodup, hIn, hEof, hLe, hPos, hLt, hOthers, hGrid, hCount⟩ := hF
  have hPerm : (f.freeList ++ a :: nodes).Perm (a :: f.freeList ++ nodes) := List.perm_middle
  have hFree : a ∉ f.freeList := by
    intro hMem
    exact List.disjoint_of_nodup_append hNodup hMem List.mem_cons_self
  rw [IndexFile.remove, if_pos ⟨ha, hFree⟩]
  refine ⟨rfl, ⟨hPerm.nodup_iff.mp hNodup, ?_, hEof, hLe, hPos, hLt, ?_, ?_, ?_⟩, rfl⟩
  · exact fun b hb => hIn b (hPerm.mem_iff.mpr hb)
  · intro b hb
    change b ∉ a :: f.freeList ++ nodes ∧ _
    rw [← hPerm.mem_iff]
    exact hOthers b hb
  · exact fun b hb => hGrid b (hPerm.mem_iff.mpr hb)
  · have hLength := hPerm.length_eq
    rw [List.length_append, List.length_append] at hLength
    rwa [hLength] at hCount

/-- What the blocks say does not depend on the headers in the static area. -/
theorem setHeader (hF : f.Blocks O nodes) (a : FAU) (h : BtreeHeader) :
    (f.setHeader a h).Blocks O nodes :=
  ⟨hF.nodup, hF.inFile, hF.eof_pos, hF.eof_le, hF.header_pos, hF.header_lt, hF.others, hF.grid,
    hF.count⟩

theorem failAlloc (hF : f.Blocks O nodes) : f.failAlloc.Blocks O nodes :=
  ⟨hF.nodup, hF.inFile, hF.eof_pos, hF.eof_le, hF.header_pos, hF.header_lt, hF.others, hF.grid,
    hF.count⟩

end IndexFile.Blocks

namespace Btree

def height (t : Btree κ) : Nat := t.header.btreeHeight.toNat

/-- The keys that can be reached from the root, in order. -/
def keys (t : Btree κ) : List κ := keysFrom t.f.node t.height t.header.root

/-- The addresses of the nodes that can be reached from the root. -/
def nodes (t : Btree κ) : List FAU := nodesFrom t.f.node t.height t.header.root

/-! ## A tree from a place in it -/

section Path

variable {t : Btree κ} {lo : Nat} {h : Nat} {a : FAU} {path : List (Frame κ)}
  (hP : PathTo t.f.node lo t.order t.header.root h a path) (hHeight : path.length + h = t.height)

include hP hHeight

theorem keys_of_path : t.keys = keysBefore t.f.node h path ++ keysFrom t.f.node h a ++
    keysAfter t.f.node h path := by
  rw [keys, ← hHeight]
  exact keysFrom_fill hP

theorem nodes_of_path : t.nodes.Perm (pathNodes t.f.node h path ++ nodesFrom t.f.node h a) := by
  rw [nodes, ← hHeight]
  exact nodesFrom_fill hP

end Path

/-- A tree that a call may start from. Nodes other than the root hold at least `lo` keys. -/
structure WellFormed (O : OtherTrees κ) (C : Comparison κ) (lo : Nat) (t : Btree κ) : Prop where
  order : 5 ≤ t.header.nodeOrder
  height_pos : 0 < t.header.btreeHeight
  subtree : Subtree t.f.node lo t.order (rootKeys lo t.height) t.height t.header.root
  sorted : C.Sorted t.keys
  blocks : t.f.Blocks O t.nodes
  nKeys : t.header.nKeys = t.keys.length
  nNodes : t.header.nNodes = t.nodes.length

namespace WellFormed

variable {C : Comparison κ} {lo : Nat} {t : Btree κ}

theorem height_eq (hW : t.WellFormed O C lo) : (t.height : Int) = t.header.btreeHeight := by
  have := hW.height_pos
  rw [height]
  omega

theorem located (hW : t.WellFormed O C lo) :
    Located C t.f.node lo t.order t.header.root t.height t.header.root [] :=
  ⟨rfl, hW.subtree, by simpa [keysBefore, keysAfter, Btree.keys] using hW.sorted⟩

theorem order_eq (hW : t.WellFormed O C lo) : (t.order : Int) = t.header.nodeOrder - 1 :=
  nodeOrder_of_le hW.order

end WellFormed

/-- The tree with another order in its header. -/
def atOrder (t : Btree κ) (n : Int) : Btree κ := { t with header := { t.header with nodeOrder := n } }

theorem atOrder_self {t : Btree κ} {n : Int} (hOrder : t.header.nodeOrder = n) : t.atOrder n = t := by
  rw [← hOrder]
  rfl

/-- A tree seen from a subtree of height `h` whose top node may hold as few keys as `top`. -/
structure Placed (O : OtherTrees κ) (C : Comparison κ) (lo top : Nat) (t : Btree κ) (h : Nat) (a : FAU)
    (path : List (Frame κ)) : Prop where
  order : 5 ≤ t.header.nodeOrder
  height : t.header.btreeHeight = (path.length + h : Nat)
  reach : PathTo t.f.node lo t.order t.header.root h a path
  sub : Subtree t.f.node lo t.order top h a
  sorted : C.Sorted (keysBefore t.f.node h path ++ keysFrom t.f.node h a ++
    keysAfter t.f.node h path)
  blocks : t.f.Blocks O (pathNodes t.f.node h path ++ nodesFrom t.f.node h a)
  nKeys : t.header.nKeys = (keysBefore t.f.node h path ++ keysFrom t.f.node h a ++
    keysAfter t.f.node h path).length
  nNodes : t.header.nNodes = (pathNodes t.f.node h path ++ nodesFrom t.f.node h a).length

namespace Placed

variable {C : Comparison κ} {lo top h : Nat} {t : Btree κ} {a : FAU} {path : List (Frame κ)}

theorem height_eq (hP : Placed O C lo top t h a path) : t.height = path.length + h := by
  rw [Btree.height, hP.height, Int.toNat_natCast]

theorem keys_eq (hP : Placed O C lo top t h a path) :
    t.keys = keysBefore t.f.node h path ++ keysFrom t.f.node h a ++ keysAfter t.f.node h path :=
  keys_of_path hP.reach hP.height_eq.symm

theorem mono {top' : Nat} (hP : Placed O C lo top t h a path) (hTop : top' ≤ top) :
    Placed O C lo top' t h a path :=
  { hP with sub := hP.sub.mono hTop }

theorem wellFormed (hP : Placed O C lo (topKeys lo h path) t h a path) (hPos : 0 < path.length + h) :
    t.WellFormed O C lo := by
  have hPerm := nodes_of_path hP.reach hP.height_eq.symm
  have hHeight := hP.height
  refine ⟨hP.order, by omega, ?_, ?_, hP.blocks.perm hPerm.symm, ?_, ?_⟩
  · rw [hP.height_eq]
    exact Subtree.fill hP.reach hP.sub
  · rw [hP.keys_eq]
    exact hP.sorted
  · rw [hP.keys_eq]
    exact hP.nKeys
  · rw [hPerm.length_eq]
    exact hP.nNodes

theorem of_wellFormed (hW : t.WellFormed O C lo) :
    Placed O C lo (rootKeys lo t.height) t t.height t.header.root [] := by
  refine ⟨hW.order, ?_, rfl, hW.subtree, ?_, hW.blocks, ?_, hW.nNodes⟩
  · simpa using hW.height_eq.symm
  · simpa [keysBefore, keysAfter, keys] using hW.sorted
  · simpa [keysBefore, keysAfter, keys] using hW.nKeys

end Placed

def WellFormed.keySet {C : Comparison κ} {lo : Nat} {t : Btree κ} (hW : t.WellFormed O C lo) :
    KeySet C := ⟨t.keys, hW.sorted⟩

end Btree

theorem four_le_order (t : Btree κ) : 4 ≤ t.order := four_le_nodeOrder _

theorem few_le_half {lo : Nat} (hLo : lo ≤ 1) (t : Btree κ) : lo ≤ t.order / 2 := by
  have := four_le_order t
  omega

/-- The keys left of an entry that a search found. -/
def Frame.keysLeft (g : NodeMap κ) (h : Nat) (f : Frame κ) (path : List (Frame κ)) : List κ :=
  keysBefore g (h + 1) path ++ (initKeys (keysFrom g h) f.leftChild f.before ++ keysFrom g h f.child)

/-- The keys right of the entry. -/
def Frame.keysRight (g : NodeMap κ) (h : Nat) (f : Frame κ) (e : DatabaseKey κ)
    (path : List (Frame κ)) : List κ :=
  keysFrom g h e.rightChild ++ tailKeys (keysFrom g h) f.after ++ keysAfter g (h + 1) path

/-- The keys of a tree split at an entry of a node that a path leads to. -/
theorem Btree.keys_at_entry {t : Btree κ} {lo h : Nat} {f : Frame κ} {e : DatabaseKey κ}
    {path : List (Frame κ)} (hn : t.f.node f.address = some ⟨f.leftChild, f.before ++ e :: f.after⟩)
    (hP : PathTo t.f.node lo t.order t.header.root (h + 1) f.address path)
    (hHeight : path.length + (h + 1) = t.height) :
    t.keys = f.keysLeft t.f.node h path ++ e.dbKey :: f.keysRight t.f.node h e path := by
  rw [Btree.keys_of_path hP hHeight, keysFrom_at hn, inorder_append, Frame.keysLeft,
    Frame.keysRight, Frame.child, tailKeys_cons]
  simp

theorem Hit.keys {C : Comparison κ} {key : κ} {t : Btree κ} {lo h : Nat} {f : Frame κ}
    {e : DatabaseKey κ} {path : List (Frame κ)} (hHit : Hit C key t.f.node f e)
    (hP : PathTo t.f.node lo t.order t.header.root (h + 1) f.address path)
    (hHeight : path.length + (h + 1) = t.height) :
    t.keys = f.keysLeft t.f.node h path ++ e.dbKey :: f.keysRight t.f.node h e path :=
  Btree.keys_at_entry hHit.node hP hHeight

theorem Hit.count {C : Comparison κ} {key : κ} {g : NodeMap κ} {lo m h : Nat} {root : FAU}
    {f : Frame κ} {e : DatabaseKey κ} {path : List (Frame κ)} (hHit : Hit C key g f e)
    (hL : Located C g lo m root (h + 1) f.address path) :
    (f.before ++ e :: f.after).length ≤ m := by
  obtain ⟨n, hn, -, hm, -⟩ := hL.sub.at_node
  obtain rfl := Option.some.inj (hHit.node.symm.trans hn)
  exact hm

theorem around_nil (C : Comparison κ) (key : κ) (g : NodeMap κ) (h : Nat) : Around C key g h [] := by
  simp [Around, keysBefore, keysAfter]

/-! ## Where a search from the root ends -/

section Search

variable {C : Comparison κ} {lo : Nat}

/-- The search for a key ends at the entry `e` of a node of height `h + 1`. -/
structure Btree.EntryAt (C : Comparison κ) (t : Btree κ) (key : κ) (h : Nat) (f : Frame κ)
    (e : DatabaseKey κ) (path : List (Frame κ)) : Prop where
  descent : Descent C key t.f.node t.order t.height t.header.root [] (h + 1) f.address path
  hit : Hit C key t.f.node f e

namespace Btree.EntryAt

variable {t : Btree κ} {key : κ} {h : Nat} {f : Frame κ} {e : DatabaseKey κ} {path : List (Frame κ)}
  (hE : t.EntryAt C key h f e path)

include hE

theorem height : path.length + (h + 1) = t.height := by simpa using hE.descent.height

theorem located (hW : t.WellFormed O C lo) :
    Located C t.f.node lo t.order t.header.root (h + 1) f.address path := hE.descent.located hW.located

theorem around (hC : C.Strict) (hW : t.WellFormed O C lo) : Around C key t.f.node (h + 1) path :=
  hE.descent.around hC hW.located (around_nil _ _ _ _)

theorem keys (hW : t.WellFormed O C lo) :
    t.keys = f.keysLeft t.f.node h path ++ e.dbKey :: f.keysRight t.f.node h e path :=
  hE.hit.keys (hE.located hW).reach hE.height

end Btree.EntryAt

/-- `e` is an entry of a node of height `h + 1` of the tree. -/
structure Btree.HasEntry (C : Comparison κ) (lo : Nat) (t : Btree κ) (h : Nat) (f : Frame κ)
    (e : DatabaseKey κ) (path : List (Frame κ)) : Prop where
  node : t.f.node f.address = some ⟨f.leftChild, f.before ++ e :: f.after⟩
  located : Located C t.f.node lo t.order t.header.root (h + 1) f.address path
  height : path.length + (h + 1) = t.height

theorem Btree.EntryAt.hasEntry {t : Btree κ} {key : κ} {h : Nat} {f : Frame κ} {e : DatabaseKey κ}
    {path : List (Frame κ)} (hE : t.EntryAt C key h f e path) (hW : t.WellFormed O C lo) :
    t.HasEntry C lo h f e path := ⟨hE.hit.node, hE.located hW, hE.height⟩

namespace Btree.HasEntry

variable {t : Btree κ} {h : Nat} {f : Frame κ} {e : DatabaseKey κ} {path : List (Frame κ)}
  (hE : t.HasEntry C lo h f e path)

include hE

theorem keys : t.keys = f.keysLeft t.f.node h path ++ e.dbKey :: f.keysRight t.f.node h e path :=
  Btree.keys_at_entry hE.node hE.located.reach hE.height

theorem entryAt (hC : C.Strict) (hW : t.WellFormed O C lo) : t.EntryAt C e.dbKey h f e path := by
  have hSplit := Comparison.sorted_append.mp (hE.keys ▸ hW.sorted)
  obtain ⟨-, hRight, hLeft⟩ := hSplit
  have hAbove := (Comparison.sorted_cons.mp hRight).1
  have hBelow : ∀ x ∈ f.keysLeft t.f.node h path, C.lt x e.dbKey = true :=
    fun x hx => hLeft x hx _ List.mem_cons_self
  refine ⟨?_, hE.node, hC.eqv_refl _, ?_, ?_⟩
  · rw [← hE.height]
    refine hE.located.reach.descent ⟨fun x hx => hBelow x ?_, fun x hx => hAbove x ?_⟩
    · exact List.mem_append_left _ hx
    · exact List.mem_append_right _ hx
  · intro x hx
    apply hBelow
    exact List.mem_append_right _ (List.mem_append_left _ (BtreeNode.mem_initKeys _ hx))
  · intro x hx
    apply hAbove
    exact List.mem_append_left _ (List.mem_append_right _ (BtreeNode.mem_tailKeys _ hx))

end Btree.HasEntry

theorem Btree.WellFormed.search {t : Btree κ} (hC : C.Strict) (hW : t.WellFormed O C lo) (key : κ) :
    (∃ h f e path, t.EntryAt C key h f e path) ∨
    ∃ path, Descent C key t.f.node t.order t.height t.header.root [] 0 0 path ∧
      t.keys = keysBefore t.f.node 0 path ++ keysAfter t.f.node 0 path ∧
      Around C key t.f.node 0 path := by
  rcases hW.located.search hC key with ⟨h, f, e, path, hD, hHit⟩ | ⟨path, hD⟩
  · exact .inl ⟨h, f, e, path, hD, hHit⟩
  · have hHeight : path.length + 0 = t.height := by simpa using hD.height
    have hKeys := Btree.keys_of_path (hD.located hW.located).reach hHeight
    rw [keysFrom, List.append_nil] at hKeys
    exact .inr ⟨path, hD, hKeys, hD.around hC hW.located (around_nil _ _ _ _)⟩

end Search

/-! ## Running the node operations -/

section Run

variable {t : Btree κ} {a : FAU} {n : BtreeNode κ}

theorem readNode_run (hn : t.f.node a = some n) (hm : n.keyCount ≤ t.order) :
    readNode a t = .ok n t := by
  simp only [readNode, hn]
  rw [if_neg (by omega)]

theorem removeNode_run (rest : BtreeM κ Unit) (h : (t.f.remove a).1 = true) :
    removeNode a rest t = rest { t with f := (t.f.remove a).2 } := by
  rw [removeNode, if_pos h]

@[simp] theorem access_some {α : Type} (x : α) (t : Btree κ) : access (some x) t = .ok x t := rfl

@[simp] theorem access_none {α : Type} (t : Btree κ) :
    (access none : BtreeM κ α) t = .error .badEntry t := rfl

@[simp] theorem fail_run {α : Type} (e : DatabaseError) (t : Btree κ) :
    (fail e : BtreeM κ α) t = .error (.error e) t := rfl

@[simp] theorem writeNode_run : writeNode n a t = .ok () (t.setNode a n) := rfl

@[simp] theorem allocNode_run : allocNode t = .ok t.f.alloc.1 { t with f := t.f.alloc.2 } := rfl

@[simp] theorem addKeys_run (d : Int) : addKeys d t = .ok () (t.addKeys d) := rfl

@[simp] theorem addNodes_run (d : Int) : addNodes d t = .ok () (t.addNodes d) := rfl

@[simp] theorem setNode_node : (t.setNode a n).f.node = Function.update t.f.node a (some n) := rfl

@[simp] theorem setNode_header : (t.setNode a n).header = t.header := rfl

@[simp] theorem setNode_order : (t.setNode a n).order = t.order := rfl

@[simp] theorem addKeys_f (d : Int) : (t.addKeys d).f = t.f := rfl

@[simp] theorem addNodes_f (d : Int) : (t.addNodes d).f = t.f := rfl

@[simp] theorem addKeys_order (d : Int) : (t.addKeys d).order = t.order := rfl

@[simp] theorem addNodes_order (d : Int) : (t.addNodes d).order = t.order := rfl

end Run

/-! ## Writing one node -/

/-- The state after a node was written at the end of a path, seen from there. -/
structure Written (O : OtherTrees κ) (C : Comparison κ) (lo top : Nat) (t : Btree κ) (h : Nat) (a : FAU)
    (n : BtreeNode κ) (path : List (Frame κ)) (t' : Btree κ) : Prop where
  placed : Btree.Placed O C lo top t' (h + 1) a path
  node : t'.f.node a = some n
  before : keysBefore t'.f.node (h + 1) path = keysBefore t.f.node (h + 1) path
  after : keysAfter t'.f.node (h + 1) path = keysAfter t.f.node (h + 1) path
  same : ∀ b ∈ pathNodes t.f.node (h + 1) path, t'.f.node b = t.f.node b
  keys : t'.keys = keysBefore t.f.node (h + 1) path ++ n.inorder (keysFrom t.f.node h) ++
    keysAfter t.f.node (h + 1) path

theorem written {C : Comparison κ} {lo top : Nat} {t : Btree κ} {h : Nat} {a : FAU} {n : BtreeNode κ}
    {path : List (Frame κ)} {d : Int} (hOrder : 5 ≤ t.header.nodeOrder)
    (hHeight : t.header.btreeHeight = (path.length + (h + 1) : Nat))
    (hP : PathTo t.f.node lo t.order t.header.root (h + 1) a path) (hNull : a ≠ 0)
    (hBranches : ∀ b ∈ n.branches, Subtree t.f.node lo t.order lo h b) (hTop : top ≤ n.keyCount)
    (hCount : n.keyCount ≤ t.order)
    (hSorted : C.Sorted (keysBefore t.f.node (h + 1) path ++ n.inorder (keysFrom t.f.node h) ++
      keysAfter t.f.node (h + 1) path))
    (hBlocks : t.f.Blocks O (a :: n.branches.flatMap (nodesFrom t.f.node h) ++
      pathNodes t.f.node (h + 1) path))
    (hKeys : t.header.nKeys + d = (keysBefore t.f.node (h + 1) path ++
      n.inorder (keysFrom t.f.node h) ++ keysAfter t.f.node (h + 1) path).length)
    (hNodes : t.header.nNodes = (a :: n.branches.flatMap (nodesFrom t.f.node h) ++
      pathNodes t.f.node (h + 1) path).length) :
    Written O C lo top t h a n path ((t.setNode a n).addKeys d) := by
  obtain ⟨g, hg⟩ : ∃ g, g = ((t.setNode a n).addKeys d).f.node := ⟨_, rfl⟩
  have hSelf : g a = some n := by
    rw [hg]
    exact Function.update_self _ _ _
  have hFresh : a ∉ n.branches.flatMap (nodesFrom t.f.node h) ++ pathNodes t.f.node (h + 1) path :=
    (List.nodup_cons.mp hBlocks.nodes_nodup).1
  rw [List.mem_append, not_or] at hFresh
  have hSameB : ∀ b ∈ n.branches.flatMap (nodesFrom t.f.node h), g b = t.f.node b := by
    rw [hg]
    exact same_of_not_mem hFresh.1 _
  have hSame : ∀ b ∈ pathNodes t.f.node (h + 1) path, g b = t.f.node b := by
    rw [hg]
    exact same_of_not_mem hFresh.2 _
  have hBefore := keysBefore_congr hSame
  have hAfter := keysAfter_congr hSame
  have hMiddle : keysFrom g (h + 1) a = n.inorder (keysFrom t.f.node h) := by
    rw [keysFrom_at hSelf, inorder_keysFrom_congr hSameB]
  have hPerm : (a :: n.branches.flatMap (nodesFrom t.f.node h) ++ pathNodes t.f.node (h + 1) path).Perm
      (pathNodes g (h + 1) path ++ nodesFrom g (h + 1) a) := by
    rw [pathNodes_congr hSame, nodesFrom_at hSelf, flatMap_nodesFrom_congr hSameB]
    exact List.perm_append_comm
  have hPlaced : Btree.Placed O C lo top ((t.setNode a n).addKeys d) (h + 1) a path := by
    refine ⟨hOrder, hHeight, hg ▸ hP.congr hSame, ?_, ?_, ?_, ?_, ?_⟩
    · rw [← hg]
      exact Subtree.mk hNull hSelf hTop hCount (branches_congr hSameB hBranches)
    · rw [← hg, hMiddle, hBefore, hAfter]
      exact hSorted
    · rw [← hg]
      exact (hBlocks.setNode List.mem_cons_self _).perm hPerm
    · rw [← hg, hMiddle, hBefore, hAfter]
      exact hKeys
    · rw [← hg, ← hPerm.length_eq]
      exact hNodes
  refine ⟨hPlaced, hg ▸ hSelf, hg ▸ hBefore, hg ▸ hAfter, hg ▸ hSame, ?_⟩
  rw [hPlaced.keys_eq, ← hg, hMiddle, hBefore, hAfter]

end DataReel
