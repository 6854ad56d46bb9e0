import DataReel.Btree.Invariant
import DataReel.Database.Layout

/-! # New index files

`Create` makes a file with one or more trees and connects the object to the
first one.
-/

namespace DataReel

variable {κ : Type}

/-- The sizes in bytes that the revision of the engine and the node order give an index file. -/
structure FileLayout where
  fileHeaderSize : Nat
  blockHeaderSize : Nat
  /-- The node with the checksum that follows it. -/
  objectSize : Nat
  fileHeader_pos : 0 < fileHeaderSize
  blockHeader_pos : 0 < blockHeaderSize
  object_pos : 0 < objectSize

/-- `SizeOfBtreeNode`: the entries a node can hold, its key count and its left child. -/
def sizeOfBtreeNode (order keySize : Int) : Nat := keySize.toNat * nodeOrder order + 16

def FileLayout.ofRevision (rev : Revision) (order keySize : Int) : FileLayout where
  fileHeaderSize := rev.fileHeaderSize
  blockHeaderSize := rev.blockHeaderSize
  objectSize := sizeOfBtreeNode order keySize + rev.checksumSize
  fileHeader_pos := rev.fileHeaderSize_pos
  blockHeader_pos := rev.blockHeaderSize_pos
  object_pos := by
    rw [sizeOfBtreeNode]
    omega

/-- `sizeof(gxBtreeHeader)` -/
def sizeOfBtreeHeader : Int := 56

/-- A new file with a static area and no blocks. -/
def IndexFile.create (L : FileLayout) (staticSize : Int) (allocsLeft : Option Nat) : IndexFile κ where
  node _ := none
  header _ := none
  freeList := []
  heapStart := L.fileHeaderSize + staticSize
  eof := L.fileHeaderSize + staticSize
  blockHeaderSize := L.blockHeaderSize
  blockLength := L.blockHeaderSize + L.objectSize
  allocsLeft := allocsLeft
  allocFailed := false

/-- A `gxBtree` as its constructor leaves it, with the file that `Create` gives it. -/
def Btree.construct (order keySize : Int) (f : IndexFile κ) : Btree κ where
  header := {
    nodeOrder := order
    keySize := keySize
    nKeys := 0
    nNodes := 0
    btreeHeight := 0
    root := 0
    numTrees := 1 }
  headerAddress := 0
  headerInSync := false
  f := f

def readBtreeHeader : BtreeM κ Unit := fun t =>
  match t.f.header t.headerAddress with
  | none => .error (.error .fileReadError) t
  | some h => .ok () { t with header := h, headerInSync := true }

/-- `InitBtree` with the `create` flag. -/
def initBtreeCreate (headerAddress : FAU) (numTrees : Int) : BtreeM κ Unit := do
  modify fun t => { t with headerAddress := headerAddress }
  let rootAddress ← allocNode
  if rootAddress = 0 then fail .fileWriteError
  else
    modify fun t => { t with header := { t.header with
      root := rootAddress
      btreeHeight := 1
      nKeys := 0
      nNodes := 1
      numTrees := if numTrees ≤ 0 then 1 else numTrees } }
    modify Btree.writeBtreeHeader
    writeNode BtreeNode.new rootAddress

/-- `InitBtree` without it: the header is read from the file and checked. -/
def initBtreeOpen (headerAddress : FAU) : BtreeM κ Unit := do
  let t ← get
  let expectedKeySize := t.header.keySize
  modify fun t => { t with headerAddress := headerAddress }
  readBtreeHeader
  let t ← get
  if t.header.keySize ≠ expectedKeySize ∨ t.header.nodeOrder < 2 ∨
      0x1000000 / (if expectedKeySize = 0 then 1 else expectedKeySize) < t.header.nodeOrder then
    fail .badHeader
  else pure ()

/-- The loop over the trees of a new file. -/
def createTrees (numTrees : Int) : Nat → FAU → BtreeM κ Unit
  | 0, _ => pure ()
  | n + 1, offset => do
    initBtreeCreate offset numTrees
    createTrees numTrees n (offset + sizeOfBtreeHeader)

def connectTrees (L : FileLayout) (numTrees : Int) : BtreeM κ Unit := do
  createTrees numTrees numTrees.toNat L.fileHeaderSize
  if 1 < numTrees then initBtreeOpen L.fileHeaderSize else pure ()

/-- `Create` on a new object. -/
def Btree.create (L : FileLayout) (order keySize numTrees : Int) (allocsLeft : Option Nat) :
    EStateM.Result Halt (Btree κ) Unit :=
  let numTrees := if numTrees ≤ 0 then 1 else numTrees
  connectTrees L numTrees
    (Btree.construct order keySize (IndexFile.create L (sizeOfBtreeHeader * numTrees) allocsLeft))

/-- A tree of integer keys in a new file of the default revision. -/
def intTree (order : Int) (allocsLeft : Option Nat) : Btree Int :=
  match Btree.create (.ofRevision .E order 16) order 16 1 allocsLeft with
  | .ok _ t | .error _ t => t

/-! ## The trees of a new file -/

/-- The header of a tree that has one empty node. -/
def BtreeHeader.Empty (order : Int) (roots : List FAU) (h : BtreeHeader) : Prop :=
  h.nodeOrder = order ∧ h.nKeys = 0 ∧ h.nNodes = 1 ∧ h.btreeHeight = 1 ∧ h.root ∈ roots

theorem BtreeHeader.Empty.mono {order : Int} {roots roots' : List FAU} {h : BtreeHeader}
    (hEmpty : h.Empty order roots) (hSub : roots ⊆ roots') : h.Empty order roots' :=
  ⟨hEmpty.1, hEmpty.2.1, hEmpty.2.2.1, hEmpty.2.2.2.1, hSub hEmpty.2.2.2.2⟩

/-- A file under creation, with the roots of the trees that it has so far. -/
structure Creating (order : Int) (roots : List FAU) (t : Btree κ) : Prop where
  nodeOrder : t.header.nodeOrder = order
  blocks : t.f.alloc.1 ≠ 0 → t.f.Blocks OtherTrees.none roots
  nodes : ∀ a ∈ roots, t.f.node a = some BtreeNode.new
  headers : ∀ a h, t.f.header a = some h → h.Empty order roots
  allocFailed : t.f.allocFailed = false

/-- The same once there is a tree, with the object connected to one of them. -/
structure Connected (order : Int) (roots : List FAU) (t : Btree κ) : Prop extends
    Creating order roots t where
  allBlocks : t.f.Blocks OtherTrees.none roots
  header : t.header.Empty order roots

theorem creating_construct (L : FileLayout) (order keySize staticSize : Int)
    (hStatic : 0 ≤ staticSize) (allocsLeft : Option Nat) :
    Creating order [] (Btree.construct (κ := κ) order keySize
      (IndexFile.create L staticSize allocsLeft)) := by
  refine ⟨rfl, fun hAlloc => ?_, by simp, by simp [Btree.construct, IndexFile.create], rfl⟩
  have hFile := L.fileHeader_pos
  have hBlock := L.blockHeader_pos
  have hObject := L.object_pos
  have hRoom : (L.fileHeaderSize : Int) + staticSize + (L.blockHeaderSize + L.objectSize) ≤ maxFAU := by
    rcases IndexFile.alloc_cases (κ := κ) (IndexFile.create L staticSize allocsLeft) with
      h | ⟨a, rest, hList, h⟩ | ⟨hList, hRoom, h⟩
    · exact absurd (congrArg Prod.fst h) hAlloc
    · cases hList
    · exact hRoom
  refine ⟨List.nodup_nil, by simp [Btree.construct, IndexFile.create], ?_, ?_, ?_, ?_,
    fun _ h => (List.not_mem_nil h).elim, fun _ h => (List.not_mem_nil h).elim, ?_⟩
  rotate_left 4
  · simp [Btree.construct, IndexFile.create, OtherTrees.none]
  all_goals
    simp only [Btree.construct, IndexFile.create]
    omega

def Btree.addTree (t : Btree κ) (a : FAU) (n : Int) : Btree κ :=
  (({ t with
    headerAddress := a
    f := t.f.alloc.2
    header := { t.header with
      root := t.f.alloc.1
      btreeHeight := 1
      nKeys := 0
      nNodes := 1
      numTrees := if n ≤ 0 then 1 else n } } : Btree κ).writeBtreeHeader).setNode t.f.alloc.1 BtreeNode.new

theorem initBtreeCreate_run {t t' : Btree κ} {a : FAU} {n : Int}
    (hRun : initBtreeCreate a n t = .ok () t') : t.f.alloc.1 ≠ 0 ∧ t' = t.addTree a n := by
  rw [initBtreeCreate, Exec.bind_ok (Exec.modify_run _ _), Exec.bind_ok allocNode_run] at hRun
  by_cases hAlloc : t.f.alloc.1 = 0
  · rw [if_pos hAlloc] at hRun
    cases hRun
  · rw [if_neg hAlloc, Exec.bind_ok (Exec.modify_run _ _), Exec.bind_ok (Exec.modify_run _ _)] at hRun
    cases hRun
    exact ⟨hAlloc, rfl⟩

theorem Creating.addTree {order : Int} {roots : List FAU} {t : Btree κ} (hT : Creating order roots t)
    (hAlloc : t.f.alloc.1 ≠ 0) (a : FAU) (n : Int) :
    Connected order (t.f.alloc.1 :: roots) (t.addTree a n) := by
  have hBlocks := hT.blocks hAlloc
  rcases hBlocks.alloc with ⟨hZero, -⟩ | ⟨-, hNew, hFailed, hNode⟩
  · exact absurd hZero hAlloc
  · have hAll : (t.addTree a n).f.Blocks OtherTrees.none (t.f.alloc.1 :: roots) :=
      (hNew.setHeader a _).setNode List.mem_cons_self _
    have hHeader : (t.addTree a n).header.Empty order (t.f.alloc.1 :: roots) :=
      ⟨hT.nodeOrder, rfl, rfl, rfl, List.mem_cons_self⟩
    refine ⟨⟨hT.nodeOrder, fun _ => hAll, ?_, ?_, hFailed.trans hT.allocFailed⟩, hAll, hHeader⟩
    · intro b hb
      change Function.update t.f.alloc.2.node t.f.alloc.1 (some BtreeNode.new) b = _
      by_cases hEq : b = t.f.alloc.1
      · rw [hEq, Function.update_self]
      · rcases List.mem_cons.mp hb with hb | hb
        · exact absurd hb hEq
        · rw [Function.update_of_ne hEq, hNode b hEq, hT.nodes b hb]
    · intro b h hb
      change Function.update t.f.alloc.2.header a (some (t.addTree a n).header) b = some h at hb
      by_cases hEq : b = a
      · rw [hEq, Function.update_self] at hb
        obtain rfl := Option.some.inj hb
        exact hHeader
      · rw [Function.update_of_ne hEq, IndexFile.alloc_header] at hb
        exact (hT.headers b h hb).mono (List.subset_cons_self _ _)

theorem createTrees_run {order numTrees : Int} {roots : List FAU} {n : Nat} {offset : FAU}
    {t t' : Btree κ} (hT : Connected order roots t)
    (hRun : createTrees numTrees n offset t = .ok () t') :
    ∃ roots', Connected order roots' t' ∧ roots'.length = roots.length + n := by
  induction n generalizing t offset roots with
  | zero =>
    cases hRun
    exact ⟨roots, hT, rfl⟩
  | succ n ih =>
    obtain ⟨_, u, hTree, hRest⟩ := Exec.of_bind_ok hRun
    obtain ⟨hAlloc, rfl⟩ := initBtreeCreate_run hTree
    obtain ⟨roots', hT', hLength⟩ := ih (hT.toCreating.addTree hAlloc _ _) hRest
    refine ⟨roots', hT', ?_⟩
    rw [hLength, List.length_cons]
    omega

theorem check_run {p : Prop} [Decidable p] {e : DatabaseError} {t t' : Btree κ}
    (hRun : (if p then fail e else pure () : BtreeM κ Unit) t = .ok () t') : t = t' := by
  by_cases h : p
  · rw [if_pos h] at hRun
    cases hRun
  · rw [if_neg h] at hRun
    cases hRun
    rfl

theorem initBtreeOpen_run {order : Int} {roots : List FAU} {a : FAU} {t t' : Btree κ}
    (hT : Connected order roots t) (hRun : initBtreeOpen a t = .ok () t') :
    Connected order roots t' := by
  rw [initBtreeOpen, Exec.bind_ok (Exec.get_run _), Exec.bind_ok (Exec.modify_run _ _)] at hRun
  obtain ⟨_, u, hRead, hCheck⟩ := Exec.of_bind_ok hRun
  rw [Exec.bind_ok (Exec.get_run _)] at hCheck
  rw [readBtreeHeader] at hRead
  split at hRead
  · cases hRead
  · rename_i h hHeader
    cases hRead
    have hEmpty := hT.headers _ _ hHeader
    obtain rfl := check_run hCheck
    exact ⟨⟨hEmpty.1, hT.blocks, hT.nodes, hT.headers, hT.allocFailed⟩, hT.allBlocks, hEmpty⟩

/-- Of the blocks in use, one holds the tree at hand and the others belong to the other trees. -/
theorem IndexFile.Blocks.split {f : IndexFile κ} {a : FAU} {nodes : List FAU}
    (hF : f.Blocks OtherTrees.none nodes) (ha : a ∈ nodes) :
    f.Blocks ⟨nodes.erase a, f.node⟩ [a] := by
  have hPerm := List.perm_cons_erase ha
  have hNodup := (List.Perm.append_left f.freeList hPerm).nodup_iff.mp hF.nodup
  have hSub : (f.freeList ++ [a]).Sublist (f.freeList ++ a :: nodes.erase a) :=
    List.Sublist.append_left (List.cons_sublist_cons.mpr (List.nil_sublist _)) _
  have hAll {b : FAU} (hb : b ∈ f.freeList ++ [a]) : b ∈ f.freeList ++ nodes :=
    (List.Perm.append_left f.freeList hPerm).mem_iff.mpr (hSub.subset hb)
  refine ⟨hNodup.sublist hSub, fun b hb => hF.inFile b (hAll hb), hF.eof_pos, hF.eof_le,
    hF.header_pos, hF.header_lt, ?_, fun b hb => hF.grid b (hAll hb), ?_⟩
  · intro b hb
    refine ⟨?_, (hF.inFile b (List.mem_append_right _ (List.mem_of_mem_erase hb))).2, rfl⟩
    rw [← List.singleton_append, ← List.append_assoc] at hNodup
    exact fun hMem => List.disjoint_of_nodup_append hNodup hMem hb
  · have hCount := hF.count
    have hLength := hPerm.length_eq
    rw [List.length_cons] at hLength
    rwa [hLength, show f.freeList.length + ((nodes.erase a).length + 1) +
      (OtherTrees.none (κ := κ)).addresses.length =
        f.freeList.length + [a].length + (nodes.erase a).length by
          simp [OtherTrees.none]; omega] at hCount

theorem Connected.wellFormed {C : Comparison κ} {order n : Int} {roots : List FAU} {t : Btree κ}
    (hT : Connected order roots t) (hn : 5 ≤ n) (lo : Nat) :
    ∃ O : OtherTrees κ, (t.atOrder n).WellFormed O C lo ∧ t.keys = [] ∧
      O.addresses.length + 1 = roots.length := by
  obtain ⟨hNodeOrder, hKeys, hNodes, hHeight, hRoot⟩ := hT.header
  have hNode := hT.nodes _ hRoot
  have hOne : t.height = 1 := by
    rw [Btree.height, hHeight]
    rfl
  have hNull : t.header.root ≠ 0 := by
    have hIn := (hT.allBlocks.inFile _ (List.mem_append_right _ hRoot)).1
    exact Int.ne_of_gt hIn
  have hKeysNil : t.keys = [] := by
    rw [Btree.keys, hOne, keysFrom_at hNode]
    rfl
  have hNodesOne : t.nodes = [t.header.root] := by
    rw [Btree.nodes, hOne, nodesFrom_at hNode]
    rfl
  have hPos : 0 < t.header.btreeHeight := by omega
  have hSorted : C.Sorted t.keys := by simp [hKeysNil]
  have hKeyCount : t.header.nKeys = t.keys.length := by simp [hKeys, hKeysNil]
  have hNodeCount : t.header.nNodes = t.nodes.length := by simp [hNodes, hNodesOne]
  refine ⟨⟨roots.erase t.header.root, t.f.node⟩, ⟨hn, hPos, ?_, hSorted, ?_, hKeyCount, hNodeCount⟩,
    hKeysNil, ?_⟩
  · change Subtree t.f.node lo (nodeOrder n) (rootKeys lo t.height) t.height t.header.root
    rw [hOne]
    refine Subtree.mk hNull hNode (Nat.zero_le _) (Nat.zero_le _) ?_
    intro b hb
    obtain rfl : b = 0 := List.mem_singleton.mp hb
    exact Subtree.null
  · change t.f.Blocks _ t.nodes
    rw [hNodesOne]
    exact hT.allBlocks.split hRoot
  · exact (List.perm_cons_erase hRoot).length_eq.symm

/-- A new file holds as many trees as it was made for. -/
theorem Btree.create_connected {L : FileLayout} {order keySize numTrees : Int}
    {allocsLeft : Option Nat} {t : Btree κ}
    (hRun : Btree.create L order keySize numTrees allocsLeft = .ok () t) :
    ∃ roots, Connected order roots t ∧ (roots.length : Int) = max numTrees 1 := by
  obtain ⟨n, hn⟩ : ∃ n, n = if numTrees ≤ 0 then 1 else numTrees := ⟨_, rfl⟩
  have hMax : n = max numTrees 1 := by
    rw [hn]
    split <;> omega
  have hPos : 0 < n := by omega
  have hStart := creating_construct (κ := κ) L order keySize (sizeOfBtreeHeader * n)
    (Int.mul_nonneg (by decide) (by omega)) allocsLeft
  rw [Btree.create, ← hn, connectTrees] at hRun
  obtain ⟨_, u, hTrees, hOpen⟩ := Exec.of_bind_ok hRun
  obtain ⟨k, hk⟩ : ∃ k, n.toNat = k + 1 := ⟨n.toNat - 1, by omega⟩
  rw [hk] at hTrees
  obtain ⟨_, v, hFirst, hRest⟩ := Exec.of_bind_ok hTrees
  obtain ⟨hAlloc, rfl⟩ := initBtreeCreate_run hFirst
  obtain ⟨roots, hU, hLength⟩ := createTrees_run (hStart.addTree hAlloc _ _) hRest
  rw [List.length_singleton] at hLength
  refine ⟨roots, ?_, by omega⟩
  split at hOpen
  · exact initBtreeOpen_run hU hOpen
  · cases hOpen
    exact hU

theorem Btree.create_run {C : Comparison κ} {L : FileLayout} {order keySize numTrees : Int}
    {allocsLeft : Option Nat} {t : Btree κ} (hOrder : 5 ≤ order)
    (hRun : Btree.create L order keySize numTrees allocsLeft = .ok () t) (lo : Nat) :
    ∃ O : OtherTrees κ, t.WellFormed O C lo ∧ t.keys = [] ∧ t.f.allocFailed = false ∧
      (O.addresses.length + 1 : Int) = max numTrees 1 := by
  obtain ⟨roots, hT, hRoots⟩ := Btree.create_connected hRun
  obtain ⟨O, hW, hKeys, hOthers⟩ := hT.wellFormed (C := C) hOrder lo
  rw [Btree.atOrder_self hT.nodeOrder] at hW
  exact ⟨O, hW, hKeys, hT.allocFailed, by omega⟩

theorem create_intTree :
    Btree.create (.ofRevision .E 5 16) 5 16 1 none = .ok () (intTree 5 none) := rfl

end DataReel
