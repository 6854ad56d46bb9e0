import DataReel.Btree.Keeps
import DataReel.Btree.Mixed

/-! # Several trees in one file

The headers of the trees stand side by side in the static area of the file, and
all trees get their nodes from one free space list. `ReConnect` writes the
header of the tree at hand and reads that of another.
-/

namespace DataReel

variable {κ : Type}

/-- Where `Create` puts the header of a tree, counted from 0. -/
def treeAddress (L : FileLayout) (i : Nat) : FAU := L.fileHeaderSize + i * sizeOfBtreeHeader

def reConnect (L : FileLayout) (treeNumber : Int) : BtreeM κ Unit := do
  modify Btree.flush
  modify fun t => { t with headerAddress :=
    L.fileHeaderSize + (if 0 < treeNumber then treeNumber - 1 else treeNumber) * sizeOfBtreeHeader }
  readBtreeHeader

inductive TreesCall (κ : Type)
  | call (c : Call κ)
  | partialFind (key : κ)
  | reConnect (treeNumber : Int)

def trees (L : FileLayout) (K : KeyClass κ) : Machine (TreesCall κ) (Reply κ) (Btree κ) where
  step
    | .call c => (gxBtree K).step c
    | .partialFind key => searched (partialFind K key)
    | .reConnect treeNumber => fun t => reply (fun _ => .done) (reConnect L treeNumber t)

namespace Btree

/-- The header of a tree: in memory if the object is connected to it, else on disk. -/
def headerOf (L : FileLayout) (t : Btree κ) (i : Nat) : Option BtreeHeader :=
  if t.headerAddress = treeAddress L i then some t.header else t.f.header (treeAddress L i)

def keysOf (L : FileLayout) (t : Btree κ) (i : Nat) : Option (List κ) :=
  (t.headerOf L i).map fun h => keysFrom t.f.node h.btreeHeight.toNat h.root

end Btree

/-- The call changes the tree. -/
def TreesCall.Updates : TreesCall κ → Prop
  | .call c => c.Update
  | _ => False

/-- A call acts on the tree that the object is connected to. -/
structure Isolated (L : FileLayout) (K : KeyClass κ) (numTrees : Nat) (e : TreesCall κ) (t : Btree κ) :
    Prop where
  defined : e.Updates → ((trees L K).step e t).1 ≠ .undefined
  others : ∀ i < numTrees, (e.Updates → t.headerAddress ≠ treeAddress L i) →
    ((trees L K).step e t).2.headerOf L i = t.headerOf L i ∧
      ((trees L K).step e t).2.keysOf L i = t.keysOf L i
  stays : (∀ n, e ≠ .reConnect n) → ((trees L K).step e t).2.headerAddress = t.headerAddress
  connects : ∀ i, e = .reConnect (i + 1 : Nat) → i < numTrees →
    ((trees L K).step e t).1 = .done ∧
      ((trees L K).step e t).2.headerAddress = treeAddress L i

/-! ## What no call changes -/

/-- The object is as before but for the nodes, the free space list and the header of its tree. -/
structure Btree.Fixed (t t' : Btree κ) : Prop where
  headerAddress : t'.headerAddress = t.headerAddress
  headers : ∀ a, a ≠ t.headerAddress → t'.f.header a = t.f.header a
  heapStart : t'.f.heapStart = t.f.heapStart
  blockHeaderSize : t'.f.blockHeaderSize = t.f.blockHeaderSize
  blockLength : t'.f.blockLength = t.f.blockLength
  nodeOrder : t'.header.nodeOrder = t.header.nodeOrder
  keySize : t'.header.keySize = t.header.keySize
  numTrees : t'.header.numTrees = t.header.numTrees

theorem IndexFile.alloc_layout (f : IndexFile κ) :
    f.alloc.2.heapStart = f.heapStart ∧ f.alloc.2.blockHeaderSize = f.blockHeaderSize ∧
      f.alloc.2.blockLength = f.blockLength := by
  rcases f.alloc_cases with h | ⟨a, rest, -, h⟩ | ⟨-, -, h⟩
  all_goals
    rw [h]
    exact ⟨rfl, rfl, rfl⟩

theorem IndexFile.remove_layout (f : IndexFile κ) (a : FAU) :
    (f.remove a).2.heapStart = f.heapStart ∧
      (f.remove a).2.blockHeaderSize = f.blockHeaderSize ∧
      (f.remove a).2.blockLength = f.blockLength ∧ (f.remove a).2.header = f.header := by
  rw [IndexFile.remove]
  split
  · exact ⟨rfl, rfl, rfl, rfl⟩
  · exact ⟨rfl, rfl, rfl, rfl⟩

theorem Btree.Fixed.refl (t : Btree κ) : t.Fixed t :=
  ⟨rfl, fun _ _ => rfl, rfl, rfl, rfl, rfl, rfl, rfl⟩

theorem Btree.Fixed.flush {t t' : Btree κ} (h : t.Fixed t') : t.Fixed t'.flush := by
  refine ⟨h.headerAddress, fun a ha => ?_, h.heapStart, h.blockHeaderSize, h.blockLength,
    h.nodeOrder, h.keySize, h.numTrees⟩
  rw [← h.headers a ha]
  refine Function.update_of_ne ?_ _ _
  rw [h.headerAddress]
  exact ha

theorem stable_fixed (t₀ : Btree κ) : Btree.Stable fun s t => s = t ∧ t₀.Fixed t := by
  refine ⟨⟨?_, ?_, ?_⟩, ?_⟩
  · rintro s t a n - ⟨rfl, h⟩ -
    exact ⟨rfl, h.headerAddress, h.headers, h.heapStart, h.blockHeaderSize, h.blockLength,
      h.nodeOrder, h.keySize, h.numTrees⟩
  · rintro s t hdr - ⟨rfl, h⟩ hOrder hSize hTrees
    exact ⟨rfl, h.headerAddress, h.headers, h.heapStart, h.blockHeaderSize, h.blockLength,
      hOrder.trans h.nodeOrder, hSize.trans h.keySize, hTrees.trans h.numTrees⟩
  · rintro s t a - ⟨rfl, h⟩ -
    obtain ⟨hStart, hHeader, hLength, hHeaders⟩ := s.f.remove_layout a
    exact ⟨rfl, h.headerAddress, hHeaders ▸ h.headers, hStart.trans h.heapStart,
      hHeader.trans h.blockHeaderSize, hLength.trans h.blockLength, h.nodeOrder, h.keySize, h.numTrees⟩
  · rintro s t - ⟨rfl, h⟩
    obtain ⟨hStart, hHeader, hLength⟩ := s.f.alloc_layout
    exact ⟨rfl, h.headerAddress, s.f.alloc_header ▸ h.headers, hStart.trans h.heapStart,
      hHeader.trans h.blockHeaderSize, hLength.trans h.blockLength, h.nodeOrder, h.keySize, h.numTrees⟩

/-- The blocks on the free space list keep their bytes. -/
def Btree.FreeKept (t : Btree κ) : Prop := ∀ a ∈ t.f.freeList, (t.f.node a).isSome

theorem call_fixed (K : KeyClass κ) (c : Call κ) {t : Btree κ} (hFree : t.FreeKept) :
    t.Fixed ((gxBtree K).step c t).2 ∧ ((gxBtree K).step c t).2.FreeKept := by
  rcases (call_keeps K (stable_fixed t) c ⟨⟨rfl, hFree⟩, ⟨rfl, .refl t⟩, nofun⟩).2 with
    h | ⟨s, t', h, hStep, -⟩
  · exact ⟨h.related.2, h.same.free⟩
  · rw [hStep]
    exact ⟨(h.related.1 ▸ h.related.2 : t.Fixed s).flush, h.same.free⟩

theorem searched_state {x : BtreeM κ (DatabaseKey κ × CurrNode κ)} {t : Btree κ} (hFree : t.FreeKept)
    (hx : Finds (fun s _ => s = t) [] x) : (searched x t).2 = t :=
  (hx.searched ⟨⟨rfl, hFree⟩, rfl, nofun⟩).2.related

theorem call_state (K : KeyClass κ) {c : Call κ} (hSearch : ¬ c.Update) {t : Btree κ}
    (hFree : t.FreeKept) : ((gxBtree K).step c t).2 = t := by
  cases c with
  | insert | delete | fastDelete => exact absurd trivial hSearch
  | find key => exact searched_state hFree (find_keeps K key _)
  | findFirst => exact searched_state hFree findFirst_keeps
  | findLast => exact searched_state hFree findLast_keeps
  | findNext key => exact searched_state hFree (findNext_keeps K key _)
  | findPrev key => exact searched_state hFree (findPrev_keeps K key _)

/-! ## The blocks of several trees -/

namespace IndexFile.Blocks

variable {f : IndexFile κ} {O : OtherTrees κ} {all nodes others : List FAU}

theorem own (hF : f.Blocks OtherTrees.none all) (hAll : all.Perm (nodes ++ others)) :
    f.Blocks ⟨others, f.node⟩ nodes := by
  have hF := hF.perm hAll
  have hNodup := hF.nodup
  rw [← List.append_assoc] at hNodup
  have hMem {a : FAU} (ha : a ∈ f.freeList ++ nodes) : a ∈ f.freeList ++ (nodes ++ others) := by
    rw [← List.append_assoc]
    exact List.mem_append_left _ ha
  refine ⟨(List.nodup_append.mp hNodup).1, fun a ha => hF.inFile a (hMem ha), hF.eof_pos, hF.eof_le,
    hF.header_pos, hF.header_lt, fun a ha => ⟨fun hOwn => ?_, ?_, rfl⟩,
    fun a ha => hF.grid a (hMem ha), ?_⟩
  · exact List.disjoint_of_nodup_append hNodup hOwn ha
  · exact (hF.inFile a (List.mem_append_right _ (List.mem_append_right _ ha))).2
  · have hCount := hF.count
    rw [List.length_append] at hCount
    rw [hCount, show (OtherTrees.none (κ := κ)).addresses.length = 0 from rfl, Nat.add_zero,
      Nat.add_assoc]

theorem join (hF : f.Blocks O nodes) (hNodup : O.addresses.Nodup)
    (hOthers : ∀ a ∈ O.addresses, (0 : Int) < a ∧
      ∃ i : Nat, a = f.heapStart + f.blockHeaderSize + i * f.blockLength) :
    f.Blocks OtherTrees.none (nodes ++ O.addresses) := by
  refine ⟨?_, fun a ha => ?_, hF.eof_pos, hF.eof_le, hF.header_pos, hF.header_lt, nofun,
    fun a ha => ?_, ?_⟩
  · rw [← List.append_assoc]
    exact List.Nodup.append hF.nodup hNodup fun a ha hOther => (hF.others a hOther).1 ha
  · rw [← List.append_assoc] at ha
    rcases List.mem_append.mp ha with ha | ha
    · exact hF.inFile a ha
    · exact ⟨(hOthers a ha).1, (hF.others a ha).2.1⟩
  · rw [← List.append_assoc] at ha
    rcases List.mem_append.mp ha with ha | ha
    · exact hF.grid a ha
    · exact (hOthers a ha).2
  · have hCount := hF.count
    rw [hCount, List.length_append, show (OtherTrees.none (κ := κ)).addresses.length = 0 from rfl,
      Nat.add_zero, Nat.add_assoc]

end IndexFile.Blocks

namespace BtreeHeader

variable (g : NodeMap κ) (h : BtreeHeader)

def keys : List κ := keysFrom g h.btreeHeight.toNat h.root

def nodes : List FAU := nodesFrom g h.btreeHeight.toNat h.root

/-- The header describes a tree in which nodes may be empty. -/
structure Describes (C : Comparison κ) : Prop where
  order : 5 ≤ h.nodeOrder
  height_pos : 0 < h.btreeHeight
  subtree : Subtree g 0 (DataReel.nodeOrder h.nodeOrder) (rootKeys 0 h.btreeHeight.toNat)
    h.btreeHeight.toNat h.root
  sorted : C.Sorted (h.keys g)
  nKeys : h.nKeys = (h.keys g).length
  nNodes : h.nNodes = (h.nodes g).length

variable {g h} {g' : NodeMap κ} {C : Comparison κ}

theorem keys_congr (hSame : ∀ a ∈ h.nodes g, g' a = g a) : h.keys g' = h.keys g :=
  keysFrom_congr hSame

theorem nodes_congr (hSame : ∀ a ∈ h.nodes g, g' a = g a) : h.nodes g' = h.nodes g :=
  nodesFrom_congr hSame

theorem Describes.congr (hD : h.Describes g C) (hSame : ∀ a ∈ h.nodes g, g' a = g a) :
    h.Describes g' C := by
  refine ⟨hD.order, hD.height_pos, hD.subtree.congr hSame, ?_, ?_, ?_⟩
  · rw [keys_congr hSame]
    exact hD.sorted
  · rw [keys_congr hSame]
    exact hD.nKeys
  · rw [nodes_congr hSame]
    exact hD.nNodes

end BtreeHeader

/-- The nodes of all trees but one. -/
def otherNodes (g : NodeMap κ) (H : Nat → BtreeHeader) (numTrees c : Nat) : List FAU :=
  ((List.range numTrees).erase c).flatMap fun i => (H i).nodes g

/-- A file with the trees that the headers `H` describe, where the object is connected to `c`. -/
structure Forest (L : FileLayout) (C : Comparison κ) (numTrees : Nat) (H : Nat → BtreeHeader) (c : Nat)
    (t : Btree κ) : Prop where
  current : c < numTrees
  address : t.headerAddress = treeAddress L c
  header : H c = t.header
  saved : ∀ i < numTrees, i ≠ c → t.f.header (treeAddress L i) = some (H i)
  trees : ∀ i < numTrees, (H i).Describes t.f.node C
  blocks : t.f.Blocks OtherTrees.none ((List.range numTrees).flatMap fun i => (H i).nodes t.f.node)
  free : t.FreeKept

theorem treeAddress_inj {L : FileLayout} {i j : Nat} (h : treeAddress L i = treeAddress L j) :
    i = j := by
  have h : (L.fileHeaderSize : Int) + i * 56 = L.fileHeaderSize + j * 56 := h
  omega

namespace Forest

variable {L : FileLayout} {C : Comparison κ} {numTrees : Nat} {H : Nat → BtreeHeader} {c : Nat}
  {t : Btree κ}

theorem headerOf (hT : Forest L C numTrees H c t) {i : Nat} (hi : i < numTrees) :
    t.headerOf L i = some (H i) := by
  rw [Btree.headerOf, hT.address]
  split
  · rename_i hSame
    rw [← treeAddress_inj hSame, hT.header]
  · rename_i hOther
    exact hT.saved i hi fun hSame => hOther (by rw [hSame])

theorem keysOf (hT : Forest L C numTrees H c t) {i : Nat} (hi : i < numTrees) :
    t.keysOf L i = some ((H i).keys t.f.node) := by
  rw [Btree.keysOf, hT.headerOf hi]
  rfl

theorem perm (g : NodeMap κ) (H : Nat → BtreeHeader) {c numTrees : Nat} (hc : c < numTrees) :
    ((List.range numTrees).flatMap fun i => (H i).nodes g).Perm
      ((H c).nodes g ++ otherNodes g H numTrees c) := by
  have hPerm := List.perm_cons_erase (List.mem_range.mpr hc)
  exact hPerm.flatMap_right _

theorem wellFormed (hT : Forest L C numTrees H c t) :
    t.WellFormed ⟨otherNodes t.f.node H numTrees c, t.f.node⟩ C 0 := by
  obtain ⟨hOrder, hPos, hSub, hSorted, hKeys, hNodes⟩ := hT.trees c hT.current
  have hBlocks := hT.blocks.own (perm t.f.node H hT.current)
  rw [hT.header] at hOrder hPos hSub hSorted hKeys hNodes hBlocks
  exact ⟨hOrder, hPos, hSub, hSorted, hBlocks, hKeys, hNodes⟩

theorem mem_otherNodes {g : NodeMap κ} {i : Nat} (hi : i < numTrees) (hNe : i ≠ c) {a : FAU}
    (ha : a ∈ (H i).nodes g) : a ∈ otherNodes g H numTrees c :=
  List.mem_flatMap.mpr ⟨i, (List.mem_erase_of_ne hNe).mpr (List.mem_range.mpr hi), ha⟩

theorem after (hT : Forest L C numTrees H c t) {u : Btree κ}
    (hW : u.WellFormed ⟨otherNodes t.f.node H numTrees c, t.f.node⟩ C 0) (hFixed : t.Fixed u)
    (hFree : u.FreeKept) :
    Forest L C numTrees (Function.update H c u.header) c u ∧
      ∀ i < numTrees, i ≠ c → (H i).keys u.f.node = (H i).keys t.f.node := by
  have hc := hT.current
  have hSame {i : Nat} (hi : i < numTrees) (hNe : i ≠ c) (a : FAU) (ha : a ∈ (H i).nodes t.f.node) :
      u.f.node a = t.f.node a := (hW.blocks.others a (mem_otherNodes hi hNe ha)).2.2
  have hOthers : otherNodes u.f.node (Function.update H c u.header) numTrees c =
      otherNodes t.f.node H numTrees c := by
    refine List.flatMap_congr fun i hi => ?_
    have hi := (List.nodup_range.mem_erase_iff).mp hi
    rw [Function.update_of_ne hi.1]
    exact BtreeHeader.nodes_congr (hSame (List.mem_range.mp hi.2) hi.1)
  have hPerm := perm t.f.node H hc
  have hAll := hT.blocks.perm hPerm
  refine ⟨⟨hc, hFixed.headerAddress.trans hT.address, Function.update_self _ _ _, fun i hi hNe => ?_,
    fun i hi => ?_, ?_, hFree⟩, fun i hi hNe => BtreeHeader.keys_congr (hSame hi hNe)⟩
  · rw [Function.update_of_ne hNe, ← hT.saved i hi hNe]
    refine hFixed.headers _ fun hEq => hNe ?_
    exact treeAddress_inj (hEq.trans hT.address)
  · by_cases hNe : i = c
    · subst hNe
      rw [Function.update_self]
      exact ⟨hW.order, hW.height_pos, hW.subtree, hW.sorted, hW.nKeys, hW.nNodes⟩
    · rw [Function.update_of_ne hNe]
      exact (hT.trees i hi).congr (hSame hi hNe)
  · have hPerm' := perm u.f.node (Function.update H c u.header) hc
    rw [hOthers, Function.update_self] at hPerm'
    refine (hW.blocks.join ?_ fun a ha => ?_).perm hPerm'.symm
    · exact (List.nodup_append.mp hAll.nodes_nodup).2.1
    · have hMem := List.mem_append_right t.f.freeList (List.mem_append_right ((H c).nodes t.f.node) ha)
      rw [hFixed.heapStart, hFixed.blockHeaderSize, hFixed.blockLength]
      exact ⟨(hAll.inFile a hMem).1, hAll.grid a hMem⟩

theorem flush (hT : Forest L C numTrees H c t) : Forest L C numTrees H c t.flush := by
  refine ⟨hT.current, hT.address, hT.header, fun i hi hNe => ?_, hT.trees,
    hT.blocks.setHeader _ _, hT.free⟩
  refine (Function.update_of_ne (fun hEq => hNe ?_) _ _).trans (hT.saved i hi hNe)
  exact treeAddress_inj (hEq.trans hT.address)

theorem reConnect (hT : Forest L C numTrees H c t) {i : Nat} (hi : i < numTrees) :
    ∃ u, DataReel.reConnect L (i + 1 : Nat) t = .ok () u ∧ Forest L C numTrees H i u ∧
      u.f.node = t.f.node := by
  have hAddress : (L.fileHeaderSize : FAU) + (if 0 < ((i + 1 : Nat) : Int) then
      ((i + 1 : Nat) : Int) - 1 else (i + 1 : Nat)) * sizeOfBtreeHeader = treeAddress L i := by
    rw [if_pos (by omega), treeAddress, show ((i + 1 : Nat) : Int) - 1 = i by omega]
  have hHeader : t.flush.f.header (treeAddress L i) = some (H i) := by
    by_cases hNe : i = c
    · subst hNe
      rw [hT.header, ← hT.address]
      exact Function.update_self _ _ _
    · exact hT.flush.saved i hi hNe
  refine ⟨{ t.flush with headerAddress := treeAddress L i, header := H i, headerInSync := true },
    ?_, ?_, rfl⟩
  · rw [DataReel.reConnect, Exec.bind_ok (Exec.modify_run _ _), Exec.bind_ok (Exec.modify_run _ _),
      hAddress, readBtreeHeader]
    simp only [hHeader]
  · refine ⟨hi, rfl, rfl, fun j hj hNe => ?_, hT.trees, hT.flush.blocks, hT.free⟩
    by_cases hCurrent : j = c
    · subst hCurrent
      change Function.update t.f.header t.headerAddress (some t.header) (treeAddress L j) = _
      rw [← hT.address, Function.update_self, hT.header]
    · exact hT.flush.saved j hj hCurrent

end Forest

/-! ## Runs -/

/-- The call is one that the tree at hand stands, as a tree on which both deletions are used. -/
def SafeCall (K : KeyClass κ) (e : TreesCall κ) (t : Btree κ) : Prop :=
  ∀ c, e = .call c → c.Update → MixedSafe K c t

/-- The trees that the object is reconnected to are in the file. -/
def TreesCall.InFile (numTrees : Nat) (e : TreesCall κ) : Prop :=
  ∀ n, e = .reConnect n → 1 ≤ n ∧ n ≤ numTrees

variable {L : FileLayout} {K : KeyClass κ} {numTrees : Nat} {H : Nat → BtreeHeader} {c : Nat}
  {t : Btree κ}

theorem isolated_of_same {e : TreesCall κ} (hUpdates : ¬ e.Updates) (hConnects : ∀ n, e ≠ .reConnect n)
    (hSame : ((trees L K).step e t).2 = t) : Isolated L K numTrees e t := by
  refine ⟨fun h => absurd h hUpdates, fun i _ _ => ?_, fun _ => ?_, fun i hi => absurd hi (hConnects _)⟩
  · rw [hSame]
    exact ⟨rfl, rfl⟩
  · rw [hSame]

theorem forest_update (hK : K.StrictOrder) (hT : Forest L K.comparison numTrees H c t)
    {call : Call κ} (hUpdate : call.Update) (hSafe : MixedSafe K call t) :
    Isolated L K numTrees (.call call) t ∧
      ∃ H', Forest L K.comparison numTrees H' c ((gxBtree K).step call t).2 := by
  have hW := hT.wellFormed
  have hNext := (mixed_simulates hK).next (t := hW.keySet) ⟨hW, rfl⟩ ⟨hUpdate, hSafe⟩
  have hAnswer := (mixed_simulates hK).answer (t := hW.keySet) ⟨hW, rfl⟩ ⟨hUpdate, hSafe⟩
  obtain ⟨hFixed, hFree⟩ := call_fixed K call hT.free
  obtain ⟨hT', hKeys⟩ := hT.after hNext.wellFormed hFixed hFree
  refine ⟨⟨fun _ => ?_, fun i hi hOther => ?_, fun _ => ?_, nofun⟩, _, hT'⟩
  · change ((gxBtree K).step call t).1 ≠ _
    rw [hAnswer]
    exact KeySet.machine_defined hK.strict call hW.keySet
  · have hNe : i ≠ c := by
      rintro rfl
      exact hOther hUpdate hT.address
    change ((gxBtree K).step call t).2.headerOf L i = _ ∧ ((gxBtree K).step call t).2.keysOf L i = _
    rw [hT'.headerOf hi, hT.headerOf hi, hT'.keysOf hi, hT.keysOf hi, Function.update_of_ne hNe,
      hKeys i hi hNe]
    exact ⟨rfl, rfl⟩
  · exact hT'.address.trans hT.address.symm

theorem forest_step (hK : K.StrictOrder) (hT : Forest L K.comparison numTrees H c t)
    {e : TreesCall κ} (hInFile : e.InFile numTrees) (hSafe : SafeCall K e t) :
    Isolated L K numTrees e t ∧
      ∃ H' c', Forest L K.comparison numTrees H' c' ((trees L K).step e t).2 := by
  cases e with
  | call call =>
    by_cases hUpdate : call.Update
    · obtain ⟨hIsolated, H', hT'⟩ := forest_update hK hT hUpdate (hSafe call rfl hUpdate)
      exact ⟨hIsolated, H', c, hT'⟩
    · have hSame : ((trees L K).step (.call call) t).2 = t := call_state K hUpdate hT.free
      exact ⟨isolated_of_same hUpdate nofun hSame, H, c, hSame.symm ▸ hT⟩
  | partialFind key =>
    have hSame : ((trees L K).step (.partialFind key) t).2 = t :=
      searched_state hT.free (partialFind_keeps K key)
    exact ⟨isolated_of_same id nofun hSame, H, c, hSame.symm ▸ hT⟩
  | reConnect n =>
    obtain ⟨hLow, hHigh⟩ := hInFile n rfl
    obtain ⟨i, rfl⟩ : ∃ i : Nat, n = (i + 1 : Nat) := ⟨(n - 1).toNat, by omega⟩
    obtain ⟨u, hRun, hU, hNode⟩ := hT.reConnect (by omega : i < numTrees)
    have hStep : (trees L K).step (.reConnect (i + 1 : Nat)) t = (.done, u) := by
      simp only [trees, hRun]
      rfl
    refine ⟨⟨fun h => absurd h id, fun j hj _ => ?_, fun h => absurd rfl (h _), fun j hj hIn => ?_⟩,
      H, i, ?_⟩
    · rw [hStep, hU.headerOf hj, hT.headerOf hj, hU.keysOf hj, hT.keysOf hj, hNode]
      exact ⟨rfl, rfl⟩
    · obtain rfl : i = j := by
        have hj := TreesCall.reConnect.inj hj
        omega
      rw [hStep]
      exact ⟨rfl, hU.address⟩
    · rw [hStep]
      exact hU

end DataReel
