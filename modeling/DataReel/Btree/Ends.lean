import DataReel.Btree.FastDeleteRun
import DataReel.Btree.Search

/-! # The two ends of a subtree

A search that has to go to the first or the last key of a subtree goes to its
leftmost or rightmost leaf. It finds the key there unless that leaf is empty.
-/

namespace DataReel

open BtreeNode

variable {κ : Type} {C : Comparison κ}

/-- The first entry of the leftmost leaf below an address of height `h + 1`. -/
def firstEntry (g : NodeMap κ) : Nat → FAU → Option (DatabaseKey κ)
  | 0, a => (g a).bind fun n => n.keyEntries.head?
  | h + 1, a => (g a).bind fun n => firstEntry g h n.leftChild

/-- The last entry of the rightmost leaf. -/
def lastEntry (g : NodeMap κ) : Nat → FAU → Option (DatabaseKey κ)
  | 0, a => (g a).bind fun n => n.keyEntries.getLast?
  | h + 1, a => (g a).bind fun n => lastEntry g h (lastBranch n.leftChild n.keyEntries)

section Ends

variable {g : NodeMap κ} {lo m top h : Nat} {a : FAU} {e : DatabaseKey κ}

theorem firstEntry_of_leftPath {n : BtreeNode κ} {path : List (Frame κ)}
    (hn : g (leftPath g h a path).1 = some n) (hT : Subtree g lo m top (h + 1) a) :
    firstEntry g h a = n.keyEntries.head? := by
  induction h generalizing a path top with
  | zero =>
    rw [firstEntry, show g a = some n from hn, Option.bind_some]
  | succ h ih =>
    obtain ⟨n', hn', -, -, hB⟩ := hT.at_node
    rw [leftPath_at hn'] at hn
    rw [firstEntry, hn', Option.bind_some]
    exact ih hn (hB _ List.mem_cons_self)

theorem inorder_first (F : FAU → List κ) (n : BtreeNode κ) :
    ∃ rest, n.inorder F = F n.leftChild ++ rest := ⟨_, rfl⟩

theorem inorder_last (F : FAU → List κ) (n : BtreeNode κ) :
    n.inorder F = initKeys F n.leftChild n.keyEntries ++ F (lastBranch n.leftChild n.keyEntries) := by
  have hAll := inorder_append F n.leftChild n.keyEntries []
  rwa [List.append_nil, tailKeys_nil, List.append_nil] at hAll

theorem head?_of_firstEntry (hFirst : firstEntry g h a = some e) :
    (keysFrom g (h + 1) a).head? = some e.dbKey := by
  induction h generalizing a with
  | zero =>
    obtain ⟨⟨c, l⟩, hn, hHead⟩ := Option.bind_eq_some_iff.mp hFirst
    obtain ⟨l, rfl⟩ := List.head?_eq_some_iff.mp hHead
    rw [keysFrom_at hn]
    rfl
  | succ h ih =>
    obtain ⟨n, hn, hNext⟩ := Option.bind_eq_some_iff.mp hFirst
    obtain ⟨rest, hRest⟩ := inorder_first (keysFrom g (h + 1)) n
    rw [keysFrom_at hn, hRest, List.head?_append, ih hNext, Option.some_or]

theorem getLast?_of_lastEntry (hLast : lastEntry g h a = some e) :
    (keysFrom g (h + 1) a).getLast? = some e.dbKey := by
  induction h generalizing a with
  | zero =>
    obtain ⟨⟨c, l⟩, hn, hEnd⟩ := Option.bind_eq_some_iff.mp hLast
    obtain ⟨l, rfl⟩ := List.getLast?_eq_some_iff.mp hEnd
    rw [keysFrom_at hn, inorder_last]
    simp [initKeys_concat, keysFrom]
  | succ h ih =>
    obtain ⟨n, hn, hNext⟩ := Option.bind_eq_some_iff.mp hLast
    rw [keysFrom_at hn, inorder_last, List.getLast?_append, ih hNext, Option.some_or]

/-! Where every node has a key, so have the leaves at both ends. -/

theorem firstEntry_isSome (hT : Subtree g 1 m 1 (h + 1) a) : (firstEntry g h a).isSome := by
  induction h generalizing a with
  | zero =>
    obtain ⟨n, hn, hTop, -⟩ := hT.at_node
    rw [firstEntry, hn, Option.bind_some, List.isSome_head?]
    exact List.length_pos_iff.mp hTop
  | succ h ih =>
    obtain ⟨n, hn, -, -, hB⟩ := hT.at_node
    rw [firstEntry, hn, Option.bind_some]
    exact ih (hB _ List.mem_cons_self)

theorem lastBranch_mem (n : BtreeNode κ) : lastBranch n.leftChild n.keyEntries ∈ n.branches := by
  have hAll := branches_append n.leftChild n.keyEntries []
  rw [List.append_nil] at hAll
  rw [show n.branches = _ from hAll]
  simp

theorem lastEntry_isSome (hT : Subtree g 1 m 1 (h + 1) a) : (lastEntry g h a).isSome := by
  induction h generalizing a with
  | zero =>
    obtain ⟨n, hn, hTop, -⟩ := hT.at_node
    rw [lastEntry, hn, Option.bind_some, List.getLast?_isSome]
    exact List.length_pos_iff.mp hTop
  | succ h ih =>
    obtain ⟨n, hn, -, -, hB⟩ := hT.at_node
    rw [lastEntry, hn, Option.bind_some]
    exact ih (hB _ (lastBranch_mem n))

end Ends

/-! ## Nodes a search passes back -/

/-- A node object that the next search may start from: it has no keys, or it is a copy of a node of
the tree. -/
def CurrNode.Live (C : Comparison κ) (lo : Nat) (t : Btree κ) (curr : CurrNode κ) : Prop :=
  curr.node.keyEntries = [] ∨
    ∃ h path, path.length + (h + 1) = t.height ∧ t.f.node curr.address = some curr.node ∧
      Located C t.f.node lo t.order t.header.root (h + 1) curr.address path

theorem CurrNode.live_new (lo : Nat) (t : Btree κ) : CurrNode.new.Live C lo t := .inl rfl

section Run

variable {t : Btree κ} {lo h : Nat} {a : FAU} {path : List (Frame κ)}

theorem Located.of_path (hP : PathTo t.f.node lo t.order t.header.root h a path)
    (hT : Subtree t.f.node lo t.order (topKeys lo h path) h a) (hHeight : path.length + h = t.height)
    (hSorted : C.Sorted t.keys) : Located C t.f.node lo t.order t.header.root h a path :=
  ⟨hP, hT, Btree.keys_of_path hP hHeight ▸ hSorted⟩

theorem Located.sorted_keys (hL : Located C t.f.node lo t.order t.header.root h a path)
    (hHeight : path.length + h = t.height) : C.Sorted t.keys :=
  Btree.keys_of_path hL.reach hHeight ▸ hL.sorted

theorem loadLeftmost_run (hL : Located C t.f.node lo t.order t.header.root (h + 1) a path)
    (hHeight : path.length + (h + 1) = t.height) (reads : Nat) :
    (firstEntry t.f.node h a = none ∧
      loadLeftmost (reads + (h + 1)) a t = .error (.error .entryNotFound) t) ∨
    ∃ e curr, firstEntry t.f.node h a = some e ∧
      loadLeftmost (reads + (h + 1)) a t = .ok (e, curr) t ∧ curr.Live C lo t := by
  obtain ⟨b, segment, -, hPath⟩ := leftPath_segment t.f.node h a
  obtain ⟨⟨c, l⟩, hn, hRun⟩ := leftmost_run hL.sub reads [] []
  have hFirst := firstEntry_of_leftPath hn hL.sub
  obtain ⟨hReach, hSub, hLength⟩ := leftPath_reach hL.reach hL.sub
  rw [hPath] at hn hRun hReach hSub hLength
  simp only [List.append_nil, List.map_nil] at hn hRun
  rw [hFirst, loadLeftmost, Exec.bind_ok hRun]
  cases l with
  | nil => exact .inl ⟨rfl, rfl⟩
  | cons e r =>
    have hHeight' : (segment ++ path).length + 1 = t.height := by
      dsimp only at hLength
      omega
    refine .inr ⟨e, ⟨b, ⟨c, e :: r⟩⟩, rfl, ?_, .inr ⟨0, segment ++ path, hHeight', hn, ?_⟩⟩
    · dsimp only
      rw [if_neg (by simp [keyCount]), loadKey_first, Exec.bind_ok (access_some _ _)]
      rfl
    · exact Located.of_path hReach hSub hHeight' (hL.sorted_keys hHeight)

theorem rightmost_run (hL : Located C t.f.node lo t.order t.header.root (h + 1) a path)
    (hHeight : path.length + (h + 1) = t.height) (reads : Nat) :
    ∃ curr, rightmost (reads + (h + 1)) a t = .ok curr t ∧ curr.Live C lo t ∧
      curr.node.keyEntries.getLast? = lastEntry t.f.node h a := by
  induction h generalizing a path with
  | zero =>
    obtain ⟨n, hn, -, hm, hB⟩ := hL.sub.at_node
    have hBranch : n.getBranch n.highestKey = some (lastBranch n.leftChild n.keyEntries) :=
      getBranch_last _ _ [] n (by rw [List.append_nil])
    have hNull := Subtree.zero_iff.mp (hB _ (lastBranch_mem n))
    refine ⟨⟨a, n⟩, ?_, .inr ⟨0, path, hHeight, hn, hL⟩, ?_⟩
    · rw [rightmost, Exec.bind_ok (readNode_run hn hm), hBranch, Exec.bind_ok (access_some _ _),
        if_pos hNull]
      rfl
    · rw [lastEntry, hn, Option.bind_some]
  | succ h ih =>
    obtain ⟨⟨c, l⟩, hn, -, hm, hB⟩ := hL.sub.at_node
    have hBranch : (⟨c, l⟩ : BtreeNode κ).getBranch (highestKey ⟨c, l⟩) = some (lastBranch c l) :=
      getBranch_last _ _ [] _ (by rw [List.append_nil])
    have hDown := hL.down (l := l) (r := []) (by rw [List.append_nil]; exact hn)
    obtain ⟨curr, hRun, hLive, hLast⟩ := ih hDown (by rw [List.length_cons]; omega)
    refine ⟨curr, ?_, hLive, ?_⟩
    · rw [← Nat.add_assoc, rightmost, Exec.bind_ok (readNode_run hn hm), hBranch,
        Exec.bind_ok (access_some _ _), if_neg hDown.sub.nonzero, hRun]
    · rw [hLast, lastEntry, hn, Option.bind_some]

end Run

end DataReel
