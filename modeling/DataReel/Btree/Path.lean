import DataReel.Btree.Shape
import DataReel.Btree.NodeSearch

/-! # Paths from the root

A path is the list of nodes between a subtree and the root, the lowest one
first, each cut at the branch the path takes. The keys and the addresses of a
tree are those of a path with those of the subtree it leads to.
-/

namespace DataReel

open BtreeNode

variable {κ : Type}

/-- A node of a path, with the entries before and after the branch taken. -/
structure Frame (κ : Type) where
  address : FAU
  leftChild : FAU
  before : List (DatabaseKey κ)
  after : List (DatabaseKey κ)

namespace Frame

variable (f : Frame κ)

def node : BtreeNode κ := ⟨f.leftChild, f.before ++ f.after⟩

def child : FAU := lastBranch f.leftChild f.before

def siblings : List FAU :=
  initBranches f.leftChild f.before ++ f.after.map DatabaseKey.rightChild

theorem keyCount_node : f.node.keyCount = f.before.length + f.after.length := by
  simp [node, keyCount]

theorem getBranch_child : f.node.getBranch ((f.before.length : Int) - 1) = some f.child :=
  getBranch_last _ _ _ _ rfl

theorem mem_branches {b : FAU} : b ∈ f.node.branches ↔ b = f.child ∨ b ∈ f.siblings := by
  simp only [node, branches_append, siblings, child, List.mem_append, List.mem_cons]
  constructor
  · rintro (h | h | h)
    · exact .inr (.inl h)
    · exact .inl h
    · exact .inr (.inr h)
  · rintro (h | h | h)
    · exact .inr (.inl h)
    · exact .inl h
    · exact .inr (.inr h)

theorem perm_branches : f.node.branches.Perm (f.child :: f.siblings) := by
  rw [node, branches_append, siblings, child]
  exact List.perm_middle

theorem inorder_node (F : FAU → List κ) :
    f.node.inorder F = initKeys F f.leftChild f.before ++ F f.child ++ tailKeys F f.after :=
  inorder_append F _ _ _

end Frame

/-- The keys to the left of a path whose subtree has height `h`. -/
def keysBefore (g : NodeMap κ) : Nat → List (Frame κ) → List κ
  | _, [] => []
  | h, f :: path => keysBefore g (h + 1) path ++ initKeys (keysFrom g h) f.leftChild f.before

/-- The keys to the right of a path. -/
def keysAfter (g : NodeMap κ) : Nat → List (Frame κ) → List κ
  | _, [] => []
  | h, f :: path => tailKeys (keysFrom g h) f.after ++ keysAfter g (h + 1) path

/-- The nodes of a tree outside the subtree that a path leads to. -/
def pathNodes (g : NodeMap κ) : Nat → List (Frame κ) → List FAU
  | _, [] => []
  | h, f :: path => f.address :: f.siblings.flatMap (nodesFrom g h) ++ pathNodes g (h + 1) path

/-- The fewest keys that the root of a tree of this height may hold. -/
def rootKeys (lo h : Nat) : Nat := if h ≤ 1 then 0 else min lo 1

/-- The fewest keys of the node of height `h` that a path leads to. -/
def topKeys (lo h : Nat) (path : List (Frame κ)) : Nat := if path = [] then rootKeys lo h else lo

@[simp] theorem topKeys_nil (lo h : Nat) : topKeys lo h ([] : List (Frame κ)) = rootKeys lo h := rfl

@[simp] theorem topKeys_cons (lo h : Nat) (f : Frame κ) (path : List (Frame κ)) :
    topKeys lo h (f :: path) = lo := rfl

theorem topKeys_inner (lo h : Nat) (path : List (Frame κ)) :
    min lo 1 ≤ topKeys lo (h + 1 + 1) path := by
  cases path with
  | nil => simp [rootKeys]
  | cons f path => exact Nat.min_le_left lo 1

theorem topKeys_le (lo h : Nat) (path : List (Frame κ)) : topKeys lo h path ≤ lo := by
  cases path with
  | nil =>
    rw [topKeys_nil, rootKeys]
    split <;> omega
  | cons f path => exact Nat.le_refl lo

/-- The frames lead from the root to the subtree of height `h` at an address. -/
def PathTo (g : NodeMap κ) (lo m : Nat) (root : FAU) : Nat → FAU → List (Frame κ) → Prop
  | _, a, [] => a = root
  | h, a, f :: path => f.child = a ∧ f.address ≠ 0 ∧ g f.address = some f.node ∧
    topKeys lo (h + 1) path ≤ f.node.keyCount ∧ f.node.keyCount ≤ m ∧ (∀ b ∈ f.siblings, Subtree g lo m lo h b) ∧
    PathTo g lo m root (h + 1) f.address path

theorem address_mem_pathNodes {g : NodeMap κ} {h : Nat} {f : Frame κ} {path : List (Frame κ)}
    (hf : f ∈ path) : f.address ∈ pathNodes g h path := by
  induction path generalizing h with
  | nil => cases hf
  | cons p path ih =>
    rw [pathNodes]
    rcases List.mem_cons.mp hf with rfl | hf
    · exact List.mem_append_left _ List.mem_cons_self
    · exact List.mem_append_right _ (ih hf)

/-! A path and one above it. -/

section Append

variable (g : NodeMap κ) (h : Nat) (segment path : List (Frame κ))

theorem keysBefore_append : keysBefore g h (segment ++ path) =
    keysBefore g (h + segment.length) path ++ keysBefore g h segment := by
  induction segment generalizing h with
  | nil => simp [keysBefore]
  | cons f segment ih =>
    rw [List.cons_append, keysBefore, ih, keysBefore, List.append_assoc, List.length_cons,
      Nat.add_right_comm, Nat.add_assoc h]

theorem keysAfter_append : keysAfter g h (segment ++ path) =
    keysAfter g h segment ++ keysAfter g (h + segment.length) path := by
  induction segment generalizing h with
  | nil => simp [keysAfter]
  | cons f segment ih =>
    rw [List.cons_append, keysAfter, ih, keysAfter, List.append_assoc, List.length_cons,
      Nat.add_right_comm, Nat.add_assoc h]

theorem pathNodes_append : pathNodes g h (segment ++ path) =
    pathNodes g h segment ++ pathNodes g (h + segment.length) path := by
  induction segment generalizing h with
  | nil => simp [pathNodes]
  | cons f segment ih =>
    rw [List.cons_append, pathNodes, ih, pathNodes, List.append_assoc, List.length_cons,
      Nat.add_right_comm, Nat.add_assoc h]

theorem keysBefore_left (hLeft : ∀ f ∈ segment, f.before = []) : keysBefore g h segment = [] := by
  induction segment generalizing h with
  | nil => rfl
  | cons f segment ih =>
    rw [keysBefore, ih _ fun p hp => hLeft p (List.mem_cons_of_mem _ hp),
      hLeft f List.mem_cons_self]
    rfl

end Append

section Fill

variable {g : NodeMap κ} {lo m top h : Nat} {root a : FAU} {path : List (Frame κ)}

theorem keysFrom_fill (hP : PathTo g lo m root h a path) :
    keysFrom g (path.length + h) root =
      keysBefore g h path ++ keysFrom g h a ++ keysAfter g h path := by
  induction path generalizing h a with
  | nil =>
    obtain rfl : a = root := hP
    simp [keysBefore, keysAfter]
  | cons f path ih =>
    obtain ⟨rfl, -, hNode, -, -, -, hP⟩ := hP
    have hLength : (f :: path).length + h = path.length + (h + 1) := by
      rw [List.length_cons]
      omega
    rw [hLength, ih hP, keysFrom_at hNode, f.inorder_node]
    simp [keysBefore, keysAfter]

theorem nodesFrom_fill (hP : PathTo g lo m root h a path) :
    (nodesFrom g (path.length + h) root).Perm (pathNodes g h path ++ nodesFrom g h a) := by
  induction path generalizing h a with
  | nil =>
    obtain rfl : a = root := hP
    simp [pathNodes]
  | cons f path ih =>
    obtain ⟨rfl, -, hNode, -, -, -, hP⟩ := hP
    have hLength : (f :: path).length + h = path.length + (h + 1) := by
      rw [List.length_cons]
      omega
    have hBranches := (f.perm_branches.flatMap_right (nodesFrom g h))
    rw [hLength]
    refine (ih hP).trans ?_
    rw [nodesFrom_at hNode, pathNodes, List.flatMap_cons] at *
    refine List.perm_append_comm.trans ?_
    simp only [List.cons_append, List.append_assoc]
    refine List.Perm.cons _ ?_
    refine (hBranches.append_right _).trans ?_
    rw [List.append_assoc]
    refine List.perm_append_comm.trans ?_
    rw [List.append_assoc]

theorem Subtree.fill (hP : PathTo g lo m root h a path)
    (hT : Subtree g lo m (topKeys lo h path) h a) :
    Subtree g lo m (rootKeys lo (path.length + h)) (path.length + h) root := by
  induction path generalizing h a with
  | nil =>
    obtain rfl : a = root := hP
    simpa using hT
  | cons f path ih =>
    obtain ⟨rfl, hNull, hNode, hLow, hm, hSib, hP⟩ := hP
    have hLength : (f :: path).length + h = path.length + (h + 1) := by
      rw [List.length_cons]
      omega
    rw [hLength]
    apply ih hP
    refine Subtree.mk hNull hNode hLow hm ?_
    intro b hb
    rcases f.mem_branches.mp hb with rfl | hb
    · exact hT
    · exact hSib b hb

end Fill

/-! ## Frame -/

section Frame

variable {g g' : NodeMap κ} {lo m : Nat} {root : FAU}

theorem same_sibling {h : Nat} {f : Frame κ} {path : List (Frame κ)}
    (hSame : ∀ b ∈ pathNodes g h (f :: path), g' b = g b) {b : FAU} (hb : b ∈ f.siblings) :
    ∀ d ∈ nodesFrom g h b, g' d = g d := by
  intro d hd
  apply hSame
  rw [pathNodes]
  exact List.mem_append_left _ (List.mem_cons_of_mem _ (List.mem_flatMap.mpr ⟨b, hb, hd⟩))

theorem same_above {h : Nat} {f : Frame κ} {path : List (Frame κ)}
    (hSame : ∀ b ∈ pathNodes g h (f :: path), g' b = g b) :
    ∀ b ∈ pathNodes g (h + 1) path, g' b = g b :=
  fun b hb => hSame b (List.mem_append_right _ hb)

theorem keysBefore_congr {h : Nat} {path : List (Frame κ)}
    (hSame : ∀ b ∈ pathNodes g h path, g' b = g b) :
    keysBefore g' h path = keysBefore g h path := by
  induction path generalizing h with
  | nil => rfl
  | cons f path ih =>
    rw [keysBefore, keysBefore, ih (same_above hSame)]
    congr 1
    apply initKeys_congr
    intro b hb
    exact keysFrom_congr (same_sibling hSame (List.mem_append_left _ hb))

theorem keysAfter_congr {h : Nat} {path : List (Frame κ)}
    (hSame : ∀ b ∈ pathNodes g h path, g' b = g b) :
    keysAfter g' h path = keysAfter g h path := by
  induction path generalizing h with
  | nil => rfl
  | cons f path ih =>
    rw [keysAfter, keysAfter, ih (same_above hSame)]
    congr 1
    apply tailKeys_congr
    intro b hb
    exact keysFrom_congr (same_sibling hSame (List.mem_append_right _ hb))

theorem pathNodes_congr {h : Nat} {path : List (Frame κ)}
    (hSame : ∀ b ∈ pathNodes g h path, g' b = g b) :
    pathNodes g' h path = pathNodes g h path := by
  induction path generalizing h with
  | nil => rfl
  | cons f path ih =>
    rw [pathNodes, pathNodes, ih (same_above hSame)]
    congr 2
    apply List.flatMap_congr
    intro b hb
    exact nodesFrom_congr (same_sibling hSame hb)

theorem PathTo.congr {h : Nat} {a : FAU} {path : List (Frame κ)}
    (hP : PathTo g lo m root h a path) (hSame : ∀ b ∈ pathNodes g h path, g' b = g b) :
    PathTo g' lo m root h a path := by
  induction path generalizing h a with
  | nil => exact hP
  | cons f path ih =>
    obtain ⟨hChild, hNull, hNode, hLow, hm, hSib, hP⟩ := hP
    have hSelf : g' f.address = g f.address := hSame _ List.mem_cons_self
    refine ⟨hChild, hNull, hSelf.trans hNode, hLow, hm, ?_, ih hP (same_above hSame)⟩
    intro b hb
    exact (hSib b hb).congr (same_sibling hSame hb)

end Frame

section Root

variable {g : NodeMap κ} {lo m h : Nat} {root a : FAU} {path : List (Frame κ)}

theorem PathTo.root_mem (hP : PathTo g lo m root h a path) (hNil : path ≠ []) :
    root ∈ pathNodes g h path := by
  induction path generalizing h a with
  | nil => exact absurd rfl hNil
  | cons f path ih =>
    obtain ⟨-, -, -, -, -, -, hP⟩ := hP
    rw [pathNodes]
    cases path with
    | nil =>
      obtain rfl : f.address = root := hP
      exact List.mem_append_left _ List.mem_cons_self
    | cons _ _ => exact List.mem_append_right _ (ih hP (by simp))

/-- A node of a tree is its root only at the end of the path. -/
theorem PathTo.eq_root_iff (hP : PathTo g lo m root (h + 1) a path)
    (hNodup : (pathNodes g (h + 1) path ++ nodesFrom g (h + 1) a).Nodup) :
    a = root ↔ path = [] := by
  constructor
  · rintro rfl
    by_contra hNil
    have hDisjoint := List.disjoint_of_nodup_append hNodup
    exact hDisjoint (hP.root_mem hNil) (nodesFrom_self g h a)
  · rintro rfl
    exact hP

end Root

theorem topKeys_of_ne {lo h : Nat} {path : List (Frame κ)} (hNe : path ≠ []) :
    topKeys lo h path = lo := if_neg hNe

theorem PathTo.down {g : NodeMap κ} {lo m h : Nat} {root a c : FAU} {l r : List (DatabaseKey κ)}
    {path : List (Frame κ)} (hP : PathTo g lo m root (h + 1) a path)
    (hT : Subtree g lo m (topKeys lo (h + 1) path) (h + 1) a) (hn : g a = some ⟨c, l ++ r⟩) :
    PathTo g lo m root h (lastBranch c l) (⟨a, c, l, r⟩ :: path) ∧
      Subtree g lo m lo h (lastBranch c l) := by
  obtain ⟨n, hn', hTop, hm, hB⟩ := hT.at_node
  obtain rfl : ⟨c, l ++ r⟩ = n := Option.some.inj (hn.symm.trans hn')
  have hBranch (b : FAU) : b ∈ (⟨a, c, l, r⟩ : Frame κ).node.branches ↔ _ := Frame.mem_branches _
  refine ⟨⟨rfl, hT.nonzero, hn, hTop, hm, ?_, hP⟩, hB _ ((hBranch _).mpr (.inl rfl))⟩
  exact fun b hb => hB b ((hBranch b).mpr (.inr hb))

theorem PathTo.replace {g g' : NodeMap κ} {lo m h : Nat} {root root' a : FAU}
    {segment path path' : List (Frame κ)} (hNe : path ≠ []) (hNe' : path' ≠ [])
    (hSame : ∀ b ∈ pathNodes g h segment, g' b = g b)
    (hP : PathTo g lo m root h a (segment ++ path))
    (hBase : ∀ b, PathTo g lo m root (h + segment.length) b path →
      PathTo g' lo m root' (h + segment.length) b path') :
    PathTo g' lo m root' h a (segment ++ path') := by
  induction segment generalizing h a with
  | nil => exact hBase a hP
  | cons f segment ih =>
    obtain ⟨hChild, hNull, hNode, hLow, hm, hSib, hP⟩ := hP
    have hSelf : g' f.address = g f.address := hSame _ List.mem_cons_self
    rw [List.length_cons, ← Nat.add_assoc, Nat.add_right_comm] at hBase
    refine ⟨hChild, hNull, hSelf.trans hNode, ?_, hm, ?_, ih (same_above hSame) hP hBase⟩
    · rw [topKeys_of_ne (by simp [hNe'])]
      rwa [topKeys_of_ne (by simp [hNe])] at hLow
    · intro b hb
      exact (hSib b hb).congr (same_sibling hSame hb)

theorem PathTo.above {g : NodeMap κ} {lo m h : Nat} {root a : FAU} {f : Frame κ}
    {segment path : List (Frame κ)} (hP : PathTo g lo m root h a (segment ++ f :: path)) :
    PathTo g lo m root (h + segment.length) f.child (f :: path) := by
  induction segment generalizing h a with
  | nil =>
    obtain ⟨rfl, hP⟩ := hP
    exact ⟨rfl, hP⟩
  | cons p segment ih =>
    obtain ⟨-, -, -, -, -, -, hP⟩ := hP
    rw [List.length_cons, ← Nat.add_assoc, Nat.add_right_comm]
    exact ih hP

end DataReel
