import DataReel.Btree.Path
import DataReel.Library.KeySet

/-! # Searching down a tree

Every walk from the root goes from node to node by the same rule until it finds
the key or falls off a leaf. What the walks keep on the way differs, where they
arrive does not.
-/

namespace DataReel

open BtreeNode

variable {κ : Type} {K : KeyClass κ}

/-- The keys left and right of a path lie below and above the key. -/
def Around (C : Comparison κ) (key : κ) (g : NodeMap κ) (h : Nat) (path : List (Frame κ)) : Prop :=
  (∀ x ∈ keysBefore g h path, C.lt x key = true) ∧ ∀ x ∈ keysAfter g h path, C.lt key x = true

/-- The search for a key that none of the nodes on the way holds. -/
inductive Descent (C : Comparison κ) (key : κ) (g : NodeMap κ) (m : Nat) :
    Nat → FAU → List (Frame κ) → Nat → FAU → List (Frame κ) → Prop
  | refl (h : Nat) (a : FAU) (path : List (Frame κ)) : Descent C key g m h a path h a path
  | down {h : Nat} {f : Frame κ} {path : List (Frame κ)} {h' : Nat} {a' : FAU}
      {path' : List (Frame κ)} (hNull : f.address ≠ 0) (hNode : g f.address = some f.node)
      (hCount : f.node.keyCount ≤ m) (hBefore : ∀ e ∈ f.before, C.lt e.dbKey key = true)
      (hAfter : ∀ e ∈ f.after, C.lt key e.dbKey = true)
      (hRest : Descent C key g m h f.child (f :: path) h' a' path') :
      Descent C key g m (h + 1) f.address path h' a' path'

theorem Descent.height {C : Comparison κ} {key : κ} {g : NodeMap κ} {m h h' : Nat} {a a' : FAU}
    {path path' : List (Frame κ)} (hD : Descent C key g m h a path h' a' path') :
    path'.length + h' = path.length + h := by
  induction hD with
  | refl => rfl
  | down hNull hNode hCount hBefore hAfter hRest ih =>
    rw [ih, List.length_cons]
    omega

theorem Descent.trans {C : Comparison κ} {key : κ} {g : NodeMap κ} {m h h' h'' : Nat}
    {a a' a'' : FAU} {path path' path'' : List (Frame κ)}
    (hD : Descent C key g m h a path h' a' path') (hD' : Descent C key g m h' a' path' h'' a'' path'') :
    Descent C key g m h a path h'' a'' path'' := by
  induction hD with
  | refl => exact hD'
  | down hNull hNode hCount hBefore hAfter _ ih =>
    exact .down hNull hNode hCount hBefore hAfter (ih hD')

theorem PathTo.descent {C : Comparison κ} {key : κ} {g : NodeMap κ} {lo m h : Nat} {root a : FAU}
    {path : List (Frame κ)} (hP : PathTo g lo m root h a path) (hA : Around C key g h path) :
    Descent C key g m (path.length + h) root [] h a path := by
  induction path generalizing h a with
  | nil =>
    obtain rfl : a = root := hP
    rw [List.length_nil, Nat.zero_add]
    exact .refl _ _ _
  | cons f path ih =>
    obtain ⟨rfl, hNull, hNode, -, hm, -, hP⟩ := hP
    have hUp : Around C key g (h + 1) path :=
      ⟨fun x hx => hA.1 x (List.mem_append_left _ hx),
        fun x hx => hA.2 x (List.mem_append_right _ hx)⟩
    have hStep : Descent C key g m (h + 1) f.address path h f.child (f :: path) := by
      refine .down hNull hNode hm ?_ ?_ (.refl _ _ _)
      · intro e he
        exact hA.1 _ (List.mem_append_right _ (BtreeNode.mem_initKeys _ he))
      · intro e he
        exact hA.2 _ (List.mem_append_left _ (BtreeNode.mem_tailKeys _ he))
    rw [List.length_cons, Nat.add_assoc, Nat.add_comm 1 h]
    exact (ih hP hUp).trans hStep

namespace BtreeNode

theorem keys_sublist (F : FAU → List κ) (n : BtreeNode κ) :
    (n.keyEntries.map DatabaseKey.dbKey).Sublist (n.inorder F) := by
  refine List.Sublist.trans ?_ (List.sublist_append_right _ _)
  induction n.keyEntries with
  | nil => simp
  | cons e l ih =>
    simp only [List.map_cons, List.flatMap_cons, List.cons_append]
    exact List.Sublist.cons_cons _ (ih.trans (List.sublist_append_right _ _))

theorem initKeys_sublist (F : FAU → List κ) (c : FAU) (l : List (DatabaseKey κ)) :
    (l.map DatabaseKey.dbKey).Sublist (initKeys F c l) := by
  induction l generalizing c with
  | nil => simp [initKeys]
  | cons e l ih =>
    rw [List.map_cons, initKeys]
    exact (List.Sublist.cons_cons _ (ih _)).trans (List.sublist_append_right _ _)

/-- A search in a sorted node either hits an entry or falls between two. -/
theorem split_node {C : Comparison κ} (hC : C.Strict) {l : List (DatabaseKey κ)}
    (hSorted : C.Sorted (l.map DatabaseKey.dbKey)) (key : κ) :
    (∃ b e r, l = b ++ e :: r ∧ C.eqv key e.dbKey = true ∧
      (∀ x ∈ b, C.lt x.dbKey key = true) ∧ ∀ x ∈ r, C.lt key x.dbKey = true) ∨
    ∃ b r, l = b ++ r ∧ (∀ x ∈ b, C.lt x.dbKey key = true) ∧ ∀ x ∈ r, C.lt key x.dbKey = true := by
  induction l with
  | nil => exact .inr ⟨[], [], rfl, by simp, by simp⟩
  | cons e l ih =>
    obtain ⟨hFirst, hTail⟩ := Comparison.sorted_cons.mp hSorted
    have hFirst : ∀ x ∈ l, C.lt e.dbKey x.dbKey = true :=
      fun x hx => hFirst _ (List.mem_map_of_mem hx)
    rcases hC.total key e.dbKey with hLt | hEq | hGt
    · refine .inr ⟨[], e :: l, rfl, by simp, ?_⟩
      intro x hx
      rcases List.mem_cons.mp hx with rfl | hx
      · exact hLt
      · exact hC.lt_trans hLt (hFirst x hx)
    · exact .inl ⟨[], e, l, rfl, hEq, by simp, fun x hx => hC.lt_of_eqv_lt hEq (hFirst x hx)⟩
    · have hCons : ∀ b : List (DatabaseKey κ), (∀ x ∈ b, C.lt x.dbKey key = true) →
          ∀ x ∈ e :: b, C.lt x.dbKey key = true := by
        intro b hb x hx
        rcases List.mem_cons.mp hx with rfl | hx
        · exact hGt
        · exact hb x hx
      rcases ih hTail with ⟨b, x, r, rfl, hEq, hb, hr⟩ | ⟨b, r, rfl, hb, hr⟩
      · exact .inl ⟨e :: b, x, r, rfl, hEq, hCons b hb, hr⟩
      · exact .inr ⟨e :: b, r, rfl, hCons b hb, hr⟩

end BtreeNode

/-- A subtree in its place: the path that leads to it and the order of all keys of the tree. -/
structure Located (C : Comparison κ) (g : NodeMap κ) (lo m : Nat) (root : FAU) (h : Nat) (a : FAU)
    (path : List (Frame κ)) : Prop where
  reach : PathTo g lo m root h a path
  sub : Subtree g lo m (topKeys lo h path) h a
  sorted : C.Sorted (keysBefore g h path ++ keysFrom g h a ++ keysAfter g h path)

namespace Located

variable {C : Comparison κ} {g : NodeMap κ} {lo m h : Nat} {root a : FAU} {path : List (Frame κ)}

theorem node_sorted (hL : Located C g lo m root (h + 1) a path) {n : BtreeNode κ}
    (hn : g a = some n) : C.Sorted (n.keyEntries.map DatabaseKey.dbKey) := by
  have hMiddle := (Comparison.sorted_append.mp (Comparison.sorted_append.mp hL.sorted).1).2.1
  rw [keysFrom_at hn] at hMiddle
  exact hMiddle.sublist (keys_sublist _ n)

theorem down (hL : Located C g lo m root (h + 1) a path) {c : FAU} {l r : List (DatabaseKey κ)}
    (hn : g a = some ⟨c, l ++ r⟩) :
    Located C g lo m root h (lastBranch c l) (⟨a, c, l, r⟩ :: path) := by
  obtain ⟨hP, hT⟩ := hL.reach.down hL.sub hn
  refine ⟨hP, hT, ?_⟩
  have hSorted := hL.sorted
  rw [keysFrom_at hn, inorder_append] at hSorted
  simpa [keysBefore, keysAfter] using hSorted

theorem up {f : Frame κ} (hL : Located C g lo m root h a (f :: path)) :
    Located C g lo m root (h + 1) f.address path := by
  obtain ⟨⟨rfl, hNull, hNode, hLow, hm, hSib, hP⟩, hSub, hSorted⟩ := hL
  refine ⟨hP, Subtree.mk hNull hNode hLow hm ?_, ?_⟩
  · intro b hb
    rcases f.mem_branches.mp hb with rfl | hb
    · exact hSub
    · exact hSib b hb
  · rw [keysFrom_at hNode, f.inorder_node]
    simpa [keysBefore, keysAfter] using hSorted

theorem around_down (hL : Located C g lo m root (h + 1) a path) (hC : C.Strict) {key : κ}
    (hA : Around C key g (h + 1) path) {c : FAU} {l r : List (DatabaseKey κ)}
    (hn : g a = some ⟨c, l ++ r⟩) (hl : ∀ e ∈ l, C.lt e.dbKey key = true)
    (hr : ∀ e ∈ r, C.lt key e.dbKey = true) : Around C key g h (⟨a, c, l, r⟩ :: path) := by
  have hSorted := (hL.down hn).sorted
  rw [List.append_assoc] at hSorted
  constructor
  · rcases List.eq_nil_or_concat l with rfl | ⟨l', e, rfl⟩
    · simpa [keysBefore, initKeys] using hA.1
    · rw [List.concat_eq_append] at hl hSorted ⊢
      have hLast := hl e (by simp)
      have hBefore := (Comparison.sorted_append.mp hSorted).1
      rw [keysBefore, initKeys_concat, ← List.append_assoc] at hBefore ⊢
      intro x hx
      rcases List.mem_append.mp hx with hx | hx
      · exact hC.lt_trans ((Comparison.sorted_append.mp hBefore).2.2 x hx _ (by simp)) hLast
      · obtain rfl := List.mem_singleton.mp hx
        exact hLast
  · cases r with
    | nil => simpa [keysAfter] using hA.2
    | cons e r =>
      have hFirst := hr e List.mem_cons_self
      have hAfter := (Comparison.sorted_append.mp (Comparison.sorted_append.mp hSorted).2.1).2.1
      rw [keysAfter, tailKeys_cons, List.cons_append, List.cons_append] at hAfter ⊢
      intro x hx
      rcases List.mem_cons.mp hx with rfl | hx
      · exact hFirst
      · exact hC.lt_trans hFirst ((Comparison.sorted_cons.mp hAfter).1 x hx)

end Located

theorem Descent.located {C : Comparison κ} {key : κ} {g : NodeMap κ} {lo m h h' : Nat} {root a a' : FAU}
    {path path' : List (Frame κ)} (hD : Descent C key g m h a path h' a' path')
    (hL : Located C g lo m root h a path) : Located C g lo m root h' a' path' := by
  induction hD with
  | refl => exact hL
  | down hNull hNode hCount hBefore hAfter hRest ih => exact ih (hL.down hNode)

theorem Descent.around {C : Comparison κ} {key : κ} {g : NodeMap κ} {lo m h h' : Nat}
    {root a a' : FAU} {path path' : List (Frame κ)} (hC : C.Strict)
    (hD : Descent C key g m h a path h' a' path') (hL : Located C g lo m root h a path)
    (hA : Around C key g h path) : Around C key g h' path' := by
  induction hD with
  | refl => exact hA
  | down hNull hNode hCount hBefore hAfter hRest ih =>
    exact ih (hL.down hNode) (hL.around_down hC hA hNode hBefore hAfter)

/-- The node at the end of a search, split at an entry that equals the key. -/
structure Hit (C : Comparison κ) (key : κ) (g : NodeMap κ) (f : Frame κ) (e : DatabaseKey κ) :
    Prop where
  node : g f.address = some ⟨f.leftChild, f.before ++ e :: f.after⟩
  equal : C.eqv key e.dbKey = true
  before : ∀ x ∈ f.before, C.lt x.dbKey key = true
  after : ∀ x ∈ f.after, C.lt key x.dbKey = true

/-- A search arrives at an entry that equals the key or at a null branch. -/
theorem Located.search {C : Comparison κ} (hC : C.Strict) (key : κ) {g : NodeMap κ} {lo m : Nat}
    {root : FAU} {h : Nat} {a : FAU} {path : List (Frame κ)} (hL : Located C g lo m root h a path) :
    (∃ h' f e path', Descent C key g m h a path (h' + 1) f.address path' ∧ Hit C key g f e) ∨
    ∃ path', Descent C key g m h a path 0 0 path' := by
  induction h generalizing a path with
  | zero =>
    obtain rfl : a = 0 := Subtree.zero_iff.mp hL.sub
    exact .inr ⟨path, .refl 0 0 path⟩
  | succ h ih =>
    obtain ⟨⟨c, l⟩, hn, -, hm, -⟩ := hL.sub.at_node
    rcases split_node hC (hL.node_sorted hn) key with ⟨b, e, r, hl, hEq, hb, hr⟩ | ⟨b, r, hl, hb, hr⟩
    · refine .inl ⟨h, ⟨a, c, b, r⟩, e, path, .refl _ _ _, ⟨?_, hEq, hb, hr⟩⟩
      exact hl ▸ hn
    · obtain rfl : l = b ++ r := hl
      have hDown {h' a' path'} (hRest : Descent C key g m h (lastBranch c b)
          (⟨a, c, b, r⟩ :: path) h' a' path') : Descent C key g m (h + 1) a path h' a' path' :=
        Descent.down (f := ⟨a, c, b, r⟩) hL.sub.nonzero hn hm hb hr hRest
      rcases ih (hL.down hn) with ⟨h', f, e, path', hRest, hHit⟩ | ⟨path', hRest⟩
      · exact .inl ⟨h', f, e, path', hDown hRest, hHit⟩
      · exact .inr ⟨path', hDown hRest⟩

end DataReel
