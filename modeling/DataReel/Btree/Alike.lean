import DataReel.Btree.Calls
import DataReel.Library.Coupled

/-! # Calls on objects that hold one tree

No call looks at the headers in the file or at the address its own header has
there. Objects that differ only in these answer alike, and whatever the
operations on nodes and blocks keep between two objects the calls keep.
-/

namespace DataReel

variable {κ : Type}

namespace IndexFile

variable (f : IndexFile κ)

/-- The file without the headers of its trees. -/
def plain : IndexFile κ := { f with header := fun _ => none }

theorem plain_alloc : f.plain.alloc = (f.alloc.1, f.alloc.2.plain) := by
  have hLeft : (f.plain.allocsLeft = some 0) = (f.allocsLeft = some 0) := rfl
  rw [alloc, alloc]
  by_cases hNone : f.allocsLeft = some 0
  · rw [if_pos (hLeft.mpr hNone), if_pos hNone]
    rfl
  · rw [if_neg (hLeft ▸ hNone), if_neg hNone]
    cases hList : f.freeList with
    | cons a rest =>
      simp only [show f.plain.freeList = a :: rest from hList]
      rfl
    | nil =>
      simp only [show f.plain.freeList = [] from hList]
      by_cases hRoom : maxFAU < f.eof + f.blockLength
      · rw [if_pos (show maxFAU < f.plain.eof + f.plain.blockLength from hRoom), if_pos hRoom]
        rfl
      · rw [if_neg (show ¬ maxFAU < f.plain.eof + f.plain.blockLength from hRoom), if_neg hRoom]
        rfl

theorem plain_remove (a : FAU) : f.plain.remove a = ((f.remove a).1, (f.remove a).2.plain) := by
  rw [remove, remove]
  by_cases hUsed : (f.node a).isSome ∧ a ∉ f.freeList
  · rw [if_pos (show (f.plain.node a).isSome ∧ a ∉ f.plain.freeList from hUsed), if_pos hUsed]
    rfl
  · rw [if_neg (show ¬ ((f.plain.node a).isSome ∧ a ∉ f.plain.freeList) from hUsed), if_neg hUsed]

end IndexFile

namespace Btree

/-- The object without what the calls do not look at. -/
def plain (t : Btree κ) : Btree κ where
  header := t.header
  headerAddress := 0
  headerInSync := false
  f := t.f.plain

def allocated (t : Btree κ) : Btree κ := { t with f := t.f.alloc.2 }

def removed (t : Btree κ) (a : FAU) : Btree κ := { t with f := (t.f.remove a).2 }

/-- A node may be written where a node is, and anywhere once the root was lost. -/
def Writable (t : Btree κ) (a : FAU) : Prop := (t.f.node a).isSome ∨ t.f.allocFailed = true

/-- The objects hold the same tree. -/
structure SameTree (s t : Btree κ) : Prop where
  plain : s.plain = t.plain
  free : ∀ a ∈ s.f.freeList, (s.f.node a).isSome

/-- A relation that the operations on nodes and the removal of blocks keep. -/
structure StableUpdate (E : Btree κ → Btree κ → Prop) : Prop where
  setNode : ∀ {s t a n}, SameTree s t → E s t → s.Writable a → E (s.setNode a n) (t.setNode a n)
  setHeader : ∀ {s t} {h : BtreeHeader}, SameTree s t → E s t → h.nodeOrder = s.header.nodeOrder →
    h.keySize = s.header.keySize → h.numTrees = s.header.numTrees →
    E (s.setHeader h) (t.setHeader h)
  remove : ∀ {s t a}, SameTree s t → E s t → (s.f.remove a).1 = true → E (s.removed a) (t.removed a)

/-- A relation that the operations on nodes and blocks keep. -/
structure Stable (E : Btree κ → Btree κ → Prop) : Prop extends StableUpdate E where
  alloc : ∀ {s t}, SameTree s t → E s t → E s.allocated t.allocated

/-- Objects with the same tree that `E` relates, where the nodes of `A` may be written. -/
structure Alike (E : Btree κ → Btree κ → Prop) (A : List FAU) (s t : Btree κ) : Prop where
  same : SameTree s t
  related : E s t
  writable : ∀ a ∈ A, s.Writable a

variable {s t : Btree κ}

theorem allocated_plain : t.allocated.plain = t.plain.allocated := by
  rw [allocated, allocated, plain, plain, IndexFile.plain_alloc]

theorem removed_plain {a : FAU} : (t.removed a).plain = t.plain.removed a := by
  rw [removed, removed, plain, plain, IndexFile.plain_remove]

namespace SameTree

variable (h : SameTree s t)

include h

theorem header : s.header = t.header := congrArg (fun u => u.header) h.plain

theorem node : s.f.node = t.f.node := congrArg (fun u => u.f.node) h.plain

theorem order : s.order = t.order := congrArg (fun u => u.order) h.plain

theorem alloc : s.f.alloc.1 = t.f.alloc.1 := by
  have hAlloc := congrArg (fun u => u.f.alloc.1) h.plain
  simpa only [Btree.plain, IndexFile.plain_alloc] using hAlloc

theorem remove (a : FAU) : (s.f.remove a).1 = (t.f.remove a).1 := by
  have hRemove := congrArg (fun u => (u.f.remove a).1) h.plain
  simpa only [Btree.plain, IndexFile.plain_remove] using hRemove

theorem setNode (a : FAU) (n : BtreeNode κ) : SameTree (s.setNode a n) (t.setNode a n) := by
  constructor
  · exact congrArg (fun u => u.setNode a n) h.plain
  · intro b hb
    change (Function.update s.f.node a (some n) b).isSome
    rw [Function.update_apply]
    split
    · rfl
    · exact h.free b hb

theorem setHeader (hdr : BtreeHeader) : SameTree (s.setHeader hdr) (t.setHeader hdr) :=
  ⟨congrArg (fun u => u.setHeader hdr) h.plain, h.free⟩

theorem allocated : SameTree s.allocated t.allocated := by
  constructor
  · rw [allocated_plain, allocated_plain, h.plain]
  · intro b hb
    rw [Btree.allocated] at hb ⊢
    rcases s.f.alloc_cases with hAlloc | ⟨a, rest, hList, hAlloc⟩ | ⟨hList, -, hAlloc⟩
    · rw [hAlloc] at hb ⊢
      exact h.free b hb
    · rw [hAlloc] at hb ⊢
      exact h.free b (hList ▸ List.mem_cons_of_mem _ hb)
    · rw [hAlloc] at hb
      rw [show s.f.extend.freeList = [] from hList] at hb
      exact absurd hb List.not_mem_nil

theorem removed {a : FAU} : SameTree (s.removed a) (t.removed a) := by
  constructor
  · rw [removed_plain, removed_plain, h.plain]
  · intro b hb
    rw [Btree.removed] at hb ⊢
    rw [IndexFile.remove] at hb ⊢
    split at hb
    · rename_i hUsed
      rw [if_pos hUsed]
      rcases List.mem_cons.mp hb with rfl | hb
      · exact hUsed.1
      · exact h.free b hb
    · rename_i hUsed
      rw [if_neg hUsed]
      exact h.free b hb

end SameTree

/-! ## What stays writable -/

namespace Writable

variable {b : FAU} (h : t.Writable b)

include h

theorem setNode (a : FAU) (n : BtreeNode κ) : (t.setNode a n).Writable b := by
  refine h.imp (fun hSome => ?_) id
  change (Function.update t.f.node a (some n) b).isSome
  rw [Function.update_apply]
  split
  · rfl
  · exact hSome

theorem allocated : t.allocated.Writable b := by
  rw [Btree.allocated, Writable]
  rcases t.f.alloc_cases with hAlloc | ⟨a, rest, -, hAlloc⟩ | ⟨-, -, hAlloc⟩
  · rw [hAlloc]
    exact .inr rfl
  · rw [hAlloc]
    exact h
  · rw [hAlloc]
    refine h.imp (fun hSome => ?_) id
    change (Function.update t.f.node _ (some BtreeNode.new) b).isSome
    rw [Function.update_apply]
    split
    · rfl
    · exact hSome

theorem removed (a : FAU) : (t.removed a).Writable b := by
  rw [Btree.removed, IndexFile.remove]
  split
  · exact h
  · exact h

end Writable

theorem SameTree.writable_alloc (h : SameTree s t) : s.allocated.Writable s.f.alloc.1 := by
  rw [Btree.allocated, Writable]
  rcases s.f.alloc_cases with hAlloc | ⟨a, rest, hList, hAlloc⟩ | ⟨-, -, hAlloc⟩
  · rw [hAlloc]
    exact .inr rfl
  · rw [hAlloc]
    exact .inl (h.free a (hList ▸ List.mem_cons_self))
  · rw [hAlloc]
    refine .inl ?_
    change (Function.update s.f.node _ (some BtreeNode.new) _).isSome
    rw [Function.update_self]
    rfl

end Btree

end DataReel
