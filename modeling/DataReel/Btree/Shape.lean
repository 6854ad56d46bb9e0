import DataReel.Btree.Node
import Mathlib.Data.List.Perm.Basic
import Mathlib.Data.List.Nodup
import Mathlib.Logic.Function.Basic

/-! # Subtrees in a map of nodes

The nodes below an address, read to a given height: their keys in order, their
addresses, and what makes them a subtree whose leaves all lie at that height. A
subtree of height 0 is the null address.
-/

namespace DataReel

variable {κ : Type}

/-- The nodes of a file by object address. -/
abbrev NodeMap (κ : Type) := FAU → Option (BtreeNode κ)

namespace BtreeNode

/-- The child addresses from left to right. -/
def branches (n : BtreeNode κ) : List FAU := n.leftChild :: n.keyEntries.map DatabaseKey.rightChild

/-- The keys of the entries with the keys that `F` gives for each child. -/
def inorder (F : FAU → List κ) (n : BtreeNode κ) : List κ :=
  F n.leftChild ++ n.keyEntries.flatMap fun e => e.dbKey :: F e.rightChild

/-- The branch after the entries `l`. -/
def lastBranch : FAU → List (DatabaseKey κ) → FAU
  | c, [] => c
  | _, e :: l => lastBranch e.rightChild l

/-- The branches before the last one. -/
def initBranches : FAU → List (DatabaseKey κ) → List FAU
  | _, [] => []
  | c, e :: l => c :: initBranches e.rightChild l

/-- The keys before the last branch. -/
def initKeys (F : FAU → List κ) : FAU → List (DatabaseKey κ) → List κ
  | _, [] => []
  | c, e :: l => F c ++ e.dbKey :: initKeys F e.rightChild l

/-- The keys after a branch that the entries `r` follow. -/
def tailKeys (F : FAU → List κ) (r : List (DatabaseKey κ)) : List κ :=
  r.flatMap fun e => e.dbKey :: F e.rightChild

section Split

variable (F : FAU → List κ) (c : FAU) (l r : List (DatabaseKey κ)) (e : DatabaseKey κ)

@[simp] theorem tailKeys_cons : tailKeys F (e :: r) = e.dbKey :: F e.rightChild ++ tailKeys F r := by
  simp [tailKeys]

@[simp] theorem tailKeys_nil : tailKeys F ([] : List (DatabaseKey κ)) = [] := rfl

theorem inorder_append :
    inorder F ⟨c, l ++ r⟩ = initKeys F c l ++ F (lastBranch c l) ++ tailKeys F r := by
  induction l generalizing c with
  | nil => simp [inorder, initKeys, lastBranch, tailKeys]
  | cons x l ih =>
    have ih := ih x.rightChild
    simp only [inorder, List.flatMap_append] at ih
    simp [inorder, initKeys, lastBranch, ih]

/-- A node and the two halves around one of its entries hold the same keys. -/
theorem inorder_split :
    inorder F ⟨c, l ++ e :: r⟩ = inorder F ⟨c, l⟩ ++ e.dbKey :: inorder F ⟨e.rightChild, r⟩ := by
  simp [inorder]

theorem branches_append :
    branches ⟨c, l ++ r⟩ =
      initBranches c l ++ lastBranch c l :: r.map DatabaseKey.rightChild := by
  induction l generalizing c with
  | nil => rfl
  | cons x l ih =>
    have ih := ih x.rightChild
    simp only [branches] at ih
    simp [branches, initBranches, lastBranch, ← ih]

theorem branches_split :
    branches ⟨c, l ++ e :: r⟩ = branches ⟨c, l⟩ ++ branches ⟨e.rightChild, r⟩ := by
  simp [branches]

@[simp] theorem lastBranch_concat : lastBranch c (l ++ [e]) = e.rightChild := by
  induction l generalizing c with
  | nil => rfl
  | cons x l ih => exact ih x.rightChild

theorem initBranches_concat : initBranches c (l ++ [e]) = initBranches c l ++ [lastBranch c l] := by
  induction l generalizing c with
  | nil => rfl
  | cons x l ih => simp [initBranches, lastBranch, ih]

theorem initKeys_concat :
    initKeys F c (l ++ [e]) = initKeys F c l ++ F (lastBranch c l) ++ [e.dbKey] := by
  induction l generalizing c with
  | nil => simp [initKeys, lastBranch]
  | cons x l ih => simp [initKeys, lastBranch, ih]

theorem getBranch_last (n : BtreeNode κ) (hn : n = ⟨c, l ++ r⟩) :
    n.getBranch ((l.length : Int) - 1) = some (lastBranch c l) := by
  subst hn
  rcases List.eq_nil_or_concat l with rfl | ⟨l', x, rfl⟩
  · rfl
  · rw [List.concat_eq_append, lastBranch_concat, List.append_assoc, List.singleton_append,
      List.length_append, List.length_singleton]
    have hAt := getBranch_at c l' r x
    rwa [show ((l'.length + 1 : Nat) : Int) - 1 = l'.length by omega]

theorem mem_initKeys (F : FAU → List κ) {c : FAU} {l : List (DatabaseKey κ)} {e : DatabaseKey κ}
    (h : e ∈ l) : e.dbKey ∈ initKeys F c l := by
  induction l generalizing c with
  | nil => cases h
  | cons x l ih =>
    rcases List.mem_cons.mp h with rfl | h
    · simp [initKeys]
    · simp [initKeys, ih h]

theorem mem_tailKeys (F : FAU → List κ) {r : List (DatabaseKey κ)} {e : DatabaseKey κ}
    (h : e ∈ r) : e.dbKey ∈ tailKeys F r :=
  List.mem_flatMap.mpr ⟨e, h, List.mem_cons_self⟩

end Split

/-! The keys depend only on the branches that a node has. -/

theorem inorder_congr {F G : FAU → List κ} {n : BtreeNode κ} (h : ∀ b ∈ n.branches, F b = G b) :
    n.inorder F = n.inorder G := by
  rw [inorder, inorder, h _ List.mem_cons_self]
  congr 1
  apply List.flatMap_congr
  intro e he
  rw [h _ (List.mem_cons_of_mem _ (List.mem_map_of_mem he))]

theorem initKeys_congr {F G : FAU → List κ} {c : FAU} {l : List (DatabaseKey κ)}
    (h : ∀ b ∈ initBranches c l, F b = G b) : initKeys F c l = initKeys G c l := by
  induction l generalizing c with
  | nil => rfl
  | cons x l ih =>
    rw [initKeys, initKeys, h c List.mem_cons_self,
      ih fun b hb => h b (List.mem_cons_of_mem _ hb)]

theorem tailKeys_congr {F G : FAU → List κ} {r : List (DatabaseKey κ)}
    (h : ∀ b ∈ r.map DatabaseKey.rightChild, F b = G b) : tailKeys F r = tailKeys G r := by
  apply List.flatMap_congr
  intro e he
  rw [h _ (List.mem_map_of_mem he)]

end BtreeNode

open BtreeNode

/-- The keys below an address in order, down to a height. -/
def keysFrom (g : NodeMap κ) : Nat → FAU → List κ
  | 0, _ => []
  | h + 1, a =>
    match g a with
    | none => []
    | some n => n.inorder (keysFrom g h)

/-- The addresses of the nodes below an address, itself included. -/
def nodesFrom (g : NodeMap κ) : Nat → FAU → List FAU
  | 0, _ => []
  | h + 1, a =>
    match g a with
    | none => [a]
    | some n => a :: n.branches.flatMap (nodesFrom g h)

/-- Every node below the address is stored and holds at most `m` keys, the node at the address at
least `top` and the others at least `lo`, and the leaves all lie at one height. -/
def Subtree (g : NodeMap κ) (lo m : Nat) : Nat → Nat → FAU → Prop
  | _, 0, a => a = 0
  | top, h + 1, a => a ≠ 0 ∧ ∃ n, g a = some n ∧ top ≤ n.keyCount ∧ n.keyCount ≤ m ∧
    ∀ b ∈ n.branches, Subtree g lo m lo h b

section At

variable {g : NodeMap κ} {h : Nat} {a : FAU} {n : BtreeNode κ}

theorem keysFrom_at (hn : g a = some n) : keysFrom g (h + 1) a = n.inorder (keysFrom g h) := by
  simp only [keysFrom, hn]

theorem nodesFrom_at (hn : g a = some n) :
    nodesFrom g (h + 1) a = a :: n.branches.flatMap (nodesFrom g h) := by
  simp only [nodesFrom, hn]

theorem nodesFrom_child (hn : g a = some n) {b d : FAU} (hb : b ∈ n.branches)
    (hd : d ∈ nodesFrom g h b) : d ∈ nodesFrom g (h + 1) a := by
  rw [nodesFrom_at hn]
  exact List.mem_cons_of_mem _ (List.mem_flatMap.mpr ⟨b, hb, hd⟩)

theorem nodesFrom_self (g : NodeMap κ) (h : Nat) (a : FAU) : a ∈ nodesFrom g (h + 1) a := by
  cases hn : g a with
  | none => simp [nodesFrom, hn]
  | some n => simp [nodesFrom_at hn]

end At

namespace Subtree

variable {g : NodeMap κ} {lo m top h : Nat} {a : FAU}

theorem zero_iff : Subtree g lo m top 0 a ↔ a = 0 := by rw [Subtree]

theorem nonzero (hT : Subtree g lo m top (h + 1) a) : a ≠ 0 := hT.1

theorem null : Subtree g lo m top 0 0 := zero_iff.mpr rfl

theorem at_node (hT : Subtree g lo m top (h + 1) a) :
    ∃ n, g a = some n ∧ top ≤ n.keyCount ∧ n.keyCount ≤ m ∧
      ∀ b ∈ n.branches, Subtree g lo m lo h b := hT.2

theorem mk (ha : a ≠ 0) {n : BtreeNode κ} (hn : g a = some n) (hTop : top ≤ n.keyCount)
    (hm : n.keyCount ≤ m) (hB : ∀ b ∈ n.branches, Subtree g lo m lo h b) :
    Subtree g lo m top (h + 1) a := ⟨ha, n, hn, hTop, hm, hB⟩

theorem mono {top' : Nat} (hT : Subtree g lo m top h a) (hTop : top' ≤ top) :
    Subtree g lo m top' h a := by
  cases h with
  | zero => exact zero_iff.mpr (zero_iff.mp hT)
  | succ h =>
    obtain ⟨n, hn, hLow, hm, hB⟩ := hT.at_node
    exact mk hT.nonzero hn (Nat.le_trans hTop hLow) hm hB

theorem eq_zero_iff (hT : Subtree g lo m top h a) : a = 0 ↔ h = 0 := by
  cases h with
  | zero => exact iff_of_true (zero_iff.mp hT) rfl
  | succ h => exact iff_of_false hT.nonzero (Nat.succ_ne_zero h)

end Subtree

/-! ## Frame -/

section Frame

variable {g g' : NodeMap κ}

theorem nodesFrom_congr {h : Nat} {a : FAU} (hSame : ∀ b ∈ nodesFrom g h a, g' b = g b) :
    nodesFrom g' h a = nodesFrom g h a := by
  induction h generalizing a with
  | zero => rfl
  | succ h ih =>
    have ha : g' a = g a := hSame a (nodesFrom_self g h a)
    cases hn : g a with
    | none => simp only [nodesFrom, ha, hn]
    | some n =>
      rw [nodesFrom_at hn, nodesFrom_at (ha.trans hn)]
      congr 1
      apply List.flatMap_congr
      intro b hb
      apply ih
      intro d hd
      exact hSame d (nodesFrom_child hn hb hd)

theorem keysFrom_congr {h : Nat} {a : FAU} (hSame : ∀ b ∈ nodesFrom g h a, g' b = g b) :
    keysFrom g' h a = keysFrom g h a := by
  induction h generalizing a with
  | zero => rfl
  | succ h ih =>
    have ha : g' a = g a := hSame a (nodesFrom_self g h a)
    cases hn : g a with
    | none => simp only [keysFrom, ha, hn]
    | some n =>
      rw [keysFrom_at hn, keysFrom_at (ha.trans hn)]
      apply inorder_congr
      intro b hb
      apply ih
      intro d hd
      exact hSame d (nodesFrom_child hn hb hd)

theorem Subtree.congr {lo m top h : Nat} {a : FAU} (hT : Subtree g lo m top h a)
    (hSame : ∀ b ∈ nodesFrom g h a, g' b = g b) : Subtree g' lo m top h a := by
  induction h generalizing a top with
  | zero => exact zero_iff.mpr (zero_iff.mp hT)
  | succ h ih =>
    obtain ⟨n, hn, hTop, hm, hB⟩ := hT.at_node
    have ha : g' a = g a := hSame a (nodesFrom_self g h a)
    refine mk hT.nonzero (ha.trans hn) hTop hm ?_
    intro b hb
    apply ih (hB b hb)
    intro d hd
    exact hSame d (nodesFrom_child hn hb hd)

/-! The same for all branches of one node. -/

variable {h : Nat} {n : BtreeNode κ}
  (hSame : ∀ b ∈ n.branches.flatMap (nodesFrom g h), g' b = g b)

include hSame

theorem inorder_keysFrom_congr : n.inorder (keysFrom g' h) = n.inorder (keysFrom g h) :=
  inorder_congr fun b hb =>
    keysFrom_congr fun d hd => hSame d (List.mem_flatMap.mpr ⟨b, hb, hd⟩)

theorem flatMap_nodesFrom_congr :
    n.branches.flatMap (nodesFrom g' h) = n.branches.flatMap (nodesFrom g h) :=
  List.flatMap_congr fun b hb =>
    nodesFrom_congr fun d hd => hSame d (List.mem_flatMap.mpr ⟨b, hb, hd⟩)

theorem branches_congr {lo m top : Nat} (hB : ∀ b ∈ n.branches, Subtree g lo m top h b) :
    ∀ b ∈ n.branches, Subtree g' lo m top h b :=
  fun b hb => (hB b hb).congr fun d hd => hSame d (List.mem_flatMap.mpr ⟨b, hb, hd⟩)

end Frame

theorem same_of_not_mem {g : NodeMap κ} {a : FAU} {l : List FAU} (ha : a ∉ l)
    (v : Option (BtreeNode κ)) : ∀ b ∈ l, Function.update g a v b = g b := by
  intro b hb
  exact Function.update_of_ne (ne_of_mem_of_not_mem hb ha) _ _

end DataReel
