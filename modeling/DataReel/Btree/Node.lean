import DataReel.Btree.Key
import Mathlib.Data.List.InsertIdx

/-! # B-tree nodes

The persistent data of a node and the operations of `BtreeNode`. The key count
is the number of entries. An operation that would touch an entry outside
`0 .. key_count - 1`, or write beyond the `node_order` slots of the node, gives
`none`: what the key buffer holds there is not determined by the file.
-/

namespace DataReel

/-- The `node_order` member that the `BtreeNode` constructor sets: the entries a node of a
tree of this order can hold. -/
def nodeOrder (order : Int) : Nat := ((if order < 5 then 5 else order) - 1).toNat

theorem nodeOrder_of_le {order : Int} (h : 5 ≤ order) : (nodeOrder order : Int) = order - 1 := by
  simp only [nodeOrder, if_neg (show ¬ order < 5 by omega)]
  omega

theorem four_le_nodeOrder (order : Int) : 4 ≤ nodeOrder order := by
  simp only [nodeOrder]
  split <;> omega

structure BtreeNode (κ : Type) where
  leftChild : FAU
  keyEntries : List (DatabaseKey κ)
  deriving DecidableEq, Repr

namespace BtreeNode

variable {κ : Type}

def new : BtreeNode κ := ⟨0, []⟩

def keyCount (n : BtreeNode κ) : Nat := n.keyEntries.length

def isEmpty (n : BtreeNode κ) : Bool := n.keyCount ≤ 0

def isFull (m : Nat) (n : BtreeNode κ) : Bool := m ≤ n.keyCount

def hasFew (m : Nat) (n : BtreeNode κ) : Bool := n.keyCount < m / 2

def hasMany (m : Nat) (n : BtreeNode κ) : Bool := m / 2 < n.keyCount

def highestKey (n : BtreeNode κ) : Int := (n.keyCount : Int) - 1

def entry (n : BtreeNode κ) (loc : Int) : Option (DatabaseKey κ) :=
  if loc < 0 then none else n.keyEntries[loc.toNat]?

def getBranch (n : BtreeNode κ) (loc : Int) : Option FAU :=
  if loc < 0 then some n.leftChild else (n.entry loc).map DatabaseKey.rightChild

def loadKey (n : BtreeNode κ) (loc : Int) : Option (DatabaseKey κ) := n.entry loc

def insertDatabaseKey (m : Nat) (n : BtreeNode κ) (key : DatabaseKey κ) (loc : Int) :
    Option (BtreeNode κ) :=
  if 0 ≤ loc ∧ loc ≤ n.keyCount ∧ n.keyCount < m then
    some { n with keyEntries := n.keyEntries.insertIdx loc.toNat key }
  else none

def appendDatabaseKey (m : Nat) (n : BtreeNode κ) (key : DatabaseKey κ) : Option (BtreeNode κ) :=
  n.insertDatabaseKey m key n.keyCount

def overWriteDatabaseKey (n : BtreeNode κ) (key : DatabaseKey κ) (loc : Int) :
    Option (BtreeNode κ) :=
  if 0 ≤ loc ∧ loc < n.keyCount then
    some { n with keyEntries := n.keyEntries.set loc.toNat key }
  else none

def deleteDatabaseKey (n : BtreeNode κ) (loc : Int) : Option (BtreeNode κ) :=
  if 0 ≤ loc ∧ loc < n.keyCount then
    some { n with keyEntries := n.keyEntries.eraseIdx loc.toNat }
  else none

/-- Splits off the entries from `loc` on. The second node keeps its own left child. -/
def splitNode (n right : BtreeNode κ) (loc : Int) : Option (BtreeNode κ × BtreeNode κ) :=
  if 0 ≤ loc ∧ loc ≤ n.keyCount then
    some ({ n with keyEntries := n.keyEntries.take loc.toNat },
      { right with keyEntries := n.keyEntries.drop loc.toNat })
  else none

def mergeNode (m : Nat) (n node : BtreeNode κ) : Option (BtreeNode κ) :=
  if n.keyCount + node.keyCount ≤ m then
    some { n with keyEntries := n.keyEntries ++ node.keyEntries }
  else none

section At

/-! The operations at a location given by the entries before it. -/

variable (m : Nat) (c : FAU) (l r : List (DatabaseKey κ)) (e key : DatabaseKey κ)

@[simp] theorem entry_at : entry ⟨c, l ++ e :: r⟩ l.length = some e := by
  simp [entry, show ¬ (l.length : Int) < 0 by omega]

@[simp] theorem loadKey_at : loadKey ⟨c, l ++ e :: r⟩ l.length = some e := entry_at c l r e

@[simp] theorem getBranch_at : getBranch ⟨c, l ++ e :: r⟩ l.length = some e.rightChild := by
  simp [getBranch, show ¬ (l.length : Int) < 0 by omega]

@[simp] theorem getBranch_left (n : BtreeNode κ) : n.getBranch (-1) = some n.leftChild := rfl

theorem insertIdx_length_append : (l ++ r).insertIdx l.length key = l ++ key :: r := by
  induction l with
  | nil => rfl
  | cons a l ih => simp [ih]

theorem insertDatabaseKey_at (h : (l ++ r).length < m) :
    insertDatabaseKey m ⟨c, l ++ r⟩ key l.length = some ⟨c, l ++ key :: r⟩ := by
  rw [insertDatabaseKey, if_pos ⟨by omega, by simp only [keyCount, List.length_append]; omega, h⟩]
  simp [insertIdx_length_append]

theorem appendDatabaseKey_at (h : l.length < m) :
    appendDatabaseKey m ⟨c, l⟩ key = some ⟨c, l ++ [key]⟩ := by
  have := insertDatabaseKey_at m c l [] key (by simpa using h)
  simpa [appendDatabaseKey, keyCount] using this

@[simp] theorem overWriteDatabaseKey_at :
    overWriteDatabaseKey ⟨c, l ++ e :: r⟩ key l.length = some ⟨c, l ++ key :: r⟩ := by
  rw [overWriteDatabaseKey, if_pos ⟨by omega, by simp only [keyCount, List.length_append, List.length_cons]; omega⟩]
  simp

@[simp] theorem deleteDatabaseKey_at :
    deleteDatabaseKey ⟨c, l ++ e :: r⟩ l.length = some ⟨c, l ++ r⟩ := by
  rw [deleteDatabaseKey, if_pos ⟨by omega, by simp only [keyCount, List.length_append, List.length_cons]; omega⟩]
  simp [List.eraseIdx_append_of_length_le]

theorem splitNode_at (right : BtreeNode κ) :
    splitNode ⟨c, l ++ r⟩ right l.length = some (⟨c, l⟩, ⟨right.leftChild, r⟩) := by
  rw [splitNode, if_pos ⟨by omega, by simp only [keyCount, List.length_append]; omega⟩]
  simp

theorem mergeNode_at (c' : FAU) (h : (l ++ r).length ≤ m) :
    mergeNode m ⟨c, l⟩ ⟨c', r⟩ = some ⟨c, l ++ r⟩ := by
  rw [mergeNode, if_pos (by simpa [keyCount] using h)]

end At

section First

variable (c : FAU) (r : List (DatabaseKey κ)) (e key : DatabaseKey κ)

@[simp] theorem loadKey_first : loadKey ⟨c, e :: r⟩ 0 = some e := loadKey_at c [] r e

@[simp] theorem getBranch_first : getBranch ⟨c, e :: r⟩ 0 = some e.rightChild :=
  getBranch_at c [] r e

@[simp] theorem deleteDatabaseKey_first : deleteDatabaseKey ⟨c, e :: r⟩ 0 = some ⟨c, r⟩ :=
  deleteDatabaseKey_at c [] r e

theorem insertDatabaseKey_first (m : Nat) (h : r.length < m) :
    insertDatabaseKey m ⟨c, r⟩ key 0 = some ⟨c, key :: r⟩ :=
  insertDatabaseKey_at m c [] r key h

end First

end BtreeNode

end DataReel
