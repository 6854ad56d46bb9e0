import DataReel.Btree.IndexFile
import DataReel.Btree.NodeSearch
import DataReel.Database.Error
import DataReel.Library.Exec

/-! # The state of a B-tree object and its node I/O -/

namespace DataReel

structure Btree (κ : Type) where
  header : BtreeHeader
  headerAddress : FAU
  headerInSync : Bool
  f : IndexFile κ

/-- Why a call ends early: it returns an error code, or it touches an entry that its node does
not have, after which the source leaves its behaviour open. -/
inductive Halt
  | error (e : DatabaseError)
  | badEntry
  deriving DecidableEq, Repr

abbrev BtreeM (κ : Type) := EStateM Halt (Btree κ)

/-- Most nodes one search, insert or delete reads. -/
def gxBtreeMaxNodeReads : Nat := 4096

variable {κ : Type}

namespace Btree

/-- The entries a node of this tree can hold. -/
def order (t : Btree κ) : Nat := nodeOrder t.header.nodeOrder

def setNode (t : Btree κ) (a : FAU) (n : BtreeNode κ) : Btree κ := { t with f := t.f.setNode a n }

def setHeader (t : Btree κ) (h : BtreeHeader) : Btree κ :=
  { t with header := h, headerInSync := false }

def writeBtreeHeader (t : Btree κ) : Btree κ :=
  { t with f := t.f.setHeader t.headerAddress t.header, headerInSync := true }

def flush (t : Btree κ) : Btree κ := t.writeBtreeHeader

def addKeys (t : Btree κ) (d : Int) : Btree κ :=
  t.setHeader { t.header with nKeys := t.header.nKeys + d }

def addNodes (t : Btree κ) (d : Int) : Btree κ :=
  t.setHeader { t.header with nNodes := t.header.nNodes + d }

end Btree

def access {α : Type} : Option α → BtreeM κ α
  | none => throw .badEntry
  | some a => pure a

def fail {α : Type} (e : DatabaseError) : BtreeM κ α := throw (.error e)

/-- A node read, which rejects a key count that the node cannot hold. The read counter of
`ReadNodeChecked` is kept by its callers as the number of reads they have left. -/
def readNode (a : FAU) : BtreeM κ (BtreeNode κ) := fun t =>
  match t.f.node a with
  | none => .error (.error .fileReadError) t
  | some n => if t.order < n.keyCount then .error (.error .badBlockError) t else .ok n t

def writeNode (n : BtreeNode κ) (a : FAU) : BtreeM κ Unit := fun t => .ok () (t.setNode a n)

/-- `f->Alloc` of one node: the object address, or 0. -/
def allocNode : BtreeM κ FAU := fun t => .ok t.f.alloc.1 { t with f := t.f.alloc.2 }

def addKeys (d : Int) : BtreeM κ Unit := modify fun t => t.addKeys d

def addNodes (d : Int) : BtreeM κ Unit := modify fun t => t.addNodes d

/-- `if(!f->Remove(a)) return f->GetDatabaseError();` and then the rest. The engine reports no
error for a block that is marked removed already, so the caller then returns early without one. -/
def removeNode (a : FAU) (rest : BtreeM κ Unit) : BtreeM κ Unit := fun t =>
  if (t.f.remove a).1 then rest { t with f := (t.f.remove a).2 }
  else if (t.f.node a).isSome then .ok () t
  else .error (.error .syncError) t

/-- The result of `Alloc` is not tested here: on failure the new root goes to address 0. -/
def growNewRoot (key : DatabaseKey κ) : BtreeM κ Unit := do
  let t ← get
  let rootAddress ← allocNode
  modify fun s => s.setHeader { s.header with
    nNodes := s.header.nNodes + 1
    btreeHeight := s.header.btreeHeight + 1
    root := rootAddress }
  let newRootNode ← access (BtreeNode.insertDatabaseKey t.order ⟨t.header.root, []⟩ key 0)
  writeNode newRootNode rootAddress

def collapseRootNode (rootNode : BtreeNode κ) : BtreeM κ Unit := do
  let t ← get
  if rootNode.isEmpty ∧ 1 < t.header.btreeHeight then
    modify fun s => s.setHeader { s.header with
      root := rootNode.leftChild
      nNodes := s.header.nNodes - 1
      btreeHeight := s.header.btreeHeight - 1 }
    removeNode t.header.root (pure ())
  else pure ()

def collapseRoot : BtreeM κ Unit := do
  let t ← get
  let rootNode ← readNode t.header.root
  collapseRootNode rootNode

/-- Reads down the left children until a node without one. Passes back its address, the node,
the addresses passed on the way pushed on `stack`, and the reads left. -/
def leftmost : Nat → FAU → List FAU → BtreeM κ (FAU × BtreeNode κ × List FAU × Nat)
  | 0, _, _ => fail .badBlockError
  | reads + 1, a, stack => do
    let n ← readNode a
    if n.leftChild = 0 then pure (a, n, stack, reads)
    else leftmost reads n.leftChild (a :: stack)

end DataReel
