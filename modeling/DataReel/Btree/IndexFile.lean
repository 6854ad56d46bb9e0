import DataReel.Btree.Node
import Mathlib.Algebra.Group.Int.Defs
import Mathlib.Logic.Function.Basic

/-! # The index file as the B-tree sees it

Every block of an index file holds one node, so all blocks have one length and
the engine's first fit search takes the head of the free space list or extends
the file. The file keeps the nodes by object address.
-/

namespace DataReel

/-- The largest value of `FAU_t` on the default 64-bit build. -/
def maxFAU : Int := 2 ^ 63 - 1

/-- The B-tree header; one is kept in memory and one in the static area of the file. -/
structure BtreeHeader where
  nodeOrder : Int
  keySize : Int
  nKeys : Int
  nNodes : Int
  btreeHeight : Int
  root : FAU
  numTrees : Int
  deriving DecidableEq, Repr

structure IndexFile (κ : Type) where
  /-- The node stored at an object address, `none` where no node was ever written. -/
  node : FAU → Option (BtreeNode κ)
  /-- The B-tree headers on disk by file address. -/
  header : FAU → Option BtreeHeader
  /-- Object addresses of the removed blocks, from `gxd_fs_fptr` on. -/
  freeList : List FAU
  /-- The `gxd_hs_fptr` member of the file header, where the blocks start. -/
  heapStart : Int
  /-- The `gxd_eof` member of the file header. -/
  eof : Int
  blockHeaderSize : Int
  blockLength : Int
  /-- How many more `Alloc` calls the file system lets succeed; `none` sets no limit. -/
  allocsLeft : Option Nat
  /-- An `Alloc` call has returned 0. -/
  allocFailed : Bool

namespace IndexFile

variable {κ : Type} (f : IndexFile κ)

def setNode (a : FAU) (n : BtreeNode κ) : IndexFile κ :=
  { f with node := Function.update f.node a (some n) }

def setHeader (a : FAU) (h : BtreeHeader) : IndexFile κ :=
  { f with header := Function.update f.header a (some h) }

def failAlloc : IndexFile κ := { f with allocFailed := true }

def reclaim (rest : List FAU) : IndexFile κ :=
  { f with freeList := rest, allocsLeft := f.allocsLeft.map (· - 1) }

def extend : IndexFile κ :=
  { f with
    eof := f.eof + f.blockLength
    node := Function.update f.node (f.eof + f.blockHeaderSize) (some BtreeNode.new)
    allocsLeft := f.allocsLeft.map (· - 1) }

/-- `Alloc` of one node. Returns the object address, or 0 if the file cannot be extended or
written. -/
def alloc : FAU × IndexFile κ :=
  if f.allocsLeft = some 0 then (0, f.failAlloc)
  else
    match f.freeList with
    | a :: rest => (a, f.reclaim rest)
    | [] =>
      if maxFAU < f.eof + f.blockLength then (0, f.failAlloc)
      else (f.eof + f.blockHeaderSize, f.extend)

/-- `Remove` of the object at `a`: false unless a normal block is there. -/
def remove (a : FAU) : Bool × IndexFile κ :=
  if (f.node a).isSome ∧ a ∉ f.freeList then (true, { f with freeList := a :: f.freeList })
  else (false, f)

theorem alloc_cases :
    f.alloc = (0, f.failAlloc) ∨
    (∃ a rest, f.freeList = a :: rest ∧ f.alloc = (a, f.reclaim rest)) ∨
    (f.freeList = [] ∧ f.eof + f.blockLength ≤ maxFAU ∧
      f.alloc = (f.eof + f.blockHeaderSize, f.extend)) := by
  rw [alloc]
  split
  · exact .inl rfl
  · cases hList : f.freeList with
    | cons a rest => exact .inr (.inl ⟨a, rest, rfl, rfl⟩)
    | nil =>
      dsimp only
      split
      · exact .inl rfl
      · rename_i hRoom
        exact .inr (.inr ⟨rfl, Int.not_lt.mp hRoom, rfl⟩)

theorem alloc_header : f.alloc.2.header = f.header := by
  rcases f.alloc_cases with h | ⟨a, rest, -, h⟩ | ⟨-, -, h⟩
  all_goals
    rw [h]
    rfl

@[simp] theorem setNode_same (a : FAU) (n : BtreeNode κ) : (f.setNode a n).node a = some n := by
  simp [setNode]

theorem setNode_other {a b : FAU} (h : b ≠ a) (n : BtreeNode κ) :
    (f.setNode a n).node b = f.node b := by
  simp [setNode, h]

@[simp] theorem setNode_freeList (a : FAU) (n : BtreeNode κ) :
    (f.setNode a n).freeList = f.freeList := rfl

@[simp] theorem setNode_eof (a : FAU) (n : BtreeNode κ) : (f.setNode a n).eof = f.eof := rfl

@[simp] theorem setNode_allocFailed (a : FAU) (n : BtreeNode κ) :
    (f.setNode a n).allocFailed = f.allocFailed := rfl

end IndexFile

end DataReel
