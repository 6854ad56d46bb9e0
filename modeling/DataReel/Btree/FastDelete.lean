import DataReel.Btree.State

/-! # Unbalanced deletion

`FastDeleteDatabaseKey` leaves nodes in place when they run empty and removes
the empty ones it meets on the way to the key that replaces a deleted one.
-/

namespace DataReel

variable {κ : Type}

/-- The search for the key to delete: the address, the node, the key location and the reads
left. -/
def findWalk (K : KeyClass κ) (key : κ) :
    Nat → FAU → BtreeM κ (FAU × BtreeNode κ × Int × Nat)
  | 0, a => if a = 0 then fail .entryNotFound else fail .badBlockError
  | reads + 1, a =>
    if a = 0 then fail .entryNotFound
    else do
      let curr ← readNode a
      let found := curr.findKeyLocation K key
      if found.rv = 0 then pure (a, curr, found.keyLocation, reads)
      else do
        let next ← access (curr.getBranch found.keyLocation)
        findWalk K key reads next

/-- What the loop over the empty siblings ends with. -/
inductive SiblingSearch (κ : Type)
  /-- A sibling that has keys. -/
  | found (a : FAU) (sibling : BtreeNode κ)
  /-- Every sibling was empty and has been removed. -/
  | allRemoved
  /-- `Remove` failed without an error code, which ends the call. -/
  | stopped

/-- Removes an empty sibling, then continues. -/
def removeSibling (a : FAU) (next : BtreeM κ (SiblingSearch κ)) : BtreeM κ (SiblingSearch κ) :=
  fun t =>
    if (t.f.remove a).1 then next ({ t with f := (t.f.remove a).2 }.addNodes (-1))
    else if (t.f.node a).isSome then .ok .stopped t
    else .error (.error .syncError) t

/-- Goes up the stack of siblings and removes the empty ones. -/
def removeEmptySiblings : List FAU → Nat → BtreeM κ (SiblingSearch κ)
  | [], _ => pure .allRemoved
  | _ :: _, 0 => fail .badBlockError
  | a :: stack, reads + 1 => do
    let sibling ← readNode a
    if sibling.isEmpty then removeSibling a (removeEmptySiblings stack reads)
    else pure (.found a sibling)

/-- The key in `parent` leaves and its place goes to the first key of `sibling`. -/
def promoteFirst (a : FAU) (parent : BtreeNode κ) (loc : Int) (siblingAddress : FAU)
    (sibling : BtreeNode κ) : BtreeM κ (DatabaseKey κ) := do
  let compareKey ← access (parent.loadKey loc)
  let promoted ← access (sibling.loadKey 0)
  let sibling ← access (BtreeNode.deleteDatabaseKey ⟨promoted.rightChild, sibling.keyEntries⟩ 0)
  let key := { promoted with rightChild := compareKey.rightChild }
  let parent ← access (parent.overWriteDatabaseKey key loc)
  writeNode parent a
  writeNode sibling siblingAddress
  addKeys (-1)
  pure key

/-- The key leaves its node together with its right child, which had no keys. -/
def dropKey (a : FAU) (parent : BtreeNode κ) (loc : Int) : BtreeM κ Unit := do
  let t ← get
  let parent ← access (parent.deleteDatabaseKey loc)
  writeNode parent a
  addKeys (-1)
  if parent.isEmpty ∧ a = t.header.root then collapseRootNode parent else pure ()

def fastDeleteFromLeaf (a : FAU) (parent : BtreeNode κ) (loc : Int) : BtreeM κ Unit := do
  let parent ← access (parent.deleteDatabaseKey loc)
  writeNode parent a
  addKeys (-1)
  collapseRoot

/-- The key in an inner node gives way to the first key after it. `leaf` is the leftmost node after
the key and `stack` the nodes passed on the way to it. -/
def fastDeleteFromParent (key : DatabaseKey κ) (a : FAU) (parent : BtreeNode κ) (loc : Int)
    (leafAddress : FAU) (leaf : BtreeNode κ) (stack : List FAU) (reads : Nat) :
    BtreeM κ (DatabaseKey κ) := do
  if leaf.isEmpty then
    match ← removeSibling leafAddress (removeEmptySiblings stack reads) with
    | .found siblingAddress sibling => promoteFirst a parent loc siblingAddress sibling
    | .allRemoved => do
      dropKey a parent loc
      pure key
    | .stopped => pure key
  else promoteFirst a parent loc leafAddress leaf

def fastDeleteDatabaseKey (K : KeyClass κ) (key : DatabaseKey κ) : BtreeM κ (DatabaseKey κ) := do
  let t ← get
  let (a, parent, loc, reads) ← findWalk K key.dbKey gxBtreeMaxNodeReads t.header.root
  let siblingAddress ← access (parent.getBranch loc)
  let key := { key with rightChild := 0 }
  if siblingAddress = 0 then
    fastDeleteFromLeaf a parent loc
    pure key
  else
    let (leafAddress, leaf, stack, reads) ← leftmost reads siblingAddress []
    fastDeleteFromParent key a parent loc leafAddress leaf stack reads

end DataReel
