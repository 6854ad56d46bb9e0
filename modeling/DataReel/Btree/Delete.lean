import DataReel.Btree.State

/-! # Balanced deletion

`DeleteDatabaseKey` with `InsertBalance`, the two rotations and `Merge`.
-/

namespace DataReel

variable {κ : Type}

/-- The node changes of `InsertRightRotation`: parent, right and left node. -/
def rotateRight (m : Nat) (rightChild : FAU) (loc : Int) (parent right left : BtreeNode κ) :
    Option (BtreeNode κ × BtreeNode κ × BtreeNode κ) := do
  let compareKey ← parent.loadKey loc
  let right ← right.insertDatabaseKey m { compareKey with rightChild := right.leftChild } 0
  let branch ← left.getBranch left.highestKey
  let compareKey ← left.loadKey left.highestKey
  let parent ← parent.overWriteDatabaseKey { compareKey with rightChild := rightChild } loc
  let left ← left.deleteDatabaseKey left.highestKey
  some (parent, { right with leftChild := branch }, left)

/-- The node changes of `InsertLeftRotation`. -/
def rotateLeft (m : Nat) (rightChild : FAU) (loc : Int) (parent right left : BtreeNode κ) :
    Option (BtreeNode κ × BtreeNode κ × BtreeNode κ) := do
  let compareKey ← parent.loadKey loc
  let left ← left.appendDatabaseKey m { compareKey with rightChild := right.leftChild }
  let branch ← right.getBranch 0
  let compareKey ← right.loadKey 0
  let parent ← parent.overWriteDatabaseKey { compareKey with rightChild := rightChild } loc
  let right ← right.deleteDatabaseKey 0
  some (parent, { right with leftChild := branch }, left)

/-- The node changes of `Merge`: the parent and the left node that takes in the right one. -/
def mergeNodes (m : Nat) (loc : Int) (parent right left : BtreeNode κ) :
    Option (BtreeNode κ × BtreeNode κ) := do
  let compareKey ← parent.loadKey loc
  let left ← left.appendDatabaseKey m { compareKey with rightChild := right.leftChild }
  let parent ← parent.deleteDatabaseKey loc
  let left ← left.mergeNode m right
  some (parent, left)

/-- `InsertRightRotation` and `InsertLeftRotation` read the same two nodes and write the same
three. Passes back the parent node. -/
def rotation
    (rotate : Nat → FAU → Int → BtreeNode κ → BtreeNode κ → BtreeNode κ →
      Option (BtreeNode κ × BtreeNode κ × BtreeNode κ))
    (a : FAU) (parent : BtreeNode κ) (loc : Int) : BtreeM κ (BtreeNode κ) := do
  let t ← get
  let rightChild ← access (parent.getBranch loc)
  let leftChild ← access (parent.getBranch (loc - 1))
  let right ← readNode rightChild
  let left ← readNode leftChild
  let (parent, right, left) ← access (rotate t.order rightChild loc parent right left)
  writeNode parent a
  writeNode right rightChild
  writeNode left leftChild
  pure parent

def insertRightRotation (a : FAU) (parent : BtreeNode κ) (loc : Int) : BtreeM κ (BtreeNode κ) :=
  rotation rotateRight a parent loc

def insertLeftRotation (a : FAU) (parent : BtreeNode κ) (loc : Int) : BtreeM κ (BtreeNode κ) :=
  rotation rotateLeft a parent loc

def merge (a : FAU) (parent : BtreeNode κ) (loc : Int) : BtreeM κ (BtreeNode κ) := do
  let t ← get
  let rightChild ← access (parent.getBranch loc)
  let leftChild ← access (parent.getBranch (loc - 1))
  let right ← readNode rightChild
  let left ← readNode leftChild
  let (parent, left) ← access (mergeNodes t.order loc parent right left)
  removeNode rightChild do
    addNodes (-1)
    writeNode parent a
    writeNode left leftChild
  pure parent

/-- Balances the child of `parent` at branch `loc` after a deletion. Passes back the parent. -/
def insertBalance (a : FAU) (parent : BtreeNode κ) (loc : Int) : BtreeM κ (BtreeNode κ) := do
  let t ← get
  if loc = -1 then
    let rightChild ← access (parent.getBranch 0)
    let right ← readNode rightChild
    if right.hasMany t.order then insertLeftRotation a parent 0 else merge a parent 0
  else if loc = parent.highestKey then
    let leftChild ← access (parent.getBranch (loc - 1))
    let left ← readNode leftChild
    if left.hasMany t.order then insertRightRotation a parent loc else merge a parent loc
  else
    let leftChild ← access (parent.getBranch (loc - 1))
    let left ← readNode leftChild
    if left.hasMany t.order then insertRightRotation a parent loc
    else
      let rightChild ← access (parent.getBranch (loc + 1))
      let right ← readNode rightChild
      if right.hasMany t.order then insertLeftRotation a parent (loc + 1)
      else merge a parent loc

/-- The search for the key to delete. Passes back the address, the node, the key location, the
stack of the nodes above and the reads left. -/
def deleteWalk (K : KeyClass κ) (key : κ) :
    Nat → FAU → List FAU → BtreeM κ (FAU × BtreeNode κ × Int × List FAU × Nat)
  | 0, a, _ => if a = 0 then fail .entryNotFound else fail .badBlockError
  | reads + 1, a, stack =>
    if a = 0 then fail .entryNotFound
    else do
      let curr ← readNode a
      let found := curr.findKeyLocation K key
      if found.rv = 0 then pure (a, curr, found.keyLocation, stack, reads)
      else do
        let next ← access (curr.getBranch found.keyLocation)
        deleteWalk K key reads next (a :: stack)

/-- The turn of the parent and the loop over the grandparents: both read the node on the stack,
search it for the key and balance its child, and go on while that leaves the node with few
entries. -/
def balanceLoop (K : KeyClass κ) (key : κ) : List FAU → BtreeM κ Unit
  | [] => pure ()
  | a :: stack => do
    let parent ← readNode a
    let parent ← insertBalance a parent (parent.findKeyLocation K key).keyLocation
    let t ← get
    if parent.hasFew t.order ∧ a ≠ t.header.root then balanceLoop K key stack else pure ()

/-- Takes the key out of a node without children. -/
def deleteFromLeaf (key : DatabaseKey κ) (a : FAU) (curr : BtreeNode κ) (loc : Int)
    (stack : List FAU) : BtreeM κ (DatabaseKey κ × FAU × BtreeNode κ × List FAU) := do
  let curr ← access (curr.deleteDatabaseKey loc)
  writeNode curr a
  addKeys (-1)
  pure (key, a, curr, stack)

/-- Overwrites the key in a parent node with the first key of the leftmost leaf to its right. -/
def deleteFromParent (a : FAU) (curr : BtreeNode κ) (loc : Int) (siblingAddress : FAU)
    (stack : List FAU) (reads : Nat) :
    BtreeM κ (DatabaseKey κ × FAU × BtreeNode κ × List FAU) := do
  let compareKey ← access (curr.loadKey loc)
  let (siblingAddress, sibling, stack, _) ← leftmost reads siblingAddress (a :: stack)
  let promoted ← access (sibling.loadKey 0)
  let sibling ← access (sibling.deleteDatabaseKey 0)
  let key := { promoted with rightChild := compareKey.rightChild }
  let curr ← access (curr.overWriteDatabaseKey key loc)
  writeNode curr a
  writeNode sibling siblingAddress
  addKeys (-1)
  pure (key, siblingAddress, sibling, stack)

/-- Balances what the removal from a leaf unbalanced. -/
def finishDelete (K : KeyClass κ) (key : DatabaseKey κ) (leafAddress : FAU) (leaf : BtreeNode κ)
    (stack : List FAU) : BtreeM κ (DatabaseKey κ) := do
  let t ← get
  if leaf.hasFew t.order ∧ leafAddress ≠ t.header.root then
    balanceLoop K key.dbKey stack
    collapseRoot
    pure key
  else
    collapseRoot
    pure key

/-- Passes back the key object as the call leaves it: a promoted key replaces its value. -/
def deleteDatabaseKey (K : KeyClass κ) (key : DatabaseKey κ) : BtreeM κ (DatabaseKey κ) := do
  let t ← get
  let (a, curr, loc, stack, reads) ←
    deleteWalk K key.dbKey gxBtreeMaxNodeReads t.header.root [t.header.root]
  let siblingAddress ← access (curr.getBranch loc)
  let (key, leafAddress, leaf, stack) ←
    if siblingAddress ≠ 0 then deleteFromParent a curr loc siblingAddress stack reads
    else deleteFromLeaf { key with rightChild := 0 } a curr loc stack
  finishDelete K key leafAddress leaf stack

end DataReel
