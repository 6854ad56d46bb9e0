import DataReel.Btree.State

/-! # Insertion

`InsertDatabaseKey`: walk to the leaf, then insert and split up the stack.
-/

namespace DataReel

variable {κ : Type}

/-- The walk to the leaf. Passes back the last node, the key location in it, the stack of the
nodes on the path and the reads left. -/
def insertWalk (K : KeyClass κ) (key : κ) :
    Nat → FAU → BtreeNode κ → Int → List FAU → BtreeM κ (BtreeNode κ × Int × List FAU × Nat)
  | 0, a, curr, loc, stack =>
    if a = 0 then pure (curr, loc, stack, 0) else fail .badBlockError
  | reads + 1, a, curr, loc, stack =>
    if a = 0 then pure (curr, loc, stack, reads + 1)
    else do
      let curr ← readNode a
      let found := curr.findKeyLocation K key
      if found.rv = 0 then fail .duplicateEntry
      else do
        let next ← access (curr.getBranch found.keyLocation)
        insertWalk K key reads next curr found.keyLocation (a :: stack)

/-- The split of a full node around the insertion at `loc`. Gives the node, its new right
sibling and the entry that goes up, with the right child the entry had. -/
def splitInsert (m : Nat) (order : Int) (curr : BtreeNode κ) (key : DatabaseKey κ) (loc : Int) :
    Option (BtreeNode κ × BtreeNode κ × DatabaseKey κ) := do
  let split := if loc < order.tdiv 2 then order.tdiv 2 - 1 else order.tdiv 2
  let (curr, right) ← curr.splitNode BtreeNode.new split
  if split < loc then
    let middle ← right.loadKey 0
    let right ← right.deleteDatabaseKey 0
    let right ← right.insertDatabaseKey m key (loc - split - 1)
    some (curr, { right with leftChild := middle.rightChild }, middle)
  else if loc < split then
    let curr ← curr.insertDatabaseKey m key loc
    let middle ← right.loadKey 0
    let right ← right.deleteDatabaseKey 0
    some (curr, { right with leftChild := middle.rightChild }, middle)
  else some (curr, { right with leftChild := key.rightChild }, key)

/-- After a split the parent is read again and searched for the key that went up. -/
def insertLocate (K : KeyClass κ) (numSplits : Nat) (a : FAU) (key : κ) (curr : BtreeNode κ)
    (loc : Int) (reads : Nat) : BtreeM κ (BtreeNode κ × Int × Nat) :=
  if 0 < numSplits then
    match reads with
    | 0 => fail .badBlockError
    | reads + 1 => do
      let curr ← readNode a
      pure (curr, (curr.findKeyLocation K key).keyLocation, reads)
  else pure (curr, loc, reads)

/-- The loop over the node stack. Passes back the key object as the call leaves it. -/
def insertLoop (K : KeyClass κ) :
    List FAU → Nat → DatabaseKey κ → BtreeNode κ → Int → Nat → BtreeM κ (DatabaseKey κ)
  | [], _, _, _, _, _ => fail .insertionError
  | a :: stack, numSplits, key, curr, loc, reads => do
    let (curr, loc, reads) ← insertLocate K numSplits a key.dbKey curr loc reads
    let t ← get
    if curr.isFull t.order then
      let rightAddress ← allocNode
      if rightAddress = 0 then fail .fileWriteError
      else
        addNodes 1
        let (curr, right, middle) ←
          access (splitInsert t.order t.header.nodeOrder curr key (loc + 1))
        let key := { middle with rightChild := rightAddress }
        -- `Alloc` left the file position at the new object, where this write goes.
        writeNode right rightAddress
        writeNode curr a
        if a = t.header.root then
          growNewRoot key
          addKeys 1
          pure key
        else insertLoop K stack (numSplits + 1) key curr loc reads
    else
      let curr ← access (curr.insertDatabaseKey t.order key (loc + 1))
      writeNode curr a
      addKeys 1
      pure key

def insertDatabaseKey (K : KeyClass κ) (key : DatabaseKey κ) : BtreeM κ (DatabaseKey κ) := do
  let t ← get
  let (curr, loc, stack, reads) ←
    insertWalk K key.dbKey gxBtreeMaxNodeReads t.header.root BtreeNode.new 0 []
  insertLoop K stack 0 { key with rightChild := 0 } curr loc reads

end DataReel
