import DataReel.Btree.FastDelete

/-! # Searches

The uncached searches with the `curr_node` argument of their optimized
versions. A search that returns 0 throws here, one that returns 1 passes back
the key it loaded and the node it stopped in.
-/

namespace DataReel

variable {κ : Type}

/-- The `curr_node` object of a search: the node and its `node_address`. -/
structure CurrNode (κ : Type) where
  address : FAU
  node : BtreeNode κ

/-- A node as the plain searches construct it, which has no keys to start from. -/
def CurrNode.new : CurrNode κ := ⟨-1, BtreeNode.new⟩

def find (K : KeyClass κ) (key : κ) (curr : CurrNode κ) :
    BtreeM κ (DatabaseKey κ × CurrNode κ) := do
  let t ← get
  let found := curr.node.findKeyLocation K key
  if 0 < curr.node.keyCount ∧ found.rv = 0 then
    let loaded ← access (curr.node.loadKey found.keyLocation)
    pure (loaded, curr)
  else
    -- The child link of `curr_node` is looked at, but the search always restarts at the root.
    let (a, node, loc, _) ← findWalk K key gxBtreeMaxNodeReads t.header.root
    let loaded ← access (node.loadKey loc)
    pure (loaded, ⟨a, node⟩)

/-- Reads down to the leftmost leaf and loads its first key. -/
def loadLeftmost (reads : Nat) (a : FAU) : BtreeM κ (DatabaseKey κ × CurrNode κ) := do
  let (a, node, _, _) ← leftmost reads a []
  if node.keyCount ≤ 0 then fail .entryNotFound
  else
    let loaded ← access (node.loadKey 0)
    pure (loaded, ⟨a, node⟩)

def findFirst : BtreeM κ (DatabaseKey κ × CurrNode κ) := do
  let t ← get
  if t.header.nKeys = 0 then fail .entryNotFound
  else loadLeftmost gxBtreeMaxNodeReads t.header.root

/-- Reads down the last branch of each node until there is none. -/
def rightmost : Nat → FAU → BtreeM κ (CurrNode κ)
  | 0, _ => fail .badBlockError
  | reads + 1, a => do
    let node ← readNode a
    let branch ← access (node.getBranch node.highestKey)
    if branch = 0 then pure ⟨a, node⟩ else rightmost reads branch

def findLast : BtreeM κ (DatabaseKey κ × CurrNode κ) := do
  let t ← get
  if t.header.nKeys = 0 then fail .entryNotFound
  else
    let curr ← rightmost gxBtreeMaxNodeReads t.header.root
    if curr.node.keyCount ≤ 0 then fail .entryNotFound
    else
      let loaded ← access (curr.node.loadKey curr.node.highestKey)
      pure (loaded, curr)

/-- The key after the saved location in the ancestor at `parent`. -/
def loadFromParent (reads : Nat) (parent : FAU) (savLocation : Int) (curr : CurrNode κ) :
    BtreeM κ (DatabaseKey κ × CurrNode κ) :=
  if parent = 0 then fail .entryNotFound
  else
    match reads with
    | 0 => fail .badBlockError
    | _ + 1 => do
      let node ← readNode parent
      if node.keyCount ≤ 0 then fail .entryNotFound
      else if (node.keyCount : Int) ≤ savLocation + 1 then fail .entryNotFound
      else
        let loaded ← access (node.loadKey (savLocation + 1))
        pure (loaded, curr)

/-- The next key once the key was found in `curr` at `loc`. -/
def nextOf (reads : Nat) (curr : CurrNode κ) (loc : Int) (parent : FAU) (savLocation : Int) :
    BtreeM κ (DatabaseKey κ × CurrNode κ) := do
  let branch ← access (curr.node.getBranch loc)
  if branch ≠ 0 then loadLeftmost reads branch
  else if loc < (curr.node.keyCount : Int) - 1 then
    let loaded ← access (curr.node.loadKey (loc + 1))
    pure (loaded, curr)
  else loadFromParent reads parent savLocation curr

/-- The walk of `FindNext` from the root. An ancestor is remembered when it has a key after the
branch taken. -/
def nextWalk (K : KeyClass κ) (key : κ) :
    Nat → FAU → FAU → Int → BtreeM κ (DatabaseKey κ × CurrNode κ)
  | 0, a, _, _ => if a = 0 then fail .entryNotFound else fail .badBlockError
  | reads + 1, a, parent, savLocation =>
    if a = 0 then fail .entryNotFound
    else do
      let curr ← readNode a
      let found := curr.findKeyLocation K key
      if found.rv = 0 then nextOf reads ⟨a, curr⟩ found.keyLocation parent savLocation
      else do
        let next ← access (curr.getBranch found.keyLocation)
        if found.keyLocation < (curr.keyCount : Int) - 1 then
          nextWalk K key reads next a found.keyLocation
        else nextWalk K key reads next parent savLocation

def findNext (K : KeyClass κ) (key : κ) (curr : CurrNode κ) :
    BtreeM κ (DatabaseKey κ × CurrNode κ) := do
  let t ← get
  let found := curr.node.findKeyLocation K key
  if 0 < curr.node.keyCount ∧ found.rv = 0 then
    let branch ← access (curr.node.getBranch found.keyLocation)
    if branch ≠ 0 then loadLeftmost gxBtreeMaxNodeReads branch
    else if found.keyLocation < (curr.node.keyCount : Int) - 1 then
      let loaded ← access (curr.node.loadKey (found.keyLocation + 1))
      pure (loaded, curr)
    else nextWalk K key gxBtreeMaxNodeReads t.header.root 0 0
  else nextWalk K key gxBtreeMaxNodeReads t.header.root 0 0

/-- Loads the last key below branch `loc`: the key at `loc` itself if that branch is empty. -/
def loadRightmost (reads : Nat) (curr : CurrNode κ) (loc : Int) :
    BtreeM κ (DatabaseKey κ × CurrNode κ) := do
  let branch ← access (curr.node.getBranch loc)
  if branch = 0 then
    let loaded ← access (curr.node.loadKey loc)
    pure (loaded, curr)
  else
    let curr ← rightmost reads branch
    let loaded ← access (curr.node.loadKey curr.node.highestKey)
    pure (loaded, curr)

/-- The previous key once the key was found in `curr` at `loc`. The saved ancestor is the copy of
the node that was read on the way down. -/
def prevOf (reads : Nat) (curr : CurrNode κ) (loc : Int) (parent : Option (BtreeNode κ))
    (savLocation : Int) : BtreeM κ (DatabaseKey κ × CurrNode κ) :=
  if 0 ≤ loc - 1 then loadRightmost reads curr (loc - 1)
  else if curr.node.leftChild ≠ 0 then loadRightmost reads curr (-1)
  else
    match parent with
    | none => fail .entryNotFound
    | some node => do
      let loaded ← access (node.loadKey savLocation)
      pure (loaded, curr)

/-- The walk of `FindPrev` from the root. An ancestor is read again and remembered when the
search branches to the right of one of its keys. -/
def prevWalk (K : KeyClass κ) (key : κ) :
    Nat → FAU → Option (BtreeNode κ) → Int → BtreeM κ (DatabaseKey κ × CurrNode κ)
  | 0, a, _, _ => if a = 0 then fail .entryNotFound else fail .badBlockError
  | reads + 1, a, parent, savLocation =>
    if a = 0 then fail .entryNotFound
    else do
      let curr ← readNode a
      let found := curr.findKeyLocation K key
      if found.rv = 0 then prevOf reads ⟨a, curr⟩ found.keyLocation parent savLocation
      else if 0 < found.rv then
        match reads with
        | 0 => fail .badBlockError
        | reads + 1 => do
          let node ← readNode a
          let next ← access (curr.getBranch found.keyLocation)
          prevWalk K key reads next (some node) found.keyLocation
      else do
        let next ← access (curr.getBranch found.keyLocation)
        prevWalk K key reads next parent savLocation

def findPrev (K : KeyClass κ) (key : κ) (curr : CurrNode κ) :
    BtreeM κ (DatabaseKey κ × CurrNode κ) := do
  let t ← get
  let found := curr.node.findKeyLocation K key
  if 0 < curr.node.keyCount ∧ found.rv = 0 ∧
      (0 ≤ found.keyLocation - 1 ∨ curr.node.leftChild ≠ 0) then
    prevOf gxBtreeMaxNodeReads curr found.keyLocation none (-1)
  else prevWalk K key gxBtreeMaxNodeReads t.header.root none (-1)

/-- The walk of `PartialFind`: a match, or the last node with the saved ancestor. -/
def partialWalk (K : KeyClass κ) (key : κ) :
    Nat → FAU → CurrNode κ → Int → FAU → Int → BtreeM κ (DatabaseKey κ × CurrNode κ)
  | 0, a, curr, loc, parent, savLocation =>
    if a = 0 then nextOf 0 curr loc parent savLocation else fail .badBlockError
  | reads + 1, a, curr, loc, parent, savLocation =>
    if a = 0 then nextOf (reads + 1) curr loc parent savLocation
    else do
      let curr ← readNode a
      let found := curr.findKeyLocation K key
      if found.rv = 0 then do
        let loaded ← access (curr.loadKey found.keyLocation)
        pure (loaded, ⟨a, curr⟩)
      else do
        let next ← access (curr.getBranch found.keyLocation)
        if found.keyLocation < (curr.keyCount : Int) - 1 then
          partialWalk K key reads next ⟨a, curr⟩ found.keyLocation a found.keyLocation
        else partialWalk K key reads next ⟨a, curr⟩ found.keyLocation parent savLocation

def partialFind (K : KeyClass κ) (key : κ) : BtreeM κ (DatabaseKey κ × CurrNode κ) := do
  let t ← get
  partialWalk K key gxBtreeMaxNodeReads t.header.root CurrNode.new 0 0 0

/-- `ChangeKey`: the entry that equals `key` is overwritten as a whole. -/
def changeKey (K : KeyClass κ) (key : κ) (newKeyVals : DatabaseKey κ) (curr : CurrNode κ) :
    BtreeM κ (CurrNode κ) := do
  let (loaded, curr) ← find K key curr
  let found := curr.node.findKeyLocation K loaded.dbKey
  if found.rv = 0 then
    let node ← access (curr.node.overWriteDatabaseKey newKeyVals found.keyLocation)
    writeNode node curr.address
    pure { curr with node := node }
  else fail .entryNotFound

end DataReel
