import DataReel.Btree.Node
import DataReel.Library.Ring

/-! # The rings of the caches

The buckets of a `BtreeCache` and the segments of a `gxDatabaseCache` are arrays whose elements are
linked in a circular list, the most recently reserved one at its head. A pointer to an element is its
byte offset in the array.
-/

namespace DataReel

structure Cache (β : Type) where
  links : Links Int
  entry : Int → β
  number : Nat

/-- The minimum that `MIN_BTREECACHE_SEGMENTS` and `MIN_DATABASE_SEGMENTS` set. -/
def bucketCount (numBuckets : Nat) : Nat :=
  if numBuckets = 0 ∨ numBuckets < 3 then 3 else numBuckets

/-- The elements of the array, `size` bytes each. -/
def bucketArray (size numBuckets : Nat) : List Int :=
  (List.range (bucketCount numBuckets)).map fun i : Nat => (i * size : Int)

namespace Links

def demote (c : Links Int) (bucket : Int) : Links Int :=
  if bucket = c.tail then c
  else
    let c :=
      if bucket = c.head then
        let c := c.setPrev (c.next bucket) bucket
        { c with head := c.next bucket }
      else
        let c := c.setNext (c.prev bucket) (c.next bucket)
        c.setPrev (c.next bucket) (c.prev bucket)
    let c := c.setNext bucket c.head
    let c := c.setPrev bucket c.tail
    let c := c.setNext c.tail bucket
    { c with tail := bucket }

def promote (c : Links Int) (bucket : Int) : Links Int :=
  if bucket = c.head then c
  else if bucket = c.tail then
    let c := { c with tail := c.prev bucket }
    let c := c.setPrev c.head bucket
    let c := { c with head := bucket }
    c.setPrev c.head c.tail
  else
    let c := c.setNext (c.prev bucket) (c.next bucket)
    let c := c.setPrev (c.next bucket) (c.prev bucket)
    let c := c.setNext bucket c.head
    let c := c.setPrev bucket c.tail
    let c := c.setNext c.tail bucket
    let c := c.setPrev c.head bucket
    { c with head := bucket }

end Links

namespace Cache

variable {β : Type}

def setEntry (s : Cache β) (p : Int) (b : β) : Cache β :=
  { s with entry := Function.update s.entry p b }

/-- From the head around, as `FindBucket` and `FindSegment` go; `none` if that never ends. -/
def find (s : Cache β) (found : β → Bool) : Option (Option Int) :=
  Links.search (fun p => found (s.entry p)) s.links.next s.links.head s.number s.links.head

@[simp] theorem setEntry_links (s : Cache β) (p : Int) (b : β) : (s.setEntry p b).links = s.links :=
  rfl

@[simp] theorem setEntry_number (s : Cache β) (p : Int) (b : β) :
    (s.setEntry p b).number = s.number :=
  rfl

end Cache

/-! ## The B-tree cache -/

structure BtreeBucket (κ : Type) where
  node : BtreeNode κ
  nodeAddress : FAU
  isDirty : Bool

/-- How the database file answers during one call. -/
structure NodeFile (κ : Type) where
  readyForWriting : Bool
  writeNode : BtreeBucket κ → Bool
  /-- What a read leaves in the node, and if it came to its end. -/
  readNode : BtreeBucket κ → BtreeNode κ × Bool

namespace BtreeBucket

variable {κ : Type}

def resetBucket (b : BtreeBucket κ) : BtreeBucket κ :=
  { b with
    isDirty := false
    nodeAddress := 0
    node := { b.node with keyEntries := [] } }

def flush (f : NodeFile κ) (b : BtreeBucket κ) : BtreeBucket κ × Bool :=
  if b.nodeAddress ≠ 0 ∧ b.isDirty then
    if f.writeNode b then (b.resetBucket, true) else (b, false)
  else (b, true)

def readNode (f : NodeFile κ) (b : BtreeBucket κ) : BtreeBucket κ × Bool :=
  let (node, ok) := f.readNode b
  ({ b with node := node, isDirty := b.isDirty && !ok }, ok)

end BtreeBucket

abbrev BtreeCache (κ : Type) := Cache (BtreeBucket κ)

namespace BtreeCache

variable {κ : Type}

/-- The loop of `InitCache`, in which the offset of an element is a product of 32 bits. -/
def linkBuckets (size : Nat) (memory : Links Int) : Nat → Links Int
  | 0 => memory
  | i + 1 =>
    let p : Int := (i * size % 2 ^ 32 : Nat)
    let c := (linkBuckets size memory i).setPrev p (p - size)
    c.setNext p (p + size)

def initCache (size : Nat) (memory : Links Int) (number : Nat) : BtreeCache κ :=
  let c := linkBuckets size memory number
  let c := { c with
    tail := ((number - 1) * size % 2 ^ 32 : Nat)
    head := 0 }
  let c := c.setNext c.tail c.head
  { links := c.setPrev c.head c.tail
    entry := fun _ => ⟨BtreeNode.new, 0, false⟩
    number := number }

def constructCache (size : Nat) (memory : Links Int) (numBuckets : Nat) : BtreeCache κ :=
  initCache size memory (bucketCount numBuckets)

def promoteBucket (s : BtreeCache κ) (bucket : Int) : BtreeCache κ :=
  { s with links := s.links.promote bucket }

def demoteBucket (s : BtreeCache κ) (bucket : Int) : BtreeCache κ :=
  { s with links := s.links.demote bucket }

def findBucket (s : BtreeCache κ) (address : FAU) : Option (Option Int) :=
  s.find fun b => b.nodeAddress = address

def findEmptyBucket (f : Option (NodeFile κ)) (s : BtreeCache κ) : Option Int × BtreeCache κ :=
  let bucket := s.links.tail
  match f with
  | none =>
    if (s.entry bucket).isDirty then (none, s) else (some bucket, promoteBucket s bucket)
  | some f =>
    if f.readyForWriting then
      let (b, ok) := (s.entry bucket).flush f
      let s := s.setEntry bucket b
      if ok then (some bucket, promoteBucket s bucket) else (none, s)
    else if (s.entry bucket).isDirty then (none, s)
    else (some bucket, promoteBucket s bucket)

/-- The bucket that `AllocBucket` returns and the cache afterwards; the outer `none` is a search that
does not end. -/
def allocBucket (f : Option (NodeFile κ)) (address : FAU) (load : Int) (s : BtreeCache κ) :
    Option (Option Int × BtreeCache κ) :=
  if address = 0 then some (none, s)
  else
    match findBucket s address with
    | none => none
    | some (some bucket) => some (some bucket, promoteBucket s bucket)
    | some none =>
      match findEmptyBucket f s with
      | (none, s) => some (none, s)
      | (some bucket, s) =>
        let b := (s.entry bucket).resetBucket
        let b := { b with
          node := { b.node with leftChild := 0 }
          nodeAddress := address }
        if load = 1 ∧ address ≠ 0 then
          let (b, ok) := match f with
            | none => (b, false)
            | some f => b.readNode f
          if ok then some (some bucket, s.setEntry bucket b)
          else some (none, demoteBucket (s.setEntry bucket b.resetBucket) bucket)
        else some (some bucket, s.setEntry bucket b)

end BtreeCache

/-! ## The database cache -/

structure DatabaseSegment where
  isDirty : Bool
  dsAddress : FAU
  ds : List UInt8

/-- How the file answers during one call. -/
structure SegmentFile where
  write : DatabaseSegment → Bool
  read : FAU → Nat → Option (List UInt8)

namespace DatabaseSegment

def resetSegment : DatabaseSegment := ⟨false, -1, []⟩

def flush (fp : Option SegmentFile) (b : DatabaseSegment) : DatabaseSegment × Bool :=
  match fp with
  | none => (b, false)
  | some fp =>
    if !b.isDirty then (b, true)
    else if b.dsAddress ≠ -1 then
      if b.ds.isEmpty || fp.write b then
        ({ b with
          dsAddress := -1
          isDirty := false }, true)
      else (b, false)
    else (b, true)

end DatabaseSegment

abbrev DatabaseCache := Cache DatabaseSegment

namespace DatabaseCache

/-- The loop of `InitCache` and where its pointer stands after `number` elements. -/
def linkSegments (size : Nat) (memory : Links Int) : Nat → Links Int × Int
  | 0 => (memory, 0)
  | i + 1 =>
    let (c, p) := linkSegments size memory i
    let c := c.setPrev p (p - size)
    let c := c.setNext p (p + size)
    (c, c.next p)

def initCache (size : Nat) (memory : Links Int) (number : Nat) : DatabaseCache :=
  let c := (linkSegments size memory number).1
  let c := { c with tail := ((number - 1) * size % 2 ^ 32 : Nat) }
  let c := c.setNext c.tail 0
  let c := c.setPrev 0 c.tail
  { links := { c with head := 0 }
    entry := fun _ => DatabaseSegment.resetSegment
    number := number }

def constructCache (size : Nat) (memory : Links Int) (numSegments : Nat) : DatabaseCache :=
  initCache size memory (bucketCount numSegments)

def promoteSegment (s : DatabaseCache) (segment : Int) : DatabaseCache :=
  { s with links := s.links.promote segment }

def demoteSegment (s : DatabaseCache) (segment : Int) : DatabaseCache :=
  { s with links := s.links.demote segment }

def findSegment (s : DatabaseCache) (address : FAU) : Option (Option Int) :=
  s.find fun b => b.dsAddress = address

/-- Backward from the tail to a clean segment; the tail is flushed if there is none. -/
def findEmptySegment (f : Option SegmentFile) (s : DatabaseCache) :
    Option (Option Int × DatabaseCache) :=
  match Links.search (fun p => !(s.entry p).isDirty) s.links.prev s.links.tail s.number s.links.tail with
  | none => none
  | some (some segment) => some (some segment, promoteSegment s segment)
  | some none =>
    let segment := s.links.tail
    let (b, ok) := (s.entry segment).flush f
    let s := s.setEntry segment b
    if ok then some (some segment, promoteSegment s segment) else some (none, s)

def allocSegment (f : Option SegmentFile) (address : FAU) (bytes : Nat) (s : DatabaseCache) :
    Option (Option Int × DatabaseCache) :=
  if address = -1 then some (none, s)
  else
    match findSegment s address with
    | none => none
    | some (some segment) => some (some segment, promoteSegment s segment)
    | some none =>
      match findEmptySegment f s with
      | none => none
      | some (none, s) => some (none, s)
      | some (some segment, s) =>
        let b := { DatabaseSegment.resetSegment with dsAddress := address }
        if bytes > 0 ∧ address ≠ -1 then
          match f.bind fun f => f.read address bytes with
          | some data => some (some segment, s.setEntry segment { b with ds := data })
          | none =>
            some (none,
              demoteSegment (s.setEntry segment DatabaseSegment.resetSegment) segment)
        else some (some segment, s.setEntry segment b)

end DatabaseCache

end DataReel
