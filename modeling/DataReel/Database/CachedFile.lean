import DataReel.Database.CacheRing
import DataReel.Library.Overlay

/-! # Reading and writing a file through the cache

`gxDBCacheNode` reads and writes through the segments of a `gxDatabaseCache`. The file takes every write
at an address in it, and a read of it fails only where the file has fewer bytes.
-/

namespace DataReel

open FileImage

structure CachedFile where
  cache : DatabaseCache
  file : List UInt8

/-- `gxDBCacheNode`, connected to the one cache. -/
structure DBCacheNode where
  dsAddress : FAU
  dsLength : Nat
  segment : Option Int
  deriving DecidableEq, Repr

namespace DatabaseSegment

/-- The file after `Flush` of the segment. -/
def flushTo (b : DatabaseSegment) (file : List UInt8) : List UInt8 :=
  if b.isDirty ∧ 0 ≤ b.dsAddress then writeAt file b.dsAddress.toNat b.ds else file

end DatabaseSegment

namespace CachedFile

variable (s : CachedFile)

/-- The file after `FindEmptySegment`, which flushes the tail if all segments are dirty. -/
def evicted : List UInt8 :=
  match Links.search (fun p => !(s.cache.entry p).isDirty) s.cache.links.prev s.cache.links.tail
    s.cache.number s.cache.links.tail with
  | some none => (s.cache.entry s.cache.links.tail).flushTo s.file
  | _ => s.file

/-- A seek before the start of the file fails. -/
def answers : SegmentFile where
  write b := 0 ≤ b.dsAddress
  read address bytes := if 0 ≤ address then readAt s.evicted address.toNat bytes else none

def allocSegment (address : FAU) (bytes : Nat) : Option (Option Int × CachedFile) :=
  match DatabaseCache.allocSegment (some s.answers) address bytes s.cache with
  | none => none
  | some (segment, cache) =>
    let missed := address ≠ -1 ∧ s.cache.findSegment address = some none
    some (segment, ⟨cache, if missed then s.evicted else s.file⟩)

/-- One turn of `Flush`, and if it could write. -/
def flushSegment (segment : Int) (s : CachedFile) : CachedFile × Bool :=
  let b := s.cache.entry segment
  if b.isDirty then
    let (b', ok) := b.flush (some s.answers)
    (⟨s.cache.setEntry segment b', if ok then b.flushTo s.file else s.file⟩, ok)
  else (s, true)

def flush : Option (CachedFile × Bool) :=
  Links.visit flushSegment s.cache.links.next s.cache.links.head s.cache.number s.cache.links.head s

end CachedFile

namespace DBCacheNode

variable (node : DBCacheNode)

def cachedWrite (buf : List UInt8) (address : FAU) (s : CachedFile) :
    Option (Option Int × DBCacheNode × CachedFile) :=
  match s.allocSegment address 0 with
  | none => none
  | some (none, s) => some (none, ⟨-1, node.dsLength, none⟩, s)
  | some (some segment, s) =>
    let b := s.cache.entry segment
    some (some segment, ⟨address, buf.length, some segment⟩,
      ⟨s.cache.setEntry segment ⟨true, b.dsAddress, buf⟩, s.file⟩)

def cachedRead (address : FAU) (bytes : Nat) (s : CachedFile) :
    Option (Option Int × DBCacheNode × CachedFile) :=
  match s.allocSegment address bytes with
  | none => none
  | some (none, s) => some (none, ⟨-1, node.dsLength, none⟩, s)
  | some (some segment, s) =>
    some (some segment, ⟨address, if bytes > 0 then bytes else node.dsLength, some segment⟩, s)

/-- The pointer of the node is to a segment with its address. -/
def valid (s : CachedFile) : Bool :=
  match node.segment with
  | none => false
  | some segment => (s.cache.entry segment).dsAddress = node.dsAddress

def bind (s : CachedFile) : Option (Option Int × DBCacheNode × CachedFile) :=
  if node.valid s then some (node.segment, node, s)
  else if node.dsLength = 0 then
    if node.dsAddress = -1 then some (none, { node with segment := none }, s)
    else
      match s.cache.findSegment node.dsAddress with
      | none => none
      | some none => some (none, { node with segment := none }, s)
      | some (some segment) =>
        some (some segment, { node with segment := some segment }, ⟨s.cache.promoteSegment segment, s.file⟩)
  else
    match s.allocSegment node.dsAddress node.dsLength with
    | none => none
    | some (none, s) => some (none, ⟨-1, node.dsLength, none⟩, s)
    | some (some segment, s) => some (some segment, { node with segment := some segment }, s)

/-- `Bind` with a number of bytes. -/
def bindBytes (bytes : Nat) (s : CachedFile) : Option (Option Int × DBCacheNode × CachedFile) :=
  { node with dsLength := bytes }.bind s

end DBCacheNode

/-! ## Calls of several nodes -/

inductive NodeCall (ι : Type) where
  | cachedRead (h : ι) (address : FAU) (bytes : Nat)
  | cachedWrite (h : ι) (buf : List UInt8) (address : FAU)
  | bind (h : ι)
  | bindBytes (h : ι) (bytes : Nat)

/-- The nodes and the cache that they are connected to. -/
structure NodeStore (ι : Type) where
  nodes : ι → DBCacheNode
  store : CachedFile

namespace NodeCall

variable {ι : Type} [DecidableEq ι]

/-- The node of a call is replaced by what the call leaves of it. -/
def put (s : NodeStore ι) (h : ι) :
    Option (Option Int × DBCacheNode × CachedFile) → Option (Option Int × NodeStore ι)
  | none => none
  | some (segment, node, store) => some (segment, ⟨Function.update s.nodes h node, store⟩)

def step (call : NodeCall ι) (s : NodeStore ι) : Option (Option Int × NodeStore ι) :=
  match call with
  | cachedRead h address bytes => put s h ((s.nodes h).cachedRead address bytes s.store)
  | cachedWrite h buf address => put s h ((s.nodes h).cachedWrite buf address s.store)
  | bind h => put s h ((s.nodes h).bind s.store)
  | bindBytes h bytes => put s h ((s.nodes h).bindBytes bytes s.store)

/-- The address and the number of bytes of a call. -/
def place (call : NodeCall ι) (s : NodeStore ι) : FAU × Nat :=
  match call with
  | cachedRead _ address bytes => (address, bytes)
  | cachedWrite _ buf address => (address, buf.length)
  | bind h => ((s.nodes h).dsAddress, (s.nodes h).dsLength)
  | bindBytes h bytes => ((s.nodes h).dsAddress, bytes)

/-- The plain write in the place of a call. -/
def plain : NodeCall ι → List UInt8 → List UInt8
  | cachedWrite _ buf address, file => if 0 ≤ address then writeAt file address.toNat buf else file
  | _, file => file

end NodeCall

end DataReel
