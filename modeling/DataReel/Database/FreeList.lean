import DataReel.Database.Database

/-! # Walks over the free space list

Reclaiming, undeleting and counting go through the list in the same way. A
walk has a bound on its turns here, which the loops of the source do not have.
-/

namespace DataReel

/-- How a walk over the free space list ends. -/
inductive ListEnd
  /-- The end of the list. -/
  | none
  | readError
  /-- There is no valid block at a link. -/
  | badBlock
  /-- A block is in use or points to itself. -/
  | badLink
  /-- The block that the walk looks for. -/
  | found (address : Int) (hdr : BlockHeader)
  deriving DecidableEq

/-- `SeekTo` before a read at the current position: a seek to a negative address fails and leaves
the position where it was. -/
def seekTo (position address : Int) : Int := if address < 0 then position else address

namespace Database

variable (d : Database)

/-- The blocks a walk passes and how it ends, `none` if it takes more than `n` turns. `locate` is
where the header of the next block is read, given the position after the last read. -/
def walk (locate : Int → Int → Int) (accept : Int → BlockHeader → Bool) :
    Nat → Int → Int → Option (List (Int × BlockHeader) × ListEnd)
  | 0, _, _ => .none
  | n + 1, address, position =>
    if address = 0 then some ([], .none)
    else
      match d.readAt (locate position address) with
      | .none => some ([], .readError)
      | some hdr =>
        if !hdr.test then some ([], .badBlock)
        else if !hdr.isFree || address = hdr.blockNdFptr then some ([], .badLink)
        else if accept address hdr then some ([], .found address hdr)
        else
          (walk locate accept n hdr.blockNdFptr (locate position address + sizeOfBlockHeader)).map
            fun r => ((address, hdr) :: r.1, r.2)

/-- `unused_len`: what a block has left after `bytes`, if it is enough for a block of its own. -/
def unusedLen (bytes : Nat) (hdr : BlockHeader) : Nat :=
  if (bytes + d.overhead) % 2 ^ 64 < hdr.blockLength then (hdr.blockLength + 2 ^ 64 - bytes) % 2 ^ 64
  else 0

/-- The block is an exact fit or has bytes left over. -/
def fits (bytes : Nat) (hdr : BlockHeader) : Bool :=
  hdr.blockLength = bytes || 0 < d.unusedLen bytes hdr

/-- The stats of a block that leaves the list. -/
def uncount (status : Nat) : Database :=
  let s := d.fileStats
  if status = gxDeletedBlock then
    { d with fileStats := if 0 < s.deletedBlocks then
        { s with deletedBlocks := s.deletedBlocks - 1 } else s }
  else if status = gxRemovedBlock then
    { d with fileStats := if 0 < s.removedBlocks then
        { s with removedBlocks := s.removedBlocks - 1 } else s }
  else d

/-- Makes the head of the list or the block before it point to an address. -/
def relink (prev : Option (Int × BlockHeader)) (address : Int) : Database :=
  match prev with
  | .none => (d.setFsFptr address).writeFileHdr
  | some (prevAddr, prevBlk) =>
    (d.writeBlockHdr { prevBlk with blockNdFptr := address } prevAddr).writeFileStatsHdr

/-- Takes an exact fit from the list. -/
def reclaimExact (hdr : BlockHeader) (prev : Option (Int × BlockHeader)) : Database :=
  (d.uncount hdr.status).relink prev hdr.blockNdFptr

/-- The stats of the block that is made of what is left of another. -/
def countRest : Database :=
  { d with fileStats := { d.fileStats with
    numBlocks := d.fileStats.numBlocks + 1
    removedBlocks := d.fileStats.removedBlocks + 1 } }

/-- Puts what is left of a block on the list in its place. -/
def reclaimSplit (bytes : Nat) (address : Int) (hdr : BlockHeader) (unused status : Nat)
    (prev : Option (Int × BlockHeader)) : Database :=
  let newAddr := address + bytes
  let newBlk : BlockHeader := ⟨gxCheckWord, unused, gxRemovedBlock, hdr.blockNdFptr⟩
  ((d.uncount status).countRest.writeBlockHdr newBlk newAddr).relink prev newAddr

/-- The address to reuse or 0; `none` if the walk takes more than `n` turns. -/
def reclaimFirstFit (n : Nat) (position : Int) (bytes : Nat) : Option (Int × Database) :=
  if d.fileHeader.gxdFsFptr = gxFSListCorrupt then some (0, d)
  else
    (d.walk seekTo (fun _ hdr => d.fits bytes hdr) n d.fileHeader.gxdFsFptr position).map fun r =>
      match r.2 with
      | .none | .readError => (0, d)
      | .badBlock | .badLink => (0, d.corruptFSList)
      | .found address hdr =>
        (address,
          if hdr.blockLength = bytes then d.reclaimExact hdr r.1.getLast?
          else d.reclaimSplit bytes address hdr (d.unusedLen bytes hdr) hdr.status r.1.getLast?)

/-- The variables that `ReclaimBestFit` keeps of the best block so far. -/
structure BestFit where
  addr : Int
  blk : BlockHeader
  prev : Option (Int × BlockHeader)
  unusedLen : Nat

/-- `best_length[i]` -/
def bestLength (bytes i : Nat) : Nat := bytes * (i + 1) / 4 % 2 ^ 32

/-- The loop over the best-fit values for one block. -/
def BestFit.offer (bytes : Nat) (best new : BestFit) : BestFit :=
  (List.range 10).foldl (fun best i =>
    if new.unusedLen ≤ bestLength bytes i ∧ bestLength bytes i < best.unusedLen then new
    else best) best

/-- The best of the blocks of a walk, each with the one before it. -/
def bestFit (bytes : Nat) :
    Option (Int × BlockHeader) → BestFit → List (Int × BlockHeader) → BestFit
  | _, best, [] => best
  | prev, best, (address, hdr) :: l =>
    let unused := d.unusedLen bytes hdr
    bestFit bytes (some (address, hdr))
      (if 0 < unused then best.offer bytes ⟨address, hdr, prev, unused⟩ else best) l

def reclaimBestFit (n : Nat) (position : Int) (bytes : Nat) : Option (Int × Database) :=
  if d.fileHeader.gxdFsFptr = gxFSListCorrupt then some (0, d)
  else
    (d.walk seekTo (fun _ hdr => hdr.blockLength = bytes) n d.fileHeader.gxdFsFptr position).map
      fun r =>
        match r.2 with
        | .readError => (0, d)
        | .badBlock | .badLink => (0, d.corruptFSList)
        | .found address hdr => (address, d.reclaimExact hdr r.1.getLast?)
        | .none =>
          let best := d.bestFit bytes .none ⟨0, ⟨gxCheckWord, 0, gxNormalBlock, 0⟩, .none, 0⟩ r.1
          if best.addr = 0 then (0, d)
          else
            -- The status is the one of the last block in the list, not of the block reused.
            let status := (r.1.getLast?.map fun b => b.2.status).getD 0
            (best.addr, d.reclaimSplit bytes best.addr best.blk best.unusedLen status best.prev)

def unlink (hdr : BlockHeader) (prev : Option (Int × BlockHeader)) : Database :=
  let s := d.fileStats
  let d := { d with fileStats := if 0 < s.deletedBlocks then
    { s with deletedBlocks := s.deletedBlocks - 1 } else s }
  match prev with
  | .none => (d.setFsFptr hdr.blockNdFptr).writeFileHdr
  | some (prevAddr, prevBlk) =>
    d.writeBlockHdr { prevBlk with blockNdFptr := hdr.blockNdFptr } prevAddr

/-- `UnDelete`; `none` if the walk takes more than `n` turns. -/
def unDelete (n : Nat) (position objectAddress : Int) : Option (Bool × Database) :=
  let blockAddress := objectAddress - d.blockHeaderSize
  match d.readBlockHdr position blockAddress with
  | .none => some (false, d)
  | some hdr =>
    if hdr.status ≠ gxDeletedBlock then some (false, d)
    else
      (d.walk readPosition (fun address _ => address = blockAddress) n d.fileHeader.gxdFsFptr
        (readPosition position blockAddress + sizeOfBlockHeader)).map fun r =>
          match r.2 with
          | .none | .readError => (false, d)
          | .badBlock | .badLink => (false, d.corruptFSList)
          | .found address hdr =>
            (true, (d.unlink hdr r.1.getLast?).writeBlockHdr { hdr with
              blockStatus := hdr.setStatus gxNormalBlock
              blockNdFptr := 0 } address)

/-- `DeletedBlocks`: the value it returns with the numbers of deleted and removed blocks; `none` if
the walk takes more than `n` turns. -/
def deletedBlocks (n : Nat) (position : Int) : Option ((Int × Int × Int) × Database) :=
  let d := d.testFileHeader
  if d.rev.hasStats then
    some ((d.fileStats.deletedBlocks + d.fileStats.removedBlocks, d.fileStats.deletedBlocks,
      d.fileStats.removedBlocks), d)
  else if d.fileHeader.gxdFsFptr = gxFSListCorrupt then some ((gxFSListCorrupt, 0, 0), d)
  else
    (d.walk seekTo (fun _ hdr => hdr.blockNdFptr = gxFSListCorrupt) n d.fileHeader.gxdFsFptr
      position).map fun r =>
        let deleted : Int := r.1.countP fun b => b.2.status = gxDeletedBlock
        let removed : Int := r.1.countP fun b => b.2.status = gxRemovedBlock
        match r.2 with
        | .none | .readError => ((r.1.length, deleted, removed), d)
        | .badBlock => ((gxFSListCorrupt, deleted, removed), d.corruptFSList)
        | .badLink => ((0, deleted, removed), d.corruptFSList)
        | .found _ _ => ((gxFSListCorrupt, deleted, removed), d)

end Database

end DataReel
