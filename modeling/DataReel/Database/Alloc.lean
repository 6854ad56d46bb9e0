import DataReel.Database.FreeList

/-! # Allocation and deletion -/

namespace DataReel

inductive ReclaimMethod
  | none
  | bestFit
  | firstFit
  deriving DecidableEq, Repr

/-- Blocks of this revision carry a record lock behind their header. -/
def Revision.hasRecordLock : Revision → Bool
  | .C | .D => true
  | .zero | .A | .B | .E => false

namespace Database

variable (d : Database)

def reclaim (n : Nat) (position : Int) (bytes : Nat) (method : ReclaimMethod) :
    Option (Int × Database) :=
  if d.fileHeader.gxdFsFptr = 0 then some (0, d)
  else
    match method with
    | .firstFit => d.reclaimFirstFit n position bytes
    | .bestFit => d.reclaimBestFit n position bytes
    | .none => some (0, d)

def extend (bytes : Nat) : Database :=
  let address := d.fileHeader.gxdEof
  let d := { d with fileHeader := { d.fileHeader with gxdEof := d.fileHeader.gxdEof + bytes } }
  let d := d.writeZeros address bytes
  { d with
    fileStats := { d.fileStats with numBlocks := d.fileStats.numBlocks + 1 }
    fileHeader := { d.fileHeader with gxdHbFptr := address } }

def mark (bytes : Nat) (address : Int) : Database :=
  let d := d.writeBlockHdr ⟨gxCheckWord, bytes, gxNormalBlock, 0⟩ address
  let d := if d.rev.hasRecordLock then
    d.writeWords (address + sizeOfBlockHeader) [0, 0, 0] else d
  let d := if d.fileHeader.gxdHbFptr < address then
    { d with fileHeader := { d.fileHeader with gxdHbFptr := address } } else d
  d.writeFileHdr

/-- `Alloc`: the address of the object; `none` if the walk takes more than `n` turns. The byte
count is one of 64 bits. -/
def alloc (n : Nat) (position : Int) (bytes : Nat) (method : ReclaimMethod) :
    Option (Int × Database) :=
  let bytes := (bytes + d.overhead) % 2 ^ 64
  (d.reclaim n position bytes method).map fun r =>
    if r.1 = 0 then
      (r.2.fileHeader.gxdEof + r.2.blockHeaderSize,
        (r.2.extend bytes).mark bytes r.2.fileHeader.gxdEof)
    else (r.1 + r.2.blockHeaderSize, r.2.mark bytes r.1)

/-- `Delete`; `Remove` is the same with `removeObject`. -/
def delete (position objectAddress : Int) (removeObject : Bool) : Bool × Database :=
  let blockAddress := objectAddress - d.blockHeaderSize
  match d.readBlockHdr position blockAddress with
  | .none => (false, d)
  | some hdr =>
    if hdr.status ≠ gxNormalBlock then (false, d)
    else
      let s := d.fileStats
      let fsFptr := d.fileHeader.gxdFsFptr
      let d := { d with fileStats := if removeObject then
          { s with removedBlocks := s.removedBlocks + 1 }
        else { s with deletedBlocks := s.deletedBlocks + 1 } }
      let status := hdr.setStatus (if removeObject then gxRemovedBlock else gxDeletedBlock)
      let d := d.writeBlockHdr { hdr with blockStatus := status, blockNdFptr := fsFptr }
        (readPosition (position + sizeOfBlockHeader) blockAddress)
      if fsFptr = gxFSListCorrupt then (true, d)
      else (true, (d.setFsFptr blockAddress).writeFileHdr)

def objectLength (position objectAddress : Int) : Nat :=
  match d.readBlockHdr position (objectAddress - d.blockHeaderSize) with
  | .none => 0
  | some hdr => (hdr.blockLength + 2 ^ 64 - d.overhead) % 2 ^ 64

end Database

end DataReel
