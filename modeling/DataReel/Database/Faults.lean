import DataReel.Database.Alloc
import DataReel.Library.Exec

/-! # Calls whose requests may fail

The same calls on a file that refuses some of the reads and writes, or that is
not open for writing. A call that returns 0 throws here and says why; the
object in memory stays as the call has left it.
-/

namespace DataReel

/-- How a request to the file ends. A write may fail after some of its bytes. -/
inductive RequestEnd
  | done
  | failed (written : Nat)
  deriving DecidableEq, Repr

/-- Why a call does not return 1 or an address. -/
inductive CallFailure
  | notWritable
  | readFailed
  | writeFailed
  /-- The block is none for the call. -/
  | refused
  /-- `new` throws. -/
  | badAlloc
  /-- The walk over the list takes more turns than are looked at. -/
  | endless
  deriving DecidableEq, Repr

/-- The file was not open for writing or has refused a request. -/
def CallFailure.byFile : CallFailure → Bool
  | .notWritable | .readFailed | .writeFailed => true
  | .refused | .badAlloc | .endless => false

/-- A database object with the file that its requests go to. -/
structure Device where
  db : Database
  /-- `ready_for_writing` -/
  writable : Bool
  /-- The most bytes that `new char[]` gives. -/
  memory : Nat
  /-- How the next requests end. Those behind the list are carried out. -/
  requests : List RequestEnd

abbrev DeviceM := EStateM CallFailure Device

/-- The object after a write that has failed after `n` bytes, where a whole one gives `after`. -/
def Database.cutOff (d after : Database) (address : Int) (n : Nat) : Database :=
  { d with
    file := fun x => if address ≤ x ∧ x < address + n then after.file x else d.file x
    fileSize := max d.fileSize (address + n) }

/-- The stats of a block that is deleted or removed. -/
def Database.countDeleted (removeObject : Bool) (d : Database) : Database :=
  { d with fileStats := if removeObject then
      { d.fileStats with removedBlocks := d.fileStats.removedBlocks + 1 }
    else { d.fileStats with deletedBlocks := d.fileStats.deletedBlocks + 1 } }

/-- The stats of a block that is undeleted. -/
def Database.uncountDeleted (d : Database) : Database :=
  { d with fileStats := if 0 < d.fileStats.deletedBlocks then
      { d.fileStats with deletedBlocks := d.fileStats.deletedBlocks - 1 } else d.fileStats }

/-- The `FAU_t` that a sum with a number of bytes is taken for. -/
def fau (x : Int) : Int := x.bmod (2 ^ 64)

/-- `file_header.gxd_eof += bytes;` -/
def Database.raiseEof (bytes : Nat) (d : Database) : Database :=
  { d with fileHeader := { d.fileHeader with gxdEof := fau (d.fileHeader.gxdEof + bytes) } }

/-- The stats and the highest block pointer of a block at the end of the file. -/
def Database.countNew (address : Int) (d : Database) : Database :=
  { d with
    fileStats := { d.fileStats with numBlocks := d.fileStats.numBlocks + 1 }
    fileHeader := { d.fileHeader with gxdHbFptr := address } }

def Database.raiseHbFptr (address : Int) (d : Database) : Database :=
  if d.fileHeader.gxdHbFptr < address then
    { d with fileHeader := { d.fileHeader with gxdHbFptr := address } } else d

namespace Device

def update (f : Database → Database) : DeviceM Unit := modify fun s => { s with db := f s.db }

def request : DeviceM RequestEnd := fun s =>
  match s.requests with
  | [] => .ok .done s
  | r :: rest => .ok r { s with requests := rest }

def read (address : Int) : DeviceM BlockHeader := do
  match ← request with
  | .failed _ => throw .readFailed
  | .done =>
    let s ← get
    match s.db.readAt address with
    | none => throw .readFailed
    | some hdr => pure hdr

/-- `Write` of `bytes`, which makes `f` of the object. There is no seek to a negative address, no bytes
are written anywhere else, and no file takes a byte at an address that an `off_t` does not hold. -/
def write (address : Int) (bytes : Nat) (f : Database → Database) : DeviceM Unit := do
  let s ← get
  if !s.writable then throw .notWritable
  else if address < 0 ∧ address ≠ gxCurrAddress then throw .writeFailed
  else if bytes = 0 then update f
  else
    match ← request with
    | .failed n => do
      update fun d => d.cutOff (f d) address (min n bytes)
      throw .writeFailed
    | .done => if address + bytes < 2 ^ 63 then update f else throw .writeFailed

/-- A call whose result is not looked at. -/
def ignore (x : DeviceM Unit) : DeviceM Unit := fun s =>
  match x s with
  | .ok _ s | .error _ s => .ok () s

def writeBlockHdr (hdr : BlockHeader) (address : Int) : DeviceM Unit :=
  write address sizeOfBlockHeader fun d => d.writeBlockHdr hdr address

def writeFileStatsHdr : DeviceM Unit := do
  let s ← get
  if s.db.rev.hasStats then
    write fileStatsAddress sizeOfFileStatsHeader fun d => d.writeFileStatsHdr
  else pure ()

def writeFileHdr : DeviceM Unit := do
  write 0 sizeOfFileHeader fun d => d.writeWords 0 d.fileHeader.words
  writeFileStatsHdr

def readBlockHdr (position address : Int) : DeviceM BlockHeader := do
  let hdr ← read (Database.readPosition position address)
  if hdr.test then pure hdr else throw .refused

/-! ## The free space list -/

def walk (locate : Int → Int → Int) (accept : Int → BlockHeader → Bool) :
    Nat → Int → Int → DeviceM (List (Int × BlockHeader) × ListEnd)
  | 0, _, _ => throw .endless
  | n + 1, address, position =>
    if address = 0 then pure ([], .none)
    else do
      let hdr ← read (locate position address)
      if !hdr.test then pure ([], .badBlock)
      else if !hdr.isFree || address = hdr.blockNdFptr then pure ([], .badLink)
      else if accept address hdr then pure ([], .found address hdr)
      else do
        let r ← walk locate accept n hdr.blockNdFptr (locate position address + sizeOfBlockHeader)
        pure ((address, hdr) :: r.1, r.2)

def corruptFSList : DeviceM Unit := do
  update fun d => d.setFsFptr gxFSListCorrupt
  ignore writeFileHdr

def relink (prev : Option (Int × BlockHeader)) (address : Int) : DeviceM Unit :=
  match prev with
  | .none => do
    update fun d => d.setFsFptr address
    writeFileHdr
  | some (prevAddr, prevBlk) => do
    writeBlockHdr { prevBlk with blockNdFptr := address } prevAddr
    writeFileStatsHdr

def reclaimExact (hdr : BlockHeader) (prev : Option (Int × BlockHeader)) : DeviceM Unit := do
  update fun d => d.uncount hdr.status
  relink prev hdr.blockNdFptr

def reclaimSplit (bytes : Nat) (address : Int) (hdr : BlockHeader) (unused status : Nat)
    (prev : Option (Int × BlockHeader)) : DeviceM Unit := do
  let newAddr := fau (address + bytes)
  update fun d => (d.uncount status).countRest
  writeBlockHdr ⟨gxCheckWord, unused, gxRemovedBlock, hdr.blockNdFptr⟩ newAddr
  relink prev newAddr

def reclaimFirstFit (n : Nat) (position : Int) (bytes : Nat) : DeviceM Int := do
  let s ← get
  if s.db.fileHeader.gxdFsFptr = gxFSListCorrupt then pure 0
  else do
    let (passed, ending) ←
      walk seekTo (fun _ hdr => s.db.fits bytes hdr) n s.db.fileHeader.gxdFsFptr position
    match ending with
    | .none | .readError => pure 0
    | .badBlock | .badLink => do
      corruptFSList
      pure 0
    | .found address hdr => do
      if hdr.blockLength = bytes then reclaimExact hdr passed.getLast?
      else reclaimSplit bytes address hdr (s.db.unusedLen bytes hdr) hdr.status passed.getLast?
      pure address

def reclaimBestFit (n : Nat) (position : Int) (bytes : Nat) : DeviceM Int := do
  let s ← get
  if s.db.fileHeader.gxdFsFptr = gxFSListCorrupt then pure 0
  else do
    let (passed, ending) ←
      walk seekTo (fun _ hdr => hdr.blockLength = bytes) n s.db.fileHeader.gxdFsFptr position
    match ending with
    | .readError => pure 0
    | .badBlock | .badLink => do
      corruptFSList
      pure 0
    | .found address hdr => do
      reclaimExact hdr passed.getLast?
      pure address
    | .none =>
      let best := s.db.bestFit bytes .none ⟨0, ⟨gxCheckWord, 0, gxNormalBlock, 0⟩, .none, 0⟩ passed
      if best.addr = 0 then pure 0
      else do
        let status := (passed.getLast?.map fun b => b.2.status).getD 0
        reclaimSplit bytes best.addr best.blk best.unusedLen status best.prev
        pure best.addr

/-- `Alloc` takes any failure to reclaim a block for a list without one. -/
def orZero (x : DeviceM Int) : DeviceM Int := fun s =>
  match x s with
  | .ok a s => .ok a s
  | .error .endless s => .error .endless s
  | .error _ s => .ok 0 s

def reclaim (n : Nat) (position : Int) (bytes : Nat) (method : ReclaimMethod) : DeviceM Int := do
  let s ← get
  if s.db.fileHeader.gxdFsFptr = 0 then pure 0
  else
    match method with
    | .firstFit => orZero (reclaimFirstFit n position bytes)
    | .bestFit => orZero (reclaimBestFit n position bytes)
    | .none => pure 0

/-! ## The calls -/

def extend (bytes : Nat) : DeviceM Int := do
  let s ← get
  let address := s.db.fileHeader.gxdEof
  update fun d => d.raiseEof bytes
  if s.memory < bytes then throw .badAlloc
  else do
    write address bytes fun d => d.writeZeros address bytes
    update fun d => d.countNew address
    pure address

def mark (bytes : Nat) (address : Int) : DeviceM Unit := do
  writeBlockHdr ⟨gxCheckWord, bytes, gxNormalBlock, 0⟩ address
  let s ← get
  if s.db.rev.hasRecordLock then
    write (address + sizeOfBlockHeader) sizeOfRecordLockHeader fun d =>
      d.writeWords (address + sizeOfBlockHeader) [0, 0, 0]
  else pure ()
  update fun d => d.raiseHbFptr address
  ignore writeFileHdr

def alloc (n : Nat) (position : Int) (bytes : Nat) (method : ReclaimMethod) : DeviceM Int := do
  let s ← get
  if s.writable then do
    let bytes := (bytes + s.db.overhead) % 2 ^ 64
    let found ← reclaim n position bytes method
    let address ← if found = 0 then extend bytes else pure found
    mark bytes address
    pure (address + s.db.blockHeaderSize)
  else throw .notWritable

/-- `Delete`; `Remove` is the same with `removeObject`. -/
def delete (position objectAddress : Int) (removeObject : Bool) : DeviceM Unit := do
  let s ← get
  let blockAddress := objectAddress - s.db.blockHeaderSize
  let hdr ← readBlockHdr position blockAddress
  if hdr.status ≠ gxNormalBlock then throw .refused
  else do
    update fun d => d.countDeleted removeObject
    let status := hdr.setStatus (if removeObject then gxRemovedBlock else gxDeletedBlock)
    writeBlockHdr { hdr with blockStatus := status, blockNdFptr := s.db.fileHeader.gxdFsFptr }
      (Database.readPosition (position + sizeOfBlockHeader) blockAddress)
    if s.db.fileHeader.gxdFsFptr = gxFSListCorrupt then pure ()
    else do
      update fun d => d.setFsFptr blockAddress
      ignore writeFileHdr

def unlink (hdr : BlockHeader) (prev : Option (Int × BlockHeader)) : DeviceM Unit := do
  update fun d => d.uncountDeleted
  match prev with
  | .none => do
    update fun d => d.setFsFptr hdr.blockNdFptr
    writeFileHdr
  | some (prevAddr, prevBlk) =>
    writeBlockHdr { prevBlk with blockNdFptr := hdr.blockNdFptr } prevAddr

def unDelete (n : Nat) (position objectAddress : Int) : DeviceM Unit := do
  let s ← get
  let blockAddress := objectAddress - s.db.blockHeaderSize
  let hdr ← readBlockHdr position blockAddress
  if hdr.status ≠ gxDeletedBlock then throw .refused
  else do
    let (passed, ending) ←
      walk Database.readPosition (fun address _ => address = blockAddress) n s.db.fileHeader.gxdFsFptr
        (Database.readPosition position blockAddress + sizeOfBlockHeader)
    match ending with
    | .none | .readError => throw .refused
    | .badBlock | .badLink => do
      corruptFSList
      throw .refused
    | .found address hdr => do
      unlink hdr passed.getLast?
      writeBlockHdr { hdr with
        blockStatus := hdr.setStatus gxNormalBlock
        blockNdFptr := 0 } address

end Device

end DataReel
