import DataReel.Database.Navigate
import DataReel.Library.Loop

/-! # Block scans

Loops that go over the blocks of a data file of any content by the lengths in
the block headers: the count of the engine, the scans of tables and those of
InfoHog objects. What is done with a record or an object that a scan comes to
is left to parameters.
-/

namespace DataReel

/-- The sum of an address and a length, one of 64 bits. -/
def fauSum (address : Int) (length : Nat) : Int := intOfWord (wordOfInt (address + length))

namespace Database

variable (d : Database)

/-- `GetEOF`, with the object that it leaves. -/
def getEOF : Int × Database :=
  let fh := FileHeader.ofWords
    (if d.fileSize < sizeOfFileHeader then List.replicate 7 0 else d.file.readWords 0 7)
  if fh.gxdEof = d.fileHeader.gxdEof then (d.fileHeader.gxdEof, d)
  else (d.readFileHdr.2.fileHeader.gxdEof, d.readFileHdr.2)

/-- Where a read ends that stops at the end of the file. -/
def readEnd (address : Int) (n : Nat) : Int := max address (min (address + n) d.fileSize)

/-- Where `GetEOF` leaves the file position. -/
def eofPosition : Int :=
  let fh := FileHeader.ofWords
    (if d.fileSize < sizeOfFileHeader then List.replicate 7 0 else d.file.readWords 0 7)
  if fh.gxdEof ≠ d.fileHeader.gxdEof ∧ sizeOfFileHeader ≤ d.fileSize ∧ d.readFileHdr.2.rev.hasStats then
    d.readEnd fileStatsAddress sizeOfFileStatsHeader
  else d.readEnd 0 sizeOfFileHeader

/-- `FindFirstBlock` on an object that has tested its header; 0 if there is no block. -/
def firstBlock (position offset : Int) : Int := (d.findFirstBlockTested position offset).getD 0

/-! ## The count of the engine -/

/-- A turn of the loop of `TotalBlocks`: the block address and the file position, with the header of
a valid block and where the loop goes on. -/
def countTurn (s : Int × Int) : Option (Bool × Int × Int) :=
  if s.1 = 0 ∨ d.fileHeader.gxdEof ≤ s.1 then none
  else
    (d.readAt s.2).map fun hdr =>
      if hdr.test then
        let next := fauSum s.1 hdr.blockLength
        (true, next, seekTo (s.2 + sizeOfBlockHeader) next)
      else
        let next := d.firstBlock (s.2 + sizeOfBlockHeader) s.1
        (false, next, next)

/-- The same turn with the number of blocks so far. -/
def totalBlocksTurn (s : Int × Int × Int) : Int ⊕ (Int × Int × Int) :=
  match d.countTurn s.2 with
  | none => .inl s.1
  | some (valid, next) => .inr (if valid then s.1 + 1 else s.1, next)

/-- `TotalBlocks`; the loop takes at most `n` turns. -/
def totalBlocks (n : Nat) (position : Int) : Option Int × Database :=
  let d := d.testFileHeader
  if d.rev.hasStats then (some d.fileStats.numBlocks, d)
  else
    let address := d.firstBlock position 0
    (Loop.result d.totalBlocksTurn n (0, address, address), d)

def normalBlocks (n : Nat) (position position' : Int) : Option Int :=
  (d.totalBlocks n position).1.bind fun total =>
    ((d.totalBlocks n position).2.deletedBlocks n position').map fun r => total - r.1.1

end Database

/-! ## Scans of records -/

/-- What `LoadDiskRecord` finds wrong with the bytes of a block. -/
inductive RecordError
  | badTableId
  | badRecord
  | other
  deriving DecidableEq, Repr

namespace Database

variable (d : Database)

/-- The number of bytes that a record of a table takes in a block. -/
def recordLength (hdr : BlockHeader) : Nat := wordOfInt (hdr.blockLength - d.overhead)

/-- `Read(record, blk)` at the file position. A count that no vector has ends the caller, as a read
that fails does. -/
def readRecord {ρ : Type} (load : List UInt8 → ρ → Option RecordError × ρ) (position : Int)
    (hdr : BlockHeader) (record : ρ) : Option RecordError × ρ :=
  let length := d.recordLength hdr
  if length = 0 ∨ position + length ≤ d.fileSize then load (d.file.get position length) record
  else (some .other, record)

/-- Where `Delete` leaves the file position. -/
def deletedPosition (position blockAddress : Int) : Int :=
  if d.fileHeader.gxdFsFptr = gxFSListCorrupt then
    readPosition (position + sizeOfBlockHeader) blockAddress + sizeOfBlockHeader
  else if d.rev.hasStats then fileStatsAddress + sizeOfFileStatsHeader
  else sizeOfFileHeader

end Database

/-- A scan of the blocks of a table: what it returns at the end of the file and where it finds no
block header, and what it does with a block in use. -/
structure RecordScan (σ α : Type) where
  atEnd : σ → α
  noHeader : σ → α
  /-- The block address, the file position behind the header, the header and the state. -/
  visit : Int → Int → BlockHeader → Database × σ → α ⊕ (Database × Int × σ)

namespace RecordScan

variable {σ α : Type} (S : RecordScan σ α)

/-- A turn of the loop: the database, the block address, the file position and the state. -/
def turn (eof : Int) (s : Database × Int × Int × σ) : α ⊕ (Database × Int × Int × σ) :=
  let (d, address, position, state) := s
  if eof ≤ fauSum address d.blockHeaderSize then .inl (S.atEnd state)
  else
    match d.readBlockHdr position address with
    | none => .inl (S.noHeader state)
    | some hdr =>
      let position := Database.readPosition position address + d.blockHeaderSize
      let next := fauSum address hdr.blockLength
      if hdr.status = gxNormalBlock then
        (S.visit address position hdr (d, state)).map id fun (d, position, state) =>
          (d, next, position, state)
      else .inr (d, next, position, state)

/-- A function with such a loop, which takes at most `n` turns. `empty` is what it does with a file
without blocks. -/
def run (empty : Nat → Database → Option α) (n : Nat) (d : Database) (position : Int) (state : σ) :
    Option α :=
  let eof := d.getEOF.1
  let d := d.getEOF.2.testFileHeader
  let address := d.firstBlock position 0
  if address = 0 then empty n d else Loop.result (S.turn eof) n (d, address, address, state)

end RecordScan

section Tables

variable {ρ ι : Type} (load : List UInt8 → ρ → Option RecordError × ρ)

/-- The scan of `gxRDBMS::Find` without an index: the address of the block, and the record unless all
fields were compared. -/
def findScan (equal : ρ → Bool) (allFields : Bool) : RecordScan ρ (Int × Option ρ) where
  atEnd _ := (0, none)
  noHeader _ := (0, none)
  visit address position hdr s :=
    match s.1.readRecord load position hdr s.2 with
    | (none, record) | (some .badTableId, record) =>
      if equal record then .inl (address, if allFields then none else some record)
      else .inr (s.1, position + s.1.recordLength hdr, record)
    | _ => .inl (0, none)

/-- What `VerifyDataFile` returns and passes back. -/
structure Verified where
  good : Bool
  rebuildIx : Bool
  records : Nat
  deriving DecidableEq, Repr

/-- `VerifyDataFile`, with the record and what it passes back. -/
def verifyScan (verify : ρ → Bool) (autoFix : Bool) : RecordScan (ρ × Verified) Verified where
  atEnd s := { s.2 with good := true }
  noHeader s := { s.2 with good := false }
  visit address position hdr s :=
    let (d, record, v) := s
    let next := position + d.recordLength hdr
    -- A record that is damaged is deleted, if the caller asked for it.
    let bad (record : ρ) : Verified ⊕ (Database × Int × ρ × Verified) :=
      if autoFix then
        let deleted := d.delete next (address + d.blockHeaderSize) false
        if deleted.1 then
          .inr (deleted.2, d.deletedPosition next address, record, { v with rebuildIx := true })
        else .inl { v with good := false, rebuildIx := false }
      else .inl { v with good := false, rebuildIx := false }
    match d.readRecord load position hdr record with
    | (some .badTableId, record) => .inr (d, next, record, v)
    | (some .badRecord, record) => bad record
    | (some .other, _) => .inl { v with good := false }
    | (none, record) =>
      if verify record then .inr (d, next, record, { v with records := v.records + 1 })
      else bad record

/-- `rebuild_index`, with the record, the index and the number of keys. -/
def rebuildIndexScan (insertKey : ι → ρ → Int → Option ι) : RecordScan (ρ × ι × Nat) (Int × ι × Nat) where
  atEnd s := (1, s.2)
  noHeader s := (0, s.2)
  visit address position hdr s :=
    let (d, record, index, keys) := s
    let next := position + d.recordLength hdr
    match d.readRecord load position hdr record with
    | (some .badTableId, record) => .inr (d, next, record, index, keys)
    | (some _, _) => .inl (-4, index, keys)
    | (none, record) =>
      match insertKey index record address with
      | none => .inl (-5, index, keys)
      | some index => .inr (d, next, record, index, keys + 1)

/-- `gxRDBMS::Find` without an index. -/
def rdbmsFind (equal : ρ → Bool) (allFields : Bool) (n : Nat) (d : Database) (position : Int) (record : ρ) :
    Option (Int × Option ρ) :=
  (findScan load equal allFields).run (fun _ _ => some (0, none)) n d position record

instance instNeZeroThree : NeZero 3 := ⟨Nat.succ_ne_zero 2⟩

/-- `gxRDBMS::VerifyDataFile`; `position` is the file position before each call of the engine that has
none of its own. -/
def verifyDataFile (verify : ρ → Bool) (autoFix : Bool) (n : Nat) (d : Database) (position : Fin 3 → Int)
    (record : ρ) : Option Verified :=
  (verifyScan load verify autoFix).run
    (fun n d => (d.normalBlocks n (position 1) (position 2)).map fun k => ⟨k = 0, false, 0⟩)
    n d (position 0) (record, ⟨false, false, 0⟩)

/-- `gxRDBMS::rebuild_index` with a new index. -/
def rebuildIndex (insertKey : ι → ρ → Int → Option ι) (n : Nat) (d : Database) (position : Fin 3 → Int)
    (record : ρ) (index : ι) : Option (Int × ι × Nat) :=
  (rebuildIndexScan load insertKey).run
    (fun n d => (d.normalBlocks n (position 1) (position 2)).map fun k =>
      (if k = 0 then 1 else -3, index, 0))
    n d (position 0) (record, index, 0)

end Tables

/-! ## Scans of objects -/

/-- The read operations of an object: the object header, whether its class is that of the object,
the members, and where they leave the file position. -/
structure ObjectReads (ω : Type) where
  readObjectHeader : Database → Int → ω → Bool × ω
  sameClass : ω → Bool
  read : Database → Int → ω → Bool × ω
  position : ω → Int

/-- A scan of the blocks for objects of a class. -/
structure ObjectScan (σ α : Type) where
  atEnd : σ → α
  /-- What a block header that cannot be read makes it return, if it tests that. -/
  noHeader : Option (σ → α)
  /-- The object address of a block in use. -/
  visit : Int → Int × σ → α ⊕ (Int × σ)

namespace ObjectScan

variable {σ α : Type} (S : ObjectScan σ α) (d : Database)

/-- Where the loop goes on from a block header. -/
def step (address : Int) (hdr : BlockHeader) : Int :=
  if hdr.blockCheckWord ≠ gxCheckWord ∨ intOfWord hdr.blockLength < d.blockHeaderSize then
    fauSum address 1
  else fauSum address hdr.blockLength

/-- A turn of the loop: the block address, the file position, the words of the block header in
memory and the state. -/
def turn (eof : Int) (s : Int × Int × List Nat × σ) : α ⊕ (Int × Int × List Nat × σ) :=
  let (address, position, words, state) := s
  if eof ≤ fauSum address d.blockHeaderSize then .inl (S.atEnd state)
  else
    let start := Database.readPosition position address
    let stop := start + sizeOfBlockHeader
    match (if 0 ≤ start ∧ stop ≤ d.fileSize then none else S.noHeader) with
    | some failed => .inl (failed state)
    | none =>
      -- A read that is cut short leaves the rest of the header as it was.
      let words := if start < 0 then words else d.readOver start words
      let position := if start < 0 then position else max start (min stop d.fileSize)
      let hdr := BlockHeader.ofWords words
      let next := ObjectScan.step d address hdr
      if hdr.blockCheckWord = gxCheckWord ∧ hdr.status = gxNormalBlock then
        (S.visit (address + d.blockHeaderSize) (position, state)).map id fun (position, state) =>
          (next, position, words, state)
      else .inr (next, position, words, state)

/-- A function with such a loop, which takes at most `n` turns. `empty` is what it returns for a file
without blocks. -/
def run (empty : α) (n : Nat) (d : Database) (position : Int) (state : σ) : Option α :=
  let eof := d.getEOF.1
  let d := d.getEOF.2.testFileHeader
  let address := d.firstBlock position 0
  let new : BlockHeader := ⟨gxCheckWord, 0, gxNormalBlock, 0⟩
  if address = 0 then some empty else Loop.result (S.turn d eof) n (address, address, new.words, state)

end ObjectScan

section Objects

variable {ω ι : Type} (O : ObjectReads ω)

/-- `InfoHog::Find` without an index: whether it finds an object with the key, and the object. -/
def hogFindScan (d : Database) (sameKey : ω → Bool) : ObjectScan ω (Bool × ω) where
  atEnd o := (false, o)
  noHeader := some fun o => (false, o)
  visit objectAddress s :=
    let header := O.readObjectHeader d objectAddress s.2
    if !header.1 then .inl (false, header.2)
    else if O.sameClass header.2 then
      let object := O.read d objectAddress header.2
      if !object.1 then .inl (false, object.2)
      else if sameKey object.2 then .inl (true, object.2)
      else .inr (O.position object.2, object.2)
    else .inr (O.position header.2, header.2)

/-- `InfoHog::CompareIndex`, with the numbers of objects and of matches. -/
def compareIndexScan (d : Database) (findKey : Int → ω → Bool) : ObjectScan (ω × Nat × Nat) Bool where
  atEnd s := s.2.1 = s.2.2
  noHeader := none
  visit objectAddress s :=
    let (o, objects, found) := s.2
    let o := (O.readObjectHeader d objectAddress o).2
    if O.sameClass o then
      let object := O.read d objectAddress o
      let o := object.2
      if !object.1 then .inr (O.position o, o, objects, found)
      else .inr (O.position o, o, objects + 1, if findKey objectAddress o then found + 1 else found)
    else .inr (O.position o, o, objects, found)

/-- `InfoHog::RebuildIndexFile`, with the new index and the numbers of objects and of insertions. -/
def rebuildIndexFileScan (d : Database) (insert : ι → Int → ω → Option ι) :
    ObjectScan (ω × ι × Nat × Nat) (Bool × ι) where
  atEnd s := (s.2.2.1 = s.2.2.2, s.2.1)
  noHeader := none
  visit objectAddress s :=
    let (o, index, objects, inserts) := s.2
    let o := (O.readObjectHeader d objectAddress o).2
    if O.sameClass o then
      let object := O.read d objectAddress o
      let o := object.2
      if !object.1 then .inr (O.position o, o, index, objects, inserts)
      else
        match insert index objectAddress o with
        | none => .inl (false, index)
        | some index => .inr (O.position o, o, index, objects + 1, inserts + 1)
    else .inr (O.position o, o, index, objects, inserts)

/-- `InfoHog::Find` without an index. -/
def hogFind (sameKey : ω → Bool) (n : Nat) (d : Database) (position : Int) (o : ω) : Option (Bool × ω) :=
  (hogFindScan O d.getEOF.2.testFileHeader sameKey).run (false, o) n d position o

def compareIndex (findKey : Int → ω → Bool) (n : Nat) (d : Database) (position : Int) (o : ω) : Option Bool :=
  (compareIndexScan O d.getEOF.2.testFileHeader findKey).run false n d position (o, 0, 0)

/-- `InfoHog::RebuildIndexFile` with a new index. -/
def rebuildIndexFile (insert : ι → Int → ω → Option ι) (n : Nat) (d : Database) (position : Int) (o : ω)
    (index : ι) : Option (Bool × ι) :=
  (rebuildIndexFileScan O d.getEOF.2.testFileHeader insert).run (false, index) n d position
    (o, index, 0, 0)

end Objects

end DataReel
