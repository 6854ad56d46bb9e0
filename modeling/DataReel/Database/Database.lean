import DataReel.Database.Header

/-! # An open database file

The object that is open for reading and writing, with its copies of the file
headers and the bytes of the file. Reads and writes of the file do not fail,
except that there is nothing to read behind its end.
-/

namespace DataReel

/-- A `gxDatabase` object with an open file. -/
structure Database where
  file : Bytes
  fileSize : Int
  /-- `rev_letter` -/
  rev : Revision
  /-- `file_header`, the copy in memory. -/
  fileHeader : FileHeader
  /-- `file_stats_header` -/
  fileStats : FileStatsHeader

/-- Where `WriteFileStatsHdr` writes. -/
def fileStatsAddress : Int := sizeOfFileHeader + sizeOfFileLockHeader

/-- The first nine bytes of `gxSignature` in two words. -/
def gxSignature : Nat × Nat := (0x3645534142445847, 0x34)

def Revision.letter : Revision → Nat
  | .zero => 0
  | .A => 'A'.toNat
  | .B => 'B'.toNat
  | .C => 'C'.toNat
  | .D => 'D'.toNat
  | .E => 'E'.toNat

def gxVersion : Int := 4630

namespace Database

variable (d : Database)

def writeWords (address : Int) (l : List Nat) : Database :=
  { d with
    file := d.file.writeWords address l
    fileSize := max d.fileSize (address + 8 * l.length) }

/-- `memset` of a new block. -/
def writeZeros (address : Int) (bytes : Nat) : Database :=
  { d with
    file := d.file.write address bytes 0
    fileSize := max d.fileSize (address + bytes) }

def writeBlockHdr (hdr : BlockHeader) (address : Int) : Database := d.writeWords address hdr.words

/-- The block header at an address, if the file reaches that far. -/
def readAt (address : Int) : Option BlockHeader :=
  if 0 ≤ address ∧ address + sizeOfBlockHeader ≤ d.fileSize then
    some (BlockHeader.ofWords (d.file.readWords address 4))
  else none

/-- Where a `Read` with an address reads when the file pointer stands at `position`. -/
def readPosition (position address : Int) : Int :=
  if address = gxCurrAddress then position else address

def readBlockHdr (position address : Int) : Option BlockHeader :=
  (d.readAt (readPosition position address)).filter BlockHeader.test

def writeFileStatsHdr : Database :=
  if d.rev.hasStats then d.writeWords fileStatsAddress d.fileStats.words else d

def writeFileHdr : Database := (d.writeWords 0 d.fileHeader.words).writeFileStatsHdr

def setFsFptr (address : Int) : Database :=
  { d with fileHeader := { d.fileHeader with gxdFsFptr := address } }

/-- The words of a header in memory after a read of `n` words, which leaves the bytes behind the end
of the file as they were. -/
def readOver (address : Int) (old : List Nat) : List Nat :=
  Bytes.readWords (fun x => if x < d.fileSize then d.file x
    else Bytes.writeWords (fun _ => 0) address old x) address old.length

/-- The revision that the last byte of a signature names. -/
def revOfSig (sig : Nat × Nat) : Revision :=
  let letter := sig.2 / 256 % 256
  if letter = 0 ∨ letter = ' '.toNat then .zero
  else if letter = 'B'.toNat ∨ letter = 'b'.toNat then .B
  else if letter = 'C'.toNat ∨ letter = 'c'.toNat then .C
  else if letter = 'D'.toNat ∨ letter = 'd'.toNat then .D
  else if letter = 'E'.toNat ∨ letter = 'e'.toNat then .E
  else .A

/-- `ReadFileHdr`, with whether it succeeds. -/
def readFileHdr : Bool × Database :=
  let d' := { d with fileHeader := FileHeader.ofWords (d.readOver 0 d.fileHeader.words) }
  if d.fileSize < sizeOfFileHeader then (false, d')
  else
    let d' := { d' with rev := revOfSig d'.fileHeader.gxdSig }
    if d'.rev.hasStats then
      (fileStatsAddress + sizeOfFileStatsHeader ≤ d.fileSize,
        { d' with fileStats :=
            FileStatsHeader.ofWords (d.readOver fileStatsAddress d.fileStats.words) })
    else (true, d')

/-- `TestFileHeader`: reloads the header unless the one on disk has the same addresses. A read
that fails leaves zeros to compare with. -/
def testFileHeader : Database :=
  let fh := FileHeader.ofWords
    (if d.fileSize < sizeOfFileHeader then List.replicate 7 0 else d.file.readWords 0 7)
  if fh.gxdFsFptr = d.fileHeader.gxdFsFptr ∧ fh.gxdEof = d.fileHeader.gxdEof ∧
      fh.gxdHsFptr = d.fileHeader.gxdHsFptr ∧ fh.gxdHbFptr = d.fileHeader.gxdHbFptr then d
  else d.readFileHdr.2

/-- What a call does that finds the free space list corrupt. -/
def corruptFSList : Database := (d.setFsFptr gxFSListCorrupt).writeFileHdr

def blockHeaderSize : Nat := d.rev.blockHeaderSize

def overhead : Nat := d.rev.overhead

/-- `InitFileHdr` with the headers that `Create` sets. -/
def create (rev : Revision) (staticSize : Nat) : Database :=
  let hs : Int := staticSize + rev.fileHeaderSize
  let d : Database := {
    file := fun _ => 0
    fileSize := 0
    rev := rev
    fileHeader := {
      gxdFsFptr := 0
      gxdEof := hs
      gxdHsFptr := hs
      gxdHbFptr := 0
      gxdSig := (gxSignature.1, gxSignature.2 + rev.letter * 256)
      gxdVer := gxVersion }
    fileStats := FileStatsHeader.init }
  let d := d.writeFileHdr
  let d := if rev.hasFileLock then d.writeWords sizeOfFileHeader [0, 0, 0] else d
  if (rev.fileHeaderSize : Int) < hs then d.writeZeros (hs - 1) 1 else d

end Database

end DataReel
