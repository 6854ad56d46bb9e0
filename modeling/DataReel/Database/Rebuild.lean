import DataReel.Database.Crc32
import DataReel.Database.NavigateRun
import DataReel.Database.Scan

/-! # Rebuilding a file

The debug manager searches a data file of any content for blocks and writes the
objects in use to a new file of a revision that the caller chooses. Signature,
version and check word are the defaults.
-/

namespace DataReel.Database

variable (d : Database)

/-- The search of `BlockSearch` for a valid block header, byte by byte; no address here is
`gxCurrAddress`. -/
def blockSearchFrom : Nat → Int → Int
  | 0, _ => 0
  | n + 1, address =>
    if d.fileSize ≤ address + sizeOfBlockHeader then 0
    else
      match d.readAt address with
      | none => 0
      | some hdr => if hdr.test then address else blockSearchFrom n (address + 1)

def blockSearch (offset : Int) : Int := d.blockSearchFrom (d.fileSize - offset).toNat offset

/-- What `Rebuild` finds wrong with the file header. -/
def headerErrors : Bool :=
  let fh := FileHeader.ofWords (d.file.readWords 0 7)
  if d.fileSize < sizeOfFileHeader then true
  else if ¬ (fh.gxdSig.1 = gxSignature.1 ∧ fh.gxdSig.2 % 256 = gxSignature.2) then true
  else if fh.gxdHsFptr < d.rev.fileHeaderSize ∨ d.fileSize < fh.gxdHsFptr then true
  else if fh.gxdHbFptr = 0 then false
  else if d.fileSize < fh.gxdHsFptr + sizeOfBlockHeader then true
  else (d.validHeader fh.gxdHsFptr).isNone

/-- The variables of the loop of `Rebuild`. -/
structure Rebuilding where
  addr : Int
  newFile : Database
  count : Nat
  badgx : Nat
  rebuildErrors : Nat

namespace Rebuilding

variable (s : Rebuilding)

/-- Goes on with the next good block behind a bad one. -/
def searchOn (currAddr : Int) : Rebuilding ⊕ Rebuilding :=
  let s := { s with badgx := s.badgx + 1 }
  let addr := d.blockSearch currAddr
  if addr = 0 then .inl s else .inr { s with addr }

def writeObject (object : List UInt8) : Rebuilding :=
  match s.newFile.alloc 1 0 object.length .firstFit with
  | none => s
  | some (objectAddress, newFile) =>
    let newFile := newFile.writeBytes objectAddress object
    let newFile :=
      if newFile.rev.checksumSize = 0 then newFile
      else newFile.writeWords (objectAddress + object.length) [calcCRC32 object]
    { s with newFile, count := s.count + 1 }

/-- A turn of the loop. `memory` is the number of bytes that `new` has at most. -/
def turn (memory : Nat) : Rebuilding ⊕ Rebuilding :=
  if d.fileSize ≤ fauSum s.addr d.blockHeaderSize then .inl s
  else
    match d.readAt s.addr with
    | none => s.searchOn d (s.addr + sizeOfBlockHeader)
    | some hdr =>
      let currAddr := s.addr + sizeOfBlockHeader
      let next := { s with addr := fauSum s.addr hdr.blockLength }
      if !hdr.test then s.searchOn d currAddr
      else if intOfWord hdr.blockLength < d.blockHeaderSize ∨
          d.fileSize < fauSum s.addr hdr.blockLength then
        s.searchOn d currAddr
      else if hdr.blockStatus ≠ gxNormalBlock then .inr next
      else
        let objectLength := intOfWord (wordOfInt (hdr.blockLength - d.overhead))
        let currAddr := s.addr + d.blockHeaderSize
        if objectLength < 0 then s.searchOn d (s.addr + sizeOfBlockHeader)
        else if d.rev.hasRecordLock ∧ d.fileSize ≤ currAddr then .inl s
        else if (memory : Int) < objectLength then .inl { s with rebuildErrors := s.rebuildErrors + 1 }
        else if d.fileSize < currAddr + objectLength then .inl s
        else .inr (next.writeObject (d.file.get currAddr objectLength.toNat))

end Rebuilding

/-- What `Rebuild` returns: its value, the number of objects and the new file. -/
structure Rebuilt where
  good : Bool
  numObjects : Nat
  newFile : Database

/-- `Rebuild`; its loop takes at most `n` turns. -/
def rebuild (n memory : Nat) (rev : Revision) (staticArea : Nat) (copyStaticData : Bool) :
    Option Rebuilt :=
  let fh := FileHeader.ofWords (d.file.readWords 0 7)
  let errors := d.headerErrors
  let staticArea :=
    if !errors ∧ staticArea = 0 then (fh.gxdHsFptr - d.rev.fileHeaderSize).toNat else staticArea
  let addr := d.blockSearch 0
  let newFile := create rev staticArea
  if addr = 0 then some ⟨!errors, 0, newFile.writeFileHdr⟩
  else
    let copies := staticArea ≠ 0 ∧ copyStaticData
    let fails := memory < staticArea ∨ d.fileSize < (staticArea : Int) + d.rev.fileHeaderSize
    let newFile :=
      if copies ∧ ¬ fails then
        newFile.writeBytes newFile.rev.fileHeaderSize (d.file.get d.rev.fileHeaderSize staticArea)
      else newFile
    let rebuildErrors := if copies ∧ fails then 1 else 0
    (Loop.result (fun s => Rebuilding.turn d s memory) n ⟨addr, newFile, 0, 0, rebuildErrors⟩).map
      fun s => ⟨!errors && s.badgx = 0 && s.rebuildErrors = 0, s.count, s.newFile.writeFileHdr⟩

end DataReel.Database
