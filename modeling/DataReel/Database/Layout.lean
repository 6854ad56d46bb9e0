import Mathlib.Tactic.TypeStar

/-! # Revisions of the file format

The revision letter of a file decides which headers it has and what an
allocated block carries beside its bytes. Sizes are those of the default build
with 64-bit addresses.
-/

namespace DataReel

/-- The values of `rev_letter`. -/
inductive Revision
  | zero | A | B | C | D | E
  deriving DecidableEq, Repr

/-- `SetRevisionLetter`: a letter that names no revision selects the current one. -/
def Revision.ofLetter (letter : Char) : Revision :=
  if letter = '\x00' ∨ letter = ' ' then .zero
  else if letter = 'A' ∨ letter = 'a' then .A
  else if letter = 'B' ∨ letter = 'b' then .B
  else if letter = 'C' ∨ letter = 'c' then .C
  else if letter = 'D' ∨ letter = 'd' then .D
  else .E

def sizeOfFileHeader : Nat := 56

def sizeOfFileLockHeader : Nat := 24

def sizeOfFileStatsHeader : Nat := 24

def sizeOfBlockHeader : Nat := 32

def sizeOfRecordLockHeader : Nat := 24

def sizeOfChecksum : Nat := 8

namespace Revision

def fileHeaderSize : Revision → Nat
  | .B | .C => sizeOfFileHeader + sizeOfFileLockHeader
  | .D | .E => sizeOfFileHeader + sizeOfFileLockHeader + sizeOfFileStatsHeader
  | .zero | .A => sizeOfFileHeader

def blockHeaderSize : Revision → Nat
  | .C | .D => sizeOfBlockHeader + sizeOfRecordLockHeader
  | .zero | .A | .B | .E => sizeOfBlockHeader

/-- The checksum that follows the bytes of an object. -/
def checksumSize : Revision → Nat
  | .zero | .E => 0
  | .A | .B | .C | .D => sizeOfChecksum

/-- What `Alloc` adds to the bytes it is asked for. -/
def overhead (rev : Revision) : Nat := rev.blockHeaderSize + rev.checksumSize

/-- Files of this revision keep statistics in their header. -/
def hasStats : Revision → Bool
  | .D | .E => true
  | .zero | .A | .B | .C => false

/-- Files of this revision have a lock header behind their file header. -/
def hasFileLock : Revision → Bool
  | .B | .C | .D | .E => true
  | .zero | .A => false

theorem fileHeaderSize_pos (rev : Revision) : 0 < rev.fileHeaderSize := by
  cases rev <;> decide

theorem sizeOfFileHeader_le (rev : Revision) : sizeOfFileHeader ≤ rev.fileHeaderSize := by
  cases rev <;> decide

theorem blockHeaderSize_pos (rev : Revision) : 0 < rev.blockHeaderSize := by
  cases rev <;> decide

theorem sizeOfBlockHeader_le (rev : Revision) : sizeOfBlockHeader ≤ rev.blockHeaderSize := by
  cases rev <;> decide

end Revision

end DataReel
