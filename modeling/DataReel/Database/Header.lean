import DataReel.Database.Layout
import DataReel.Library.Bytes

/-! # Headers in the file

The members of the headers, each a word of 64 bits in the default build, and
the test that tells a block header from other bytes.
-/

namespace DataReel

def gxCheckWord : Nat := 0xfefe

/-- `gxFSListCorrupt` and `gxCurrAddress`. -/
def gxFSListCorrupt : Int := -1

def gxCurrAddress : Int := -1

def gxBadBlock : Nat := 'B'.toNat

def gxDeletedBlock : Nat := 'D'.toNat

def gxNormalBlock : Nat := 'N'.toNat

def gxRemovedBlock : Nat := 'R'.toNat

def gxRemoteDeviceBlock : Nat := 'V'.toNat

/-- The control characters that `TestBlockHeader` accepts for a remote device block. -/
def remoteControls : List Nat :=
  ['A', 'C', 'D', 'F', 'L', 'K', 'R', 'S', 'W'].map Char.toNat

structure BlockHeader where
  blockCheckWord : Nat
  blockLength : Nat
  blockStatus : Nat
  blockNdFptr : Int
  deriving DecidableEq, Repr

namespace BlockHeader

variable (hdr : BlockHeader)

def words : List Nat :=
  [hdr.blockCheckWord, hdr.blockLength, hdr.blockStatus, wordOfInt hdr.blockNdFptr]

def ofWords : List Nat → BlockHeader
  | [check, length, status, next] => ⟨check, length, status, intOfWord next⟩
  | _ => ⟨0, 0, 0, 0⟩

def status : Nat := hdr.blockStatus % 256

/-- The status word with its first byte replaced and all but the first four bytes dropped. -/
def setStatus (status : Nat) : Nat := hdr.blockStatus % 2 ^ 32 / 256 * 256 + status

def test : Bool :=
  let unused1 := hdr.blockStatus / 2 ^ 24 % 256
  let unused2 := hdr.blockStatus / 2 ^ 16 % 256
  let control := hdr.blockStatus / 2 ^ 8 % 256
  if hdr.blockCheckWord ≠ gxCheckWord then false
  else if unused1 ≠ 0 ∨ unused2 ≠ 0 then false
  else if hdr.status = gxBadBlock ∨ hdr.status = gxDeletedBlock ∨ hdr.status = gxNormalBlock ∨
      hdr.status = gxRemovedBlock then control = 0
  else if hdr.status = gxRemoteDeviceBlock then remoteControls.contains control
  else false

/-- The block is marked deleted or removed. -/
def isFree : Bool := hdr.status = gxDeletedBlock ∨ hdr.status = gxRemovedBlock

/-- The members fit their words. -/
structure Fits : Prop where
  check : hdr.blockCheckWord < 2 ^ 64
  length : hdr.blockLength < 2 ^ 64
  status : hdr.blockStatus < 2 ^ 64
  next : -2 ^ 63 ≤ hdr.blockNdFptr ∧ hdr.blockNdFptr < 2 ^ 63

variable {hdr}

theorem ofWords_words (h : hdr.Fits) : ofWords hdr.words = hdr := by
  rw [words, ofWords, intOfWord_wordOfInt h.next.1 h.next.2]

theorem words_lt (h : hdr.Fits) : ∀ w ∈ hdr.words, w < 2 ^ 64 := by
  intro w hw
  simp only [words, List.mem_cons, List.not_mem_nil, or_false] at hw
  rcases hw with rfl | rfl | rfl | rfl
  · exact h.check
  · exact h.length
  · exact h.status
  · exact wordOfInt_lt _

end BlockHeader

/-- The file header, with the signature and its padding as two words. -/
structure FileHeader where
  gxdFsFptr : Int
  gxdEof : Int
  gxdHsFptr : Int
  gxdHbFptr : Int
  gxdSig : Nat × Nat
  gxdVer : Int
  deriving DecidableEq, Repr

namespace FileHeader

variable (hdr : FileHeader)

def words : List Nat :=
  [wordOfInt hdr.gxdFsFptr, wordOfInt hdr.gxdEof, wordOfInt hdr.gxdHsFptr, wordOfInt hdr.gxdHbFptr,
    hdr.gxdSig.1, hdr.gxdSig.2, wordOfInt hdr.gxdVer]

def ofWords : List Nat → FileHeader
  | [fs, eof, hs, hb, sig, sig', ver] =>
    ⟨intOfWord fs, intOfWord eof, intOfWord hs, intOfWord hb, (sig, sig'), intOfWord ver⟩
  | _ => ⟨0, 0, 0, 0, (0, 0), 0⟩

variable {hdr}

theorem words_lt_iff :
    (∀ w ∈ hdr.words, w < 2 ^ 64) ↔ hdr.gxdSig.1 < 2 ^ 64 ∧ hdr.gxdSig.2 < 2 ^ 64 := by
  simp only [words, List.forall_mem_cons, wordOfInt_lt, true_and, List.not_mem_nil, false_implies,
    implies_true, and_true]

end FileHeader

structure FileStatsHeader where
  numBlocks : Int
  deletedBlocks : Int
  removedBlocks : Int
  deriving DecidableEq, Repr

namespace FileStatsHeader

variable (hdr : FileStatsHeader)

def init : FileStatsHeader := ⟨0, 0, 0⟩

def words : List Nat :=
  [wordOfInt hdr.numBlocks, wordOfInt hdr.deletedBlocks, wordOfInt hdr.removedBlocks]

def ofWords : List Nat → FileStatsHeader
  | [blocks, deleted, removed] => ⟨intOfWord blocks, intOfWord deleted, intOfWord removed⟩
  | _ => init

end FileStatsHeader

end DataReel
