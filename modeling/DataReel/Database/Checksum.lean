import DataReel.Database.Contents
import DataReel.Database.Crc32Burst

/-! # Checksums of objects

A block of a file with checksums has the CRC-32 of its object at its end. It is
calculated in a buffer, or byte by byte if there is no memory for one.
-/

namespace DataReel

namespace Database

variable (d : Database)

/-- The loop of `CalcChecksum` over single bytes, from a file position on. -/
def calcBytes : Nat → Int → UInt32 → Option UInt32
  | 0, _, crc => some crc
  | len + 1, position, crc =>
    if position + 1 ≤ d.fileSize then calcBytes len (position + 1) (crc32Byte crc (d.file position))
    else none

/-- `CalcChecksum`, with the object that it leaves; `none` is a file error. -/
def calcChecksum (bytes : Nat) (fileAddress : Int) (memAlloc : Bool) : Option Nat × Database :=
  let (eof, d) := d.getEOF
  if fileAddress < 0 ∨ eof < fileAddress ∨ eof - fileAddress < bytes then (none, d)
  else if memAlloc then ((d.readBytes fileAddress bytes).map fun buf => calcCRC32 buf.1, d)
  else ((d.calcBytes bytes fileAddress 0xFFFFFFFF).map fun crc => (crc ^^^ 0xFFFFFFFF).toNat, d)

/-- The bytes of a block that its checksum is of, a number of 64 bits. -/
def checkedBytes (hdr : BlockHeader) : Nat :=
  (hdr.blockLength + (2 ^ 64 - d.blockHeaderSize) + (2 ^ 64 - sizeOfChecksum)) % 2 ^ 64

/-- `WriteObjectChecksum`; `memory` tells whether there is memory for a buffer. -/
def writeObjectChecksum (memory : Bool) (position objectAddress : Int) : Nat × Database :=
  if d.rev.checksumSize = 0 then (0, d)
  else
    match d.readBlockHdr position (objectAddress - d.blockHeaderSize) with
    | none => (0, d)
    | some hdr =>
      let bytes := d.checkedBytes hdr
      match d.calcChecksum bytes objectAddress memory with
      | (none, d) => (0, d)
      | (some crc, d) => (crc, d.writeBytes (objectAddress + bytes) (Bytes.leBytes 8 crc))

/-- What `ReadObjectChecksum` returns and passes back, and the object that it leaves. -/
structure ChecksumRead where
  result : Bool
  /-- `object_crc` and `calc_crc`, if they are set. -/
  crcs : Option (Nat × Nat)
  database : Database

def readObjectChecksum (memory : Bool) (position objectAddress : Int) : ChecksumRead :=
  if d.rev.checksumSize = 0 then ⟨true, some (0, 0), d⟩
  else
    match d.readBlockHdr position (objectAddress - d.blockHeaderSize) with
    | none => ⟨false, none, d⟩
    | some hdr =>
      let bytes := d.checkedBytes hdr
      match d.calcChecksum bytes objectAddress memory with
      | (none, d) => ⟨false, none, d⟩
      | (some crc, d) =>
        match d.readBytes (objectAddress + bytes) sizeOfChecksum with
        | none => ⟨false, none, d⟩
        | some word => ⟨crc = Bytes.leNat word.1, some (Bytes.leNat word.1, crc), d⟩

variable {d} {blocks : List (Int × BlockHeader)} {free : List Int} {b : Int × BlockHeader} {n : Nat}
  {position : Int}

/-! ## The two loops -/

theorem calcBytes_eq (hn : n = 0 ∨ position + n ≤ d.fileSize) (crc : UInt32) :
    d.calcBytes n position crc = some ((d.file.get position n).foldl crc32Byte crc) := by
  induction n generalizing position crc with
  | zero => rfl
  | succ n ih =>
    rw [calcBytes, if_pos (by omega), ih (.inr (by omega)), Bytes.get_succ]
    rfl

theorem calcBytes_eq_none (hn : ¬ (n = 0 ∨ position + n ≤ d.fileSize)) (crc : UInt32) :
    d.calcBytes n position crc = none := by
  induction n generalizing position crc with
  | zero => exact absurd (.inl rfl) hn
  | succ n ih =>
    rw [calcBytes]
    split
    · exact ih (by omega) _
    · rfl

/-- A checksum is the same with and without a buffer. -/
theorem calcChecksum_memAlloc (d : Database) (hn : n < 2 ^ 32) (fileAddress : Int) :
    d.calcChecksum n fileAddress true = d.calcChecksum n fileAddress false := by
  rw [calcChecksum, calcChecksum]
  generalize d.getEOF = r
  dsimp only
  split
  · rfl
  · rw [if_pos rfl, if_neg Bool.false_ne_true, readBytes]
    split
    · rw [calcBytes_eq ‹_›, Option.map_some, Option.map_some, calcCRC32, Bytes.get_length,
        Nat.mod_eq_of_lt hn, List.take_of_length_le (Nat.le_of_eq Bytes.get_length)]
    · rw [calcBytes_eq_none ‹_›]
      rfl

namespace Intact

theorem calcChecksum_eq (h : d.Intact blocks free) (hLow : 0 ≤ position)
    (hHigh : position + n ≤ d.fileSize) (hn : n < 2 ^ 32) (memory : Bool) :
    d.calcChecksum n position memory = (some (calcCRC32 (d.file.get position n)), d) := by
  have hBuffer : d.calcChecksum n position true = (some (calcCRC32 (d.file.get position n)), d) := by
    rw [calcChecksum, Undamaged.getEOF ⟨_, _, h⟩]
    dsimp only
    rw [if_neg (by omega), if_pos rfl, readBytes, if_pos (.inr hHigh), Option.map_some]
  cases memory with
  | true => exact hBuffer
  | false => rw [← calcChecksum_memAlloc d hn, hBuffer]

theorem readBlockHdr_eq (h : d.Intact blocks free) (hb : b ∈ blocks) (position : Int) :
    d.readBlockHdr position (b.1 + d.blockHeaderSize - d.blockHeaderSize) = some b.2 := by
  rw [Int.add_sub_cancel, readBlockHdr, readPosition_pos position (h.holds.bounds hb).1, h.holds.stored b hb,
    Option.filter_some, if_pos (h.holds.sound b hb).test]

theorem calcChecksum_payload (h : d.Intact blocks free) (hb : b ∈ blocks)
    (hn : (d.payload b).length < 2 ^ 32) (memory : Bool) :
    d.calcChecksum (b.2.blockLength - d.overhead) (b.1 + d.blockHeaderSize) memory =
      (some (calcCRC32 (d.payload b)), d) := by
  have hBounds := h.holds.bounds hb
  have hSum := d.overhead_eq
  rw [payload_length] at hn
  exact h.calcChecksum_eq (by omega) (by omega) hn memory

variable (hRev : d.rev.checksumSize ≠ 0)
include hRev

theorem checksum_place (h : d.Intact blocks free) (hb : b ∈ blocks) :
    d.checkedBytes b.2 = b.2.blockLength - d.overhead ∧
      b.1 + d.blockHeaderSize + (b.2.blockLength - d.overhead : Nat) =
        b.1 + b.2.blockLength - sizeOfChecksum ∧
      b.1 + d.blockHeaderSize ≤ b.1 + b.2.blockLength - sizeOfChecksum := by
  have hOverhead := (h.holds.sound b hb).overhead
  have hLength := h.holds.blockLength_lt hb
  have hSum := d.overhead_eq
  have hSize := (checksumSize_cases d.rev).resolve_left hRev
  rw [checkedBytes, sizeOfChecksum]
  omega

theorem writeObjectChecksum_eq (h : d.Intact blocks free) (hb : b ∈ blocks)
    (hn : (d.payload b).length < 2 ^ 32) (memory : Bool) (position : Int) :
    d.writeObjectChecksum memory position (b.1 + d.blockHeaderSize) =
      (calcCRC32 (d.payload b), d.writeBytes (b.1 + b.2.blockLength - sizeOfChecksum)
        (Bytes.leBytes 8 (calcCRC32 (d.payload b)))) := by
  obtain ⟨hBytes, hPlace, -⟩ := checksum_place hRev h hb
  rw [writeObjectChecksum, if_neg hRev, h.readBlockHdr_eq hb]
  dsimp only
  rw [hBytes, h.calcChecksum_payload hb hn, hPlace]

theorem readObjectChecksum_eq (h : d.Intact blocks free) (hb : b ∈ blocks)
    (hn : (d.payload b).length < 2 ^ 32) {crc : Nat} (hCrc : crc < 2 ^ 64)
    (hStored : d.file.get (b.1 + b.2.blockLength - sizeOfChecksum) sizeOfChecksum = Bytes.leBytes 8 crc)
    (memory : Bool) (position : Int) :
    d.readObjectChecksum memory position (b.1 + d.blockHeaderSize) =
      ⟨calcCRC32 (d.payload b) = crc, some (crc, calcCRC32 (d.payload b)), d⟩ := by
  obtain ⟨hBytes, hPlace, -⟩ := checksum_place hRev h hb
  have hBounds := h.holds.bounds hb
  have hWord : Bytes.leNat (Bytes.leBytes 8 crc) = crc := Bytes.leNat_leBytes hCrc
  rw [readObjectChecksum, if_neg hRev, h.readBlockHdr_eq hb]
  dsimp only
  rw [hBytes, h.calcChecksum_payload hb hn, hPlace]
  dsimp only
  rw [readBytes, if_pos (.inr (by omega))]
  dsimp only
  simp only [hStored, hWord]

end Intact

end Database

/-- A call does not free the object of a block and does not write to its checksum. -/
def FileCall.SparesChecksum (b : Int × BlockHeader) (c : Int × FileCall) (d : Database) : Prop :=
  match c.2 with
  | .heap call => call.target ≠ some (b.1 + d.blockHeaderSize)
  | .write address bytes => address + bytes.length ≤ b.1 + b.2.blockLength - sizeOfChecksum ∨
      b.1 + b.2.blockLength ≤ address

instance (b : Int × BlockHeader) (d : Database) : ∀ c, Decidable (FileCall.SparesChecksum b c d)
  | (_, .heap call) => inferInstanceAs (Decidable (call.target ≠ some (b.1 + d.blockHeaderSize)))
  | (_, .write address bytes) =>
    inferInstanceAs (Decidable (address + bytes.length ≤ b.1 + b.2.blockLength - sizeOfChecksum ∨
      b.1 + b.2.blockLength ≤ address))

namespace Database

variable {d : Database} {blocks : List (Int × BlockHeader)} {free : List Int} {b : Int × BlockHeader}

/-! ## Histories -/

/-- A block in use with a checksum at its end. -/
structure Checksummed (d : Database) (b : Int × BlockHeader) (crc : Nat) : Prop where
  intact : ∃ blocks free, d.Intact blocks free ∧ b ∈ blocks
  isFree : b.2.isFree = false
  checksumSize : d.rev.checksumSize ≠ 0
  stored : d.file.get (b.1 + b.2.blockLength - sizeOfChecksum) sizeOfChecksum = Bytes.leBytes 8 crc

theorem Checksummed.step {crc : Nat} (h : d.Checksummed b crc) {c : Int × FileCall}
    (hProper : FileCall.Proper c d) (hSpares : FileCall.SparesChecksum b c d) :
    (fileCalls.step c d).2.Checksummed b crc := by
  obtain ⟨⟨blocks, free, hIntact, hb⟩, hUse, hSize, hStored⟩ := h
  have hLow := (Intact.checksum_place hSize hIntact hb).2.2
  have hPos := d.rev.blockHeaderSize_pos
  change 0 < d.blockHeaderSize at hPos
  obtain ⟨position, call⟩ := c
  cases call with
  | heap call =>
    obtain ⟨blocks₂, free₂, hNext⟩ := hIntact.heap (c := (position, call)) hProper
    obtain ⟨a, blocks', free', hChanges, hEffect⟩ := HeapCall.step_effect (position, call) hIntact.holds hProper
    have hne : b.1 ≠ a := hEffect.ne hb hUse hSpares
    refine ⟨⟨blocks₂, free₂, hNext, ?_⟩, hUse, ?_, ?_⟩
    · rw [← hNext.holds.blocks_eq, hChanges.holds.blocks_eq]
      exact hChanges.inUse b hb hUse hne
    · change (heapCalls.step (position, call) d).2.rev.checksumSize ≠ 0
      rwa [hChanges.rev]
    · rw [← hStored]
      exact Bytes.get_congr fun x hx hx' => hChanges.kept b hb hUse hne x (by omega) (by omega)
  | write address bytes =>
    obtain ⟨blocks₂, free₂, hNext⟩ := hIntact.step (c := (position, .write address bytes)) hProper
    refine ⟨⟨blocks₂, free₂, hNext, ?_⟩, hUse, hSize, ?_⟩
    · have hPlace : (∃ b ∈ blocks, b.1 + sizeOfBlockHeader ≤ address ∧
          address + bytes.length ≤ b.1 + b.2.blockLength) ∨
          (d.rev.fileHeaderSize : Int) ≤ address ∧ address + bytes.length ≤ d.fileHeader.gxdHsFptr := by
        refine hProper.imp_left fun ⟨c, hc, _, hIn⟩ => ⟨c, ?_, hIn⟩
        rwa [hIntact.holds.blocks_eq] at hc
      rw [← hNext.holds.blocks_eq]
      exact (hIntact.holds.writeBytes hPlace).1.blocks_eq ▸ hb
    · rw [← hStored]
      refine Bytes.get_congr fun x hx hx' => Bytes.put_outside ?_
      change address + bytes.length ≤ _ ∨ _ at hSpares
      omega

theorem Intact.checksummed (h : d.Intact blocks free) (hRev : d.rev.checksumSize ≠ 0) (hb : b ∈ blocks)
    (hUse : b.2.isFree = false) (hn : (d.payload b).length < 2 ^ 32) (memory : Bool) (position : Int) :
    (d.writeObjectChecksum memory position (b.1 + d.blockHeaderSize)).2.Checksummed b
        (calcCRC32 (d.payload b)) ∧
      (d.writeObjectChecksum memory position (b.1 + d.blockHeaderSize)).2.rev = d.rev := by
  have hLow := (Intact.checksum_place hRev h hb).2.2
  have hHeader := d.rev.sizeOfBlockHeader_le
  change sizeOfBlockHeader ≤ d.blockHeaderSize at hHeader
  have hWord : (Bytes.leBytes 8 (calcCRC32 (d.payload b))).length = sizeOfChecksum := Bytes.leBytes_length
  have hPlace : b.1 + sizeOfBlockHeader ≤ b.1 + b.2.blockLength - sizeOfChecksum ∧
      b.1 + b.2.blockLength - sizeOfChecksum + (Bytes.leBytes 8 (calcCRC32 (d.payload b))).length ≤
        b.1 + b.2.blockLength := by
    rw [hWord]
    omega
  rw [Intact.writeObjectChecksum_eq hRev h hb hn]
  obtain ⟨blocks', free', hNext⟩ := h.step (c := (0, .write (b.1 + b.2.blockLength - sizeOfChecksum)
    (Bytes.leBytes 8 (calcCRC32 (d.payload b))))) (.inl ⟨b, by rwa [h.holds.blocks_eq],
      (h.holds.sound b hb).status_iff.mpr hUse, hPlace⟩)
  refine ⟨⟨⟨blocks', free', hNext, ?_⟩, hUse, hRev, ?_⟩, rfl⟩
  · rw [← hNext.holds.blocks_eq]
    exact (h.holds.writeBytes (.inl ⟨b, hb, hPlace⟩)).1.blocks_eq ▸ hb
  · rw [← hWord]
    exact Bytes.get_put_self

theorem Checksummed.read {l : List UInt8} (h : d.Checksummed b (calcCRC32 l)) (hn : l.length < 2 ^ 32)
    (hLength : (d.payload b).length = l.length) (memory : Bool) (position : Int) :
    (d.payload b = l → (d.readObjectChecksum memory position (b.1 + d.blockHeaderSize)).result = true) ∧
      (d.payload b ≠ l → Burst l (d.payload b) →
        (d.readObjectChecksum memory position (b.1 + d.blockHeaderSize)).result = false) := by
  obtain ⟨blocks, free, hIntact, hb⟩ := h.intact
  have hWord : calcCRC32 l < 2 ^ 64 := (calcCRC32_lt l).trans (by decide)
  rw [Intact.readObjectChecksum_eq h.checksumSize hIntact hb (by rwa [hLength]) hWord h.stored]
  constructor
  · intro hSame
    exact decide_eq_true (by rw [hSame])
  · intro hOther hBurst
    exact decide_eq_false fun hCrc => hOther (calcCRC32_burst hn hBurst hCrc.symm).symm

/-- An object with a checksum is accepted as long as it is as it was, and is refused when it differs
within four bytes; with and without a buffer the checksum is the same. -/
theorem checksum_detects (rev : Revision) (hRev : rev.checksumSize ≠ 0) {staticSize : Nat}
    (hStatic : staticSize + rev.fileHeaderSize < 2 ^ 63) {calls : List (Int × FileCall)}
    (hCalls : fileCalls.Along FileCall.Proper calls (create rev staticSize)) :
    ∃ d, d = (fileCalls.run calls (create rev staticSize)).2 ∧
      (∀ b ∈ d.blocks, b.2.status = gxNormalBlock → (d.payload b).length < 2 ^ 32 →
        ∀ memory position others,
          fileCalls.Along (fun c e => FileCall.Proper c e ∧ FileCall.SparesChecksum b c e) others
            (d.writeObjectChecksum memory position (b.1 + d.blockHeaderSize)).2 →
          ∃ e, e = (fileCalls.run others
              (d.writeObjectChecksum memory position (b.1 + d.blockHeaderSize)).2).2 ∧
            ∀ memory' position',
              (e.payload b = d.payload b →
                (e.readObjectChecksum memory' position' (b.1 + d.blockHeaderSize)).result = true) ∧
              (e.payload b ≠ d.payload b → Burst (d.payload b) (e.payload b) →
                (e.readObjectChecksum memory' position' (b.1 + d.blockHeaderSize)).result = false)) ∧
      ∀ n address, n < 2 ^ 32 → d.calcChecksum n address true = d.calcChecksum n address false := by
  obtain ⟨⟨blocks, free, h⟩, hSame⟩ := Machine.run_invariant (M := fileCalls) (P := FileCall.Proper)
    (I := fun d => (∃ blocks free, d.Intact blocks free) ∧ d.rev = rev)
    (fun c d hI hProper => by
      obtain ⟨⟨blocks, free, h⟩, hSame⟩ := hI
      exact ⟨h.step hProper, (fileCalls_rev h hProper).trans hSame⟩)
    ⟨⟨[], [], create_intact rev hStatic⟩, create_rev rev staticSize⟩ hCalls
  refine ⟨_, rfl, ?_, fun n address hn => calcChecksum_memAlloc _ hn address⟩
  generalize (fileCalls.run calls (create rev staticSize)).2 = d at h hSame
  intro b hb hStatus hn memory position others hOthers
  rw [h.holds.blocks_eq] at hb
  have hUse := (h.holds.sound b hb).status_iff.mp hStatus
  have hStart := h.checksummed (hSame.symm ▸ hRev) hb hUse hn memory position
  refine ⟨_, rfl, ?_⟩
  generalize (d.writeObjectChecksum memory position (b.1 + d.blockHeaderSize)).2 = w at hStart hOthers
  obtain ⟨hEnd, hEndRev⟩ := Machine.run_invariant (M := fileCalls)
    (I := fun e => e.Checksummed b (calcCRC32 (d.payload b)) ∧ e.rev = d.rev)
    (fun c e hI hBoth => by
      obtain ⟨blocks, free, hIntact, -⟩ := hI.1.intact
      exact ⟨hI.1.step hBoth.1 hBoth.2, (fileCalls_rev hIntact hBoth.1).trans hI.2⟩) hStart hOthers
  generalize (fileCalls.run others w).2 = e at hEnd hEndRev
  intro memory' position'
  have hSize : e.blockHeaderSize = d.blockHeaderSize := by rw [blockHeaderSize, hEndRev, blockHeaderSize]
  rw [← hSize]
  exact hEnd.read hn (by rw [payload_length, payload_length, overhead, hEndRev, overhead]) memory' position'

/-- An object of ten bytes in a file of revision C, one of whose bytes is changed and set back. -/
theorem checksum_detects_C :
    ∃ d, d = (fileCalls.run [(0, .heap (.alloc 10 .none)), (136, .write 136 [1, 2, 3])] (create .C 0)).2 ∧
      (∀ b ∈ d.blocks, b.2.status = gxNormalBlock → (d.payload b).length < 2 ^ 32 →
        ∀ memory position others,
          fileCalls.Along (fun c e => FileCall.Proper c e ∧ FileCall.SparesChecksum b c e) others
            (d.writeObjectChecksum memory position (b.1 + d.blockHeaderSize)).2 →
          ∃ e, e = (fileCalls.run others
              (d.writeObjectChecksum memory position (b.1 + d.blockHeaderSize)).2).2 ∧
            ∀ memory' position',
              (e.payload b = d.payload b →
                (e.readObjectChecksum memory' position' (b.1 + d.blockHeaderSize)).result = true) ∧
              (e.payload b ≠ d.payload b → Burst (d.payload b) (e.payload b) →
                (e.readObjectChecksum memory' position' (b.1 + d.blockHeaderSize)).result = false)) ∧
      ∀ n address, n < 2 ^ 32 → d.calcChecksum n address true = d.calcChecksum n address false :=
  checksum_detects .C (by decide) (by decide) (by decide +kernel)

end Database

end DataReel
