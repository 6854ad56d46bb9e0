import DataReel.Database.Rebuild

/-! # The objects of a file

The bytes that the blocks in use hold. A file that only grows has no other
blocks, and what `Rebuild` writes to it is an object more.
-/

namespace DataReel.Database

variable (d : Database)

/-- The bytes of the object in a block. -/
def payload (b : Int × BlockHeader) : List UInt8 :=
  d.file.get (b.1 + d.blockHeaderSize) (b.2.blockLength - d.overhead)

/-- The objects in use, in the order of their addresses. -/
def payloads : List (List UInt8) :=
  (d.blocks.filter fun b => b.2.status = gxNormalBlock).map d.payload

/-- The checksum behind the object of a block. -/
def checksum (b : Int × BlockHeader) : List Nat :=
  d.file.readWords (b.1 + b.2.blockLength - sizeOfChecksum) 1

/-- Blocks in use without free ones between them, with the objects that they hold. -/
structure Carries (d : Database) (blocks : List (Int × BlockHeader)) (objects : List (List UInt8)) :
    Prop where
  holds : d.Holds blocks []
  objects : blocks.map d.payload = objects
  checksums : d.rev.checksumSize ≠ 0 → ∀ b ∈ blocks, d.checksum b = [calcCRC32 (d.payload b)]

variable {d} {d' : Database} {blocks : List (Int × BlockHeader)} {objects : List (List UInt8)}
  {free : List Int} {b : Int × BlockHeader}

theorem overhead_eq (d : Database) : d.overhead = d.blockHeaderSize + d.rev.checksumSize := rfl

theorem checksumSize_cases (rev : Revision) : rev.checksumSize = 0 ∨ rev.checksumSize = 8 := by
  cases rev with
  | zero | E => exact .inl rfl
  | A | B | C | D => exact .inr rfl

theorem payload_length : (d.payload b).length = b.2.blockLength - d.overhead := Bytes.get_length

theorem payload_congr (hRev : d'.rev = d.rev)
    (hFile : ∀ x, b.1 + d.blockHeaderSize ≤ x → x < b.1 + b.2.blockLength → d'.file x = d.file x) :
    d'.payload b = d.payload b := by
  have hOverhead := d.overhead_eq
  rw [payload, payload, blockHeaderSize, overhead, hRev]
  refine Bytes.get_congr fun x hx hx' => hFile x hx ?_
  change x < _ + (d.blockHeaderSize : Int) + (b.2.blockLength - d.overhead : Nat) at hx'
  have hSize := d.rev.blockHeaderSize_pos
  change b.1 + (d.blockHeaderSize : Int) ≤ x at hx
  omega

theorem checksum_congr (hFile : ∀ x, b.1 + b.2.blockLength - sizeOfChecksum ≤ x →
    x < b.1 + b.2.blockLength → d'.file x = d.file x) : d'.checksum b = d.checksum b := by
  refine Bytes.readWords_congr fun x hx hx' => hFile x hx ?_
  rw [sizeOfChecksum] at hx'
  omega

namespace Carries

theorem isFree (h : d.Carries blocks objects) (hb : b ∈ blocks) : b.2.isFree = false := by
  rw [← Bool.not_eq_true]
  exact fun hFree => List.not_mem_nil ((h.holds.mem_free_iff hb).mpr hFree)

theorem status (h : d.Carries blocks objects) (hb : b ∈ blocks) : b.2.status = gxNormalBlock :=
  ((h.holds.sound b hb).status_iff).mpr (h.isFree hb)

theorem payloads_eq (h : d.Carries blocks objects) : d.payloads = objects := by
  rw [payloads, h.holds.blocks_eq, List.filter_eq_self.mpr, h.objects]
  exact fun b hb => decide_eq_true (h.status hb)

theorem of_touches (h : d.Carries blocks objects) (hTouches : Touches [] d d')
    (hHeader : d'.fileHeader = d.fileHeader) : d'.Carries blocks objects := by
  have hBehind (b) (hb : b ∈ blocks) (x : Int) (hx : b.1 ≤ x) : d'.file x = d.file x := by
    have hBounds := h.holds.bounds hb
    exact hTouches.file x (by omega) nofun
  have hPayload (b) (hb : b ∈ blocks) : d'.payload b = d.payload b :=
    payload_congr hTouches.rev fun x hx _ => hBehind b hb x (by omega)
  refine ⟨h.holds.of_touches hTouches hHeader nofun, ?_, fun hSize b hb => ?_⟩
  · rw [← h.objects]
    exact List.map_congr_left hPayload
  · rw [hTouches.rev] at hSize
    have hLength := (h.holds.sound b hb).overhead
    have hChecksum := checksumSize_cases d.rev
    have hOverhead := d.overhead_eq
    rw [hPayload b hb, ← h.checksums hSize b hb]
    refine checksum_congr fun x hx _ => hBehind b hb x ?_
    rw [sizeOfChecksum] at hx
    omega

end Carries

/-! ## Writing an object -/

theorem Touches.writeWords {address : Int} {words : List Nat}
    (hSize : address + 8 * words.length ≤ d.fileSize) :
    Touches [(address, 8 * words.length)] d (d.writeWords address words) :=
  ⟨fun _ _ hApart => Bytes.writeWords_outside (by
    have := hApart _ List.mem_cons_self
    dsimp only at this
    omega), max_eq_left hSize, rfl⟩

/-- Writes a buffer to an object, with its checksum where the file has them. -/
def fill (d : Database) (objectAddress : Int) (object : List UInt8) : Database :=
  let d := d.writeBytes objectAddress object
  if d.rev.checksumSize = 0 then d
  else d.writeWords (objectAddress + object.length) [calcCRC32 object]

theorem fill_fileHeader (d : Database) (objectAddress : Int) (object : List UInt8) :
    (d.fill objectAddress object).fileHeader = d.fileHeader := by
  simp only [fill]
  split <;> rfl

theorem fill_touches {objectAddress : Int} {object : List UInt8}
    (hSize : objectAddress + object.length + d.rev.checksumSize ≤ d.fileSize) :
    Touches [(objectAddress, object.length + d.rev.checksumSize)] d (d.fill objectAddress object) := by
  have hBytes : Touches [(objectAddress, object.length)] d (d.writeBytes objectAddress object) :=
    Touches.writeBytes (by omega)
  simp only [fill]
  split
  · refine hBytes.mono fun p hp => ⟨_, List.mem_cons_self, ?_⟩
    obtain rfl := List.mem_singleton.mp hp
    dsimp only
    omega
  · rename_i hChecksum
    change ¬ d.rev.checksumSize = 0 at hChecksum
    have hEight := (checksumSize_cases d.rev).resolve_left hChecksum
    have hRoom : objectAddress + object.length + 8 * [calcCRC32 object].length ≤
        (d.writeBytes objectAddress object).fileSize := by
      rw [hBytes.fileSize, List.length_singleton]
      omega
    have hWords := Touches.writeWords hRoom
    refine (hBytes.trans hWords).mono fun p hp => ⟨_, List.mem_cons_self, ?_⟩
    simp only [List.cons_append, List.nil_append, List.mem_cons, List.not_mem_nil, or_false] at hp
    rcases hp with rfl | rfl
    · dsimp only
      omega
    · dsimp only [List.length_singleton]
      omega

theorem fill_file (d : Database) (objectAddress : Int) (object : List UInt8) :
    (d.fill objectAddress object).file.get objectAddress object.length = object ∧
      (d.rev.checksumSize ≠ 0 →
        (d.fill objectAddress object).file.readWords (objectAddress + object.length) 1 =
          [calcCRC32 object]) := by
  simp only [fill]
  split
  · rename_i hChecksum
    exact ⟨Bytes.get_put_self, fun hNe => absurd hChecksum hNe⟩
  · refine ⟨?_, fun _ => Bytes.readWords_writeWords_self ?_⟩
    · calc
        _ = (d.file.put objectAddress object).get objectAddress object.length :=
          Bytes.get_congr fun x _ hx => Bytes.writeWords_outside (.inl hx)
        _ = object := Bytes.get_put_self
    · intro w hw
      obtain rfl := List.mem_singleton.mp hw
      exact (calcCRC32_lt object).trans (by decide)

theorem Holds.alloc_extend (h : d.Holds blocks []) {bytes : Nat}
    (hFit : d.fileHeader.gxdEof + (bytes + d.overhead) < 2 ^ 63) :
    d.alloc 1 0 bytes .firstFit = some (d.fileHeader.gxdEof + d.blockHeaderSize,
      (d.extend (bytes + d.overhead)).mark (bytes + d.overhead) d.fileHeader.gxdEof) := by
  have hPos := h.fileHeaderSize_le
  rw [h.fileSize] at hPos
  have hMod : (bytes + d.overhead) % 2 ^ 64 = bytes + d.overhead := Nat.mod_eq_of_lt (by omega)
  have hNone : d.fileHeader.gxdFsFptr = 0 := h.chain
  rw [alloc, hMod, reclaim, if_pos hNone, Option.map_some, if_pos rfl]

/-- The file has become longer, and is as it was up to where it ended. -/
structure Grows (d d' : Database) (bytes : Nat) : Prop where
  rev : d'.rev = d.rev
  start : d'.fileHeader.gxdHsFptr = d.fileHeader.gxdHsFptr
  eof : d'.fileHeader.gxdEof = d.fileHeader.gxdEof + bytes
  kept : ∀ x, (d.rev.fileHeaderSize : Int) ≤ x → x < d.fileHeader.gxdEof → d'.file x = d.file x

theorem Carries.fill (h : d.Carries blocks objects) {object : List UInt8}
    (hFit : d.fileHeader.gxdEof + (object.length + d.overhead) < 2 ^ 63) :
    ∃ e, d.alloc 1 0 object.length .firstFit = some (d.fileHeader.gxdEof + d.blockHeaderSize, e) ∧
      (e.fill (d.fileHeader.gxdEof + d.blockHeaderSize) object).Carries
        (blocks ++ [(d.fileHeader.gxdEof, .normal (object.length + d.overhead))])
        (objects ++ [object]) ∧
      d.Grows (e.fill (d.fileHeader.gxdEof + d.blockHeaderSize) object)
        (object.length + d.overhead) := by
  refine ⟨_, h.holds.alloc_extend hFit, ?_⟩
  have hOverhead := d.overhead_eq
  have hFits : d.fileHeader.gxdEof + (object.length + d.overhead : Nat) < 2 ^ 63 := by omega
  have hLength : d.overhead ≤ object.length + d.overhead := Nat.le_add_left _ _
  have hChanges := h.holds.changes_extend hLength hFits
  have hKept := fun x => h.holds.extend_file_eq (x := x) hLength
  have hEof : ((d.extend (object.length + d.overhead)).mark (object.length + d.overhead)
      d.fileHeader.gxdEof).fileHeader.gxdEof =
      d.fileHeader.gxdEof + (object.length + d.overhead : Nat) := by simp
  generalize (d.extend (object.length + d.overhead)).mark (object.length + d.overhead)
    d.fileHeader.gxdEof = e at hChanges hKept hEof
  have hRev : e.rev = d.rev := hChanges.rev
  have hHolds := hChanges.holds
  have hTouches : Touches [(d.fileHeader.gxdEof + d.blockHeaderSize, object.length + d.rev.checksumSize)]
      e (e.fill (d.fileHeader.gxdEof + d.blockHeaderSize) object) := by
    rw [← hRev]
    refine fill_touches ?_
    rw [hHolds.fileSize, hEof, hRev]
    omega
  have hHeader := e.fill_fileHeader (d.fileHeader.gxdEof + d.blockHeaderSize) object
  have hFile := e.fill_file (d.fileHeader.gxdEof + d.blockHeaderSize) object
  generalize e.fill (d.fileHeader.gxdEof + d.blockHeaderSize) object = e' at hTouches hHeader hFile ⊢
  have hStart := h.holds.fileHeaderSize_le
  have hPos := d.rev.blockHeaderSize_pos
  have hLe := d.rev.sizeOfBlockHeader_le
  rw [h.holds.fileSize] at hStart
  have hRev' : e'.rev = d.rev := hTouches.rev.trans hRev
  have hOld (x : Int) (hx : (d.rev.fileHeaderSize : Int) ≤ x) (hx' : x < d.fileHeader.gxdEof) :
      e'.file x = d.file x := by
    rw [hTouches.file x (by rwa [hRev]) fun p hp => ?_, hKept x hx hx']
    obtain rfl := List.mem_singleton.mp hp
    dsimp only
    omega
  have hEnds (b) (hb : b ∈ blocks) := h.holds.bounds hb
  have hPayload (b) (hb : b ∈ blocks) : e'.payload b = d.payload b := by
    have hEnd := hEnds b hb
    rw [h.holds.fileSize] at hEnd
    exact payload_congr hRev' fun x hx hx' => hOld x (by omega) (by omega)
  have hNew : e'.payload (d.fileHeader.gxdEof, .normal (object.length + d.overhead)) = object := by
    have hSizes : e'.blockHeaderSize = d.blockHeaderSize ∧ e'.overhead = d.overhead := by
      simp only [blockHeaderSize, overhead, hRev', and_self]
    rw [payload, hSizes.1, hSizes.2]
    dsimp only [BlockHeader.normal]
    rw [Nat.add_sub_cancel]
    exact hFile.1
  refine ⟨⟨hHolds.of_touches hTouches hHeader fun b hb p hp => ?_, ?_, fun hSize b hb => ?_⟩,
    hRev', by rw [hHeader, hChanges.start], by rw [hHeader, hEof], hOld⟩
  · obtain rfl := List.mem_singleton.mp hp
    rw [blockHeaderSize]
    dsimp only
    rcases List.mem_append.mp hb with hb | hb
    · have hEnd := hEnds b hb
      have hHeaderLe := (h.holds.header_le hb).1
      rw [h.holds.fileSize] at hEnd
      omega
    · rw [List.mem_singleton.mp hb]
      dsimp only
      omega
  · rw [List.map_append, List.map_singleton, hNew, ← h.objects]
    exact congrArg (· ++ [object]) (List.map_congr_left hPayload)
  · rw [hRev'] at hSize
    rcases List.mem_append.mp hb with hb | hb
    · have hEnd := hEnds b hb
      have hLength := (h.holds.sound b hb).overhead
      have hEight := checksumSize_cases d.rev
      rw [h.holds.fileSize] at hEnd
      rw [hPayload b hb, ← h.checksums hSize b hb]
      refine checksum_congr fun x hx hx' => hOld x ?_ (by omega)
      rw [sizeOfChecksum] at hx
      omega
    · obtain rfl := List.mem_singleton.mp hb
      have hEight := (checksumSize_cases d.rev).resolve_left hSize
      have hAt : d.fileHeader.gxdEof + (object.length + d.overhead : Nat) - sizeOfChecksum =
          d.fileHeader.gxdEof + d.blockHeaderSize + object.length := by
        rw [sizeOfChecksum]
        omega
      rw [hNew, checksum]
      dsimp only [BlockHeader.normal]
      rw [hAt]
      exact hFile.2 (by rwa [hRev])

end DataReel.Database
