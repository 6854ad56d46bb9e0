import DataReel.Database.Buffers
import DataReel.Database.Scan
import Mathlib.Data.List.TakeWhile

/-! # Strings of persistent objects

`WriteString` stores a string behind its length, at an address or at the file
position, and `ReadString` reads it. Before it reads the text, it asks for the
end of the file, for which the engine reads the file header.
-/

namespace DataReel

/-- A null-terminated string without its end. -/
abbrev CString := { l : List UInt8 // 0 ∉ l }

namespace CString

def empty : CString := ⟨[], List.not_mem_nil⟩

/-- The string that starts at the beginning of a buffer with a zero behind it. -/
def ofBuffer (l : List UInt8) : CString :=
  ⟨l.takeWhile (· ≠ 0), fun hZero => by simpa using List.mem_takeWhile_imp hZero⟩

end CString

namespace Database

variable (d : Database)

/-- The bytes that are stored behind the length: one for a null pointer. -/
def stringBytes : Option CString → List UInt8
  | some s => s.1
  | none => [0]

/-- `WriteString`, with the file position that it leaves. A null pointer is `none`. -/
def writeString (position address : Int) (s : Option CString) : Database × Int :=
  let start := readPosition position address
  let len := (stringBytes s).length
  ((d.writeBytes start (Bytes.leBytes 8 len)).writeBytes (start + 8) (stringBytes s), start + 8 + len)

/-- The first string at an address, the others at the file position. -/
def writeStrings : Database → Int → Int → List (Option CString) → Database × Int
  | d, position, _, [] => (d, position)
  | d, position, address, s :: strings =>
    writeStrings (d.writeString position address s).1 (d.writeString position address s).2
      gxCurrAddress strings

/-- `ReadString`: the string, or `none` for a null pointer, with the object and the file position. -/
def readString (position address : Int) : Option CString × Database × Int :=
  let start := readPosition position address
  match d.readBytes start 8 with
  | none => (none, d, d.readEnd start 8)
  | some word =>
    let len := Bytes.leNat word.1
    let pos := start + 8
    let eof := d.getEOF.1
    if pos < 0 ∨ eof < pos ∨ eof - pos < len then (none, d.getEOF.2, d.eofPosition)
    else
      match d.getEOF.2.readBytes d.eofPosition len with
      | none => (none, d.getEOF.2, d.getEOF.2.readEnd d.eofPosition len)
      | some sbuf => (some (.ofBuffer sbuf.1), d.getEOF.2, d.eofPosition + len)

/-- As many strings, the first at an address, the others at the file position. -/
def readStrings : Database → Int → Int → Nat → List (Option CString)
  | _, _, _, 0 => []
  | d, position, address, n + 1 =>
    (d.readString position address).1 ::
      readStrings (d.readString position address).2.1 (d.readString position address).2.2 gxCurrAddress n

/-- Strings that are written at an address are read there. -/
def RoundTrips (position address : Int) (strings : List (Option CString)) : Prop :=
  let written := d.writeStrings position address strings
  written.1.readStrings written.2 address strings.length = strings.map fun s => some (s.getD .empty)

/-- The bytes that strings take in a file. -/
def stringsLength (strings : List (Option CString)) : Nat :=
  (strings.map fun s => 8 + (stringBytes s).length).sum

/-- A file whose header is the one in memory, and an address in an object in use that has room for some
bytes from there on. -/
def HasRoom (address : Int) (bytes : Nat) : Prop :=
  ∃ blocks free b, d.Mapped blocks free ∧ b ∈ blocks ∧ b.2.isFree = false ∧
    b.1 + d.blockHeaderSize ≤ address ∧ address + bytes + d.rev.checksumSize ≤ b.1 + b.2.blockLength

variable {d : Database} {blocks : List (Int × BlockHeader)} {free : List Int} {position address : Int}
  {n : Nat} {s : Option CString} {strings : List (Option CString)}

/-! ## What `ReadString` reads -/

theorem Mapped.getEOF_eq (h : d.Mapped blocks free) :
    d.getEOF = (d.fileHeader.gxdEof, d) ∧ d.eofPosition = sizeOfFileHeader := by
  have hSize : (sizeOfFileHeader : Int) ≤ d.fileSize := by
    have hHeader := h.holds.fileHeaderSize_le
    have hLe := d.rev.sizeOfFileHeader_le
    omega
  have hEof : (FileHeader.ofWords (d.file.readWords 0 7)).gxdEof = d.fileHeader.gxdEof := h.diskEof
  rw [getEOF, eofPosition, if_neg (not_lt.mpr hSize), if_pos hEof, if_neg (fun hBoth => hBoth.1 hEof), readEnd]
  constructor
  · rfl
  · omega

/-- The text comes from behind the file header, wherever the length was. -/
theorem Mapped.readString_eq (h : d.Mapped blocks free)
    (hStart : (sizeOfFileHeader : Int) ≤ readPosition position address)
    (hFits : readPosition position address + 8 + n ≤ d.fileHeader.gxdEof)
    (hLen : Bytes.leNat (d.file.get (readPosition position address) 8) = n) :
    d.readString position address =
      (some (CString.ofBuffer (d.file.get sizeOfFileHeader n)), d, (sizeOfFileHeader : Int) + n) := by
  subst hLen
  obtain ⟨hEof, hPosition⟩ := h.getEOF_eq
  have hFile := h.holds.fileSize
  have hWord : d.readBytes (readPosition position address) 8 =
      some ⟨d.file.get (readPosition position address) 8, Bytes.get_length⟩ := by
    apply if_pos
    omega
  simp only [readString, hWord, hEof, hPosition]
  rw [if_neg (by omega), readBytes, if_pos (by omega)]

/-- A length that does not fit gives a null pointer. -/
theorem Mapped.readString_long (h : d.Mapped blocks free)
    (hFits : d.fileHeader.gxdEof <
      readPosition position address + 8 + Bytes.leNat (d.file.get (readPosition position address) 8)) :
    (d.readString position address).1 = none := by
  rw [readString]
  dsimp only
  cases hRead : d.readBytes (readPosition position address) 8 with
  | none => rfl
  | some word =>
    obtain ⟨-, hWord⟩ := readBytes_eq_some_iff.mp hRead
    rw [hWord] at hFits
    dsimp only
    rw [h.getEOF_eq.1, if_pos (by dsimp only; omega)]

/-! ## What the writes leave -/

theorem stringsLength_cons (s : Option CString) (strings : List (Option CString)) :
    stringsLength (s :: strings) = 8 + (stringBytes s).length + stringsLength strings := by
  simp [stringsLength]

theorem Mapped.writeString (h : d.Mapped blocks free) {b : Int × BlockHeader} (hb : b ∈ blocks)
    (hLow : b.1 + sizeOfBlockHeader ≤ readPosition position address)
    (hHigh : readPosition position address + 8 + (stringBytes s).length ≤ b.1 + b.2.blockLength) :
    (d.writeString position address s).1.Mapped blocks free := by
  have hWord : (d.writeBytes (readPosition position address)
      (Bytes.leBytes 8 (stringBytes s).length)).Mapped blocks free := by
    apply h.writeBytes
    rw [Bytes.leBytes_length]
    exact .inl ⟨b, hb, hLow, by omega⟩
  apply hWord.writeBytes
  exact .inl ⟨b, hb, by omega, by omega⟩

/-- The writes stay in the block, behind the first of them. -/
theorem Mapped.writeStrings (h : d.Mapped blocks free) (position address : Int)
    (strings : List (Option CString)) {b : Int × BlockHeader} (hb : b ∈ blocks)
    (hLow : b.1 + sizeOfBlockHeader ≤ readPosition position address)
    (hHigh : readPosition position address + stringsLength strings ≤ b.1 + b.2.blockLength) :
    (d.writeStrings position address strings).1.Mapped blocks free ∧
      ∀ x < readPosition position address,
        (d.writeStrings position address strings).1.file x = d.file x := by
  induction strings generalizing d position address with
  | nil => exact ⟨h, fun x hx => rfl⟩
  | cons s strings ih =>
    rw [stringsLength_cons] at hHigh
    have hNext : readPosition (d.writeString position address s).2 gxCurrAddress =
        readPosition position address + 8 + (stringBytes s).length := if_pos rfl
    have hFirst := h.writeString (s := s) hb hLow (by omega)
    obtain ⟨hMapped, hSame⟩ := ih hFirst _ _ (by rw [hNext]; omega) (by rw [hNext]; omega)
    constructor
    · exact hMapped
    · intro x hx
      rw [Database.writeStrings, hSame x (by rw [hNext]; omega)]
      calc
        _ = (d.writeBytes (readPosition position address)
            (Bytes.leBytes 8 (stringBytes s).length)).file x := Bytes.put_outside (.inl (by omega))
        _ = d.file x := Bytes.put_outside (.inl hx)

/-- The length of the first string is where it was written. -/
theorem Mapped.writeStrings_length (h : d.Mapped blocks free) (position address : Int)
    (s : Option CString) (strings : List (Option CString)) {b : Int × BlockHeader} (hb : b ∈ blocks)
    (hLow : b.1 + sizeOfBlockHeader ≤ readPosition position address)
    (hHigh : readPosition position address + stringsLength (s :: strings) ≤ b.1 + b.2.blockLength) :
    Bytes.leNat ((d.writeStrings position address (s :: strings)).1.file.get
      (readPosition position address) 8) = (stringBytes s).length := by
  rw [stringsLength_cons] at hHigh
  have hNext : readPosition (d.writeString position address s).2 gxCurrAddress =
      readPosition position address + 8 + (stringBytes s).length := if_pos rfl
  have hFirst := h.writeString (s := s) hb hLow (by omega)
  have hRest (x : Int) (hx : x < readPosition position address + 8) :
      (d.writeStrings position address (s :: strings)).1.file x =
        (d.writeString position address s).1.file x := by
    apply (hFirst.writeStrings _ _ _ hb _ _).2 x
    all_goals
      rw [hNext]
      omega
  have hLimit := h.holds.limit
  have hBounds := h.holds.bounds hb
  rw [h.holds.fileSize] at hBounds
  have hLength : (stringBytes s).length < 256 ^ 8 := by omega
  have hWord : (d.file.put (readPosition position address) (Bytes.leBytes 8 (stringBytes s).length)).get
      (readPosition position address) 8 = Bytes.leBytes 8 (stringBytes s).length := by
    have hGet := Bytes.get_put_self (m := d.file) (a := readPosition position address)
      (l := Bytes.leBytes 8 (stringBytes s).length)
    rwa [Bytes.leBytes_length] at hGet
  rw [← Bytes.leNat_leBytes hLength, ← hWord]
  congr 1
  apply Bytes.get_congr
  intro x hx hx'
  rw [hRest x (by omega)]
  exact Bytes.put_outside (.inl (by omega))

/-! ## When the strings come back -/

theorem HasRoom.written (h : d.HasRoom address (stringsLength strings)) (position : Int) :
    (sizeOfFileHeader : Int) < address ∧
      ∃ blocks free, (d.writeStrings position address strings).1.Mapped blocks free ∧
        (address + stringsLength strings ≤
          (d.writeStrings position address strings).1.fileHeader.gxdEof) ∧
        ∀ x < address, (d.writeStrings position address strings).1.file x = d.file x := by
  obtain ⟨blocks, free, b, hMapped, hb, -, hLow, hHigh⟩ := h
  have hBounds := hMapped.holds.bounds hb
  have hHeader := d.rev.sizeOfFileHeader_le
  have hBlock := d.rev.sizeOfBlockHeader_le
  have hPos := d.rev.blockHeaderSize_pos
  rw [blockHeaderSize] at hLow
  have hStart : readPosition position address = address := by
    apply if_neg
    rw [gxCurrAddress]
    omega
  obtain ⟨hWritten, hSame⟩ := hMapped.writeStrings position address strings hb (by omega) (by omega)
  have hEnd := (hWritten.holds.bounds hb).2.2.1
  rw [hWritten.holds.fileSize] at hEnd
  rw [hStart] at hSame
  exact ⟨by omega, blocks, free, hWritten, by omega, hSame⟩

/-- The first `ReadString` gives back as many of the bytes behind the file header as were written. -/
theorem HasRoom.readString_first (h : d.HasRoom address (stringsLength (s :: strings))) :
    (d.writeStrings position address (s :: strings)).1.readString
        (d.writeStrings position address (s :: strings)).2 address =
      (some (CString.ofBuffer ((d.writeStrings position address (s :: strings)).1.file.get
        sizeOfFileHeader (stringBytes s).length)),
      (d.writeStrings position address (s :: strings)).1,
      (sizeOfFileHeader : Int) + (stringBytes s).length) := by
  obtain ⟨hBehind, blocks, free, hWritten, hEnd, -⟩ := h.written position
  rw [stringsLength_cons] at hEnd
  have hStart (position : Int) : readPosition position address = address := by
    apply if_neg
    rw [gxCurrAddress]
    omega
  apply hWritten.readString_eq
  · rw [hStart]
    omega
  · rw [hStart]
    omega
  · obtain ⟨blocks, free, b, hMapped, hb, -, hLow, hHigh⟩ := h
    have hBlock := d.rev.sizeOfBlockHeader_le
    rw [blockHeaderSize] at hLow
    have hLength := hMapped.writeStrings_length position address s strings hb
      (by rw [hStart]; omega) (by rw [hStart]; omega)
    rw [hStart] at hLength ⊢
    exact hLength

/-- A file with eight bytes of static data, all alike, and room for some bytes in an object. -/
theorem create_hasRoom {bytes : Nat} (hPos : 0 < bytes) (hBytes : bytes + 96 < 2 ^ 63) (v : UInt8) :
    ∃ d address, HasRoom d address bytes ∧ (sizeOfFileHeader : Int) + 8 ≤ address ∧
      d.file.get sizeOfFileHeader 8 = List.replicate 8 v := by
  obtain ⟨blocks, free, hCreated⟩ := @create_mapped .zero 8 (by decide)
  have hAllowed : HeapCall.Allowed (0, .alloc bytes .none) (create .zero 8) := by
    change (64 : Int) + (bytes + 32) < 2 ^ 63
    omega
  obtain ⟨blocks', free', hMapped⟩ := hCreated.heap hAllowed fun bytes' method hCall => by
    cases hCall
    exact hPos
  obtain ⟨a, blocks₀, free₀, hChanges, hEffect⟩ :=
    HeapCall.step_effect (0, .alloc bytes .none) hCreated.holds hAllowed
  generalize (heapCalls.step (0, .alloc bytes .none) (create .zero 8)).1 = reply at hEffect
  generalize (heapCalls.step (0, .alloc bytes .none) (create .zero 8)).2 = d at hMapped hChanges hEffect
  cases hEffect with
  | refused target => cases target
  | allocated new _ =>
    have hRev : d.rev = .zero := hChanges.rev
    have hStart : d.fileHeader.gxdHsFptr = 64 := hChanges.start
    rw [← hChanges.holds.blocks_eq, hMapped.holds.blocks_eq] at new
    have hBounds := hMapped.holds.tiles.bounds new
    rw [hStart] at hBounds
    have hWritten := @Mapped.writeBytes _ _ _ hMapped 56 (List.replicate 8 v)
      (.inr ⟨by rw [hRev]; decide, by rw [hStart, List.length_replicate]; decide⟩)
    refine ⟨d.writeBytes 56 (List.replicate 8 v), a + 32, ⟨blocks', free', _, hWritten, new, ?_, ?_, ?_⟩, ?_, ?_⟩
    · exact BlockHeader.normal_isFree _
    · change a + (d.rev.blockHeaderSize : Int) ≤ a + 32
      rw [hRev]
      exact Int.le_refl _
    · change a + 32 + (bytes : Int) + (d.rev.checksumSize : Int) ≤ a + (bytes + 32 : Nat)
      rw [hRev]
      change a + 32 + (bytes : Int) + 0 ≤ a + (bytes + 32 : Nat)
      omega
    · change (56 : Int) + 8 ≤ a + 32
      omega
    · exact Bytes.get_put_self

theorem HasRoom.first_byte (h : d.HasRoom address (stringsLength (s :: strings)))
    (hTrip : d.RoundTrips position address (s :: strings)) (hLen : 0 < (stringBytes s).length) :
    d.file sizeOfFileHeader = 0 ↔ s.getD .empty = .empty := by
  obtain ⟨hBehind, blocks, free, -, -, hSame⟩ := h.written position
  have hFirst := (List.cons.inj hTrip).1
  rw [h.readString_first, Option.some_inj] at hFirst
  obtain ⟨n, hn⟩ := Nat.exists_eq_succ_of_ne_zero (Nat.ne_of_gt hLen)
  rw [← hFirst, CString.ofBuffer, CString.empty, Subtype.mk_eq_mk, hn, Nat.succ_eq_add_one,
    Bytes.get_succ, hSame _ hBehind, List.takeWhile_cons]
  split <;> simp_all

/-- Strings come back from every file that holds them if there is none, or one that is empty. -/
theorem roundTrips_iff (hLength : stringsLength strings + 96 < 2 ^ 63) :
    (∀ (d : Database) (position address : Int), d.HasRoom address (stringsLength strings) →
      d.RoundTrips position address strings) ↔ strings = [] ∨ strings = [some .empty] := by
  constructor
  · intro hAll
    cases strings with
    | nil => exact .inl rfl
    | cons s rest =>
      right
      have hPos : 0 < stringsLength (s :: rest) := by
        rw [stringsLength_cons]
        omega
      obtain ⟨d, address, hRoom, hBehind, hData⟩ := create_hasRoom hPos hLength 255
      obtain ⟨d₀, address₀, hRoom₀, -, hData₀⟩ := create_hasRoom hPos hLength 0
      have hTrip := hAll d 0 address hRoom
      have hByte : d.file sizeOfFileHeader = 255 := by
        rw [Bytes.get_succ] at hData
        exact (List.cons.inj hData).1
      have hByte₀ : d₀.file sizeOfFileHeader = 0 := by
        rw [Bytes.get_succ] at hData₀
        exact (List.cons.inj hData₀).1
      cases s with
      | none =>
        have hZero := (hRoom.first_byte hTrip (by decide)).mpr rfl
        rw [hByte] at hZero
        cases hZero
      | some s =>
        by_cases hEmpty : s = .empty
        · subst hEmpty
          cases rest with
          | nil => rfl
          | cons t rest =>
            obtain ⟨-, blocks, free, hWritten, -, hSame⟩ := hRoom.written 0
            have hSecond := (List.cons.inj (List.cons.inj hTrip).2).1
            rw [hRoom.readString_first, hWritten.readString_long] at hSecond
            · cases hSecond
            · have hGet : (d.writeStrings 0 address (some .empty :: t :: rest)).1.file.get
                  sizeOfFileHeader 8 = List.replicate 8 255 := by
                rw [← hData]
                exact Bytes.get_congr fun x _ hx => hSame x (by omega)
              have hLimit := hWritten.holds.limit
              change _ < (56 : Int) + 8 + (Bytes.leNat ((d.writeStrings 0 address
                (some .empty :: t :: rest)).1.file.get sizeOfFileHeader 8) : Int)
              rw [hGet]
              change _ < (56 : Int) + 8 + (2 ^ 64 - 1)
              omega
        · have hLen : 0 < (stringBytes (some s)).length := by
            apply List.length_pos_iff.mpr
            exact fun hNil => hEmpty (Subtype.ext hNil)
          exact absurd ((hRoom₀.first_byte (hAll d₀ 0 address₀ hRoom₀) hLen).mp hByte₀) hEmpty
  · rintro (rfl | rfl)
    · intro d position address hRoom
      rfl
    · intro d position address hRoom
      rw [RoundTrips]
      simp only [List.length_cons, List.length_nil, readStrings, hRoom.readString_first]
      rfl

theorem roundTrips_iff_two :
    ¬∀ (d : Database) (position address : Int), d.HasRoom address 19 →
      d.RoundTrips position address [some ⟨[65, 66], by decide⟩, none] := by
  intro hAll
  have hBoth := (@roundTrips_iff [some ⟨[65, 66], by decide⟩, none] (by decide)).mp hAll
  revert hBoth
  decide

/-- An object of a new file with eight bytes of static data: three letters come back as an empty
string. -/
theorem roundTrips_fails :
    (fileCalls.run [(0, .heap (.alloc 11 .none))] (create .zero 8)).2.HasRoom 96 11 ∧
      ¬(fileCalls.run [(0, .heap (.alloc 11 .none))] (create .zero 8)).2.RoundTrips 0 96
        [some ⟨[65, 66, 67], by decide⟩] := by
  constructor
  · obtain ⟨blocks, free, hMapped⟩ := @run_mapped .zero 8 (by decide)
      [(0, .heap (.alloc 11 .none))] (by decide +kernel)
    have hBlocks : blocks = [(64, .normal 43)] := by
      rw [← hMapped.holds.blocks_eq]
      decide +kernel
    rw [hBlocks] at hMapped
    exact ⟨_, free, _, hMapped, List.mem_cons_self, by decide, by decide +kernel, by decide +kernel⟩
  · rw [RoundTrips]
    decide +kernel

end Database

end DataReel
