import DataReel.Database.Frame
import DataReel.Library.Machine

/-! # Opening and closing files

A `gxDatabase` object with its status flags, and the files that it may be opened
on with read and write access. An `Open` that refuses a file leaves the flags and
the headers as far as it came, and the next `Close` goes by them.
-/

namespace DataReel

/-- The bytes of a file; behind its end there are none. -/
@[ext] structure File where
  bytes : Bytes
  size : Nat
  beyond : ∀ x, x < 0 ∨ (size : Int) ≤ x → bytes x = 0

/-- The file that an open database has. -/
def Database.toFile (d : Database) : File where
  bytes x := if 0 ≤ x ∧ x < d.fileSize.toNat then d.file x else 0
  size := d.fileSize.toNat
  beyond x hx := if_neg (by omega)

structure DatabaseObject (ι : Type) where
  /-- `fp`, by the name of the file it was opened on. -/
  fp : Option ι
  isOpen : Bool
  isOk : Bool
  readyForReading : Bool
  readyForWriting : Bool
  rev : Revision
  fileHeader : FileHeader
  fileStats : FileStatsHeader

/-- An object with the files there are. -/
structure Session (ω ι : Type) where
  object : ω
  disk : ι → Option File

/-- An object of the database engine with the files. -/
abbrev EngineSession (ι : Type) := Session (DatabaseObject ι) ι

namespace DatabaseObject

variable {ι : Type} (o : DatabaseObject ι)

def construct : DatabaseObject ι where
  fp := none
  isOpen := false
  isOk := false
  readyForReading := false
  readyForWriting := false
  rev := .E
  fileHeader := ⟨0, 0, 0, 0, (0, 0), 0⟩
  fileStats := .init

/-- `IsOK` and `IsOpen`. -/
def isReady : Bool := o.isOk && o.isOpen

/-- The object as a database with the bytes of a file. -/
def on (file : File) : Database := ⟨file.bytes, file.size, o.rev, o.fileHeader, o.fileStats⟩

/-- The object with the headers of a database. -/
def take (d : Database) : DatabaseObject ι :=
  { o with rev := d.rev, fileHeader := d.fileHeader, fileStats := d.fileStats }

def closed : DatabaseObject ι :=
  { o with fp := none, isOpen := false, isOk := false, readyForReading := false, readyForWriting := false }

def opened (i : ι) : DatabaseObject ι :=
  { o with fp := some i, isOpen := true, isOk := true, readyForReading := true, readyForWriting := true }

end DatabaseObject

/-- The signature but for its last byte, the revision letter. -/
def FileHeader.signed (h : FileHeader) : Bool :=
  h.gxdSig.1 = gxSignature.1 ∧ h.gxdSig.2 % 256 = gxSignature.2

namespace EngineSession

variable {ι : Type} [DecidableEq ι]

/-- Writes through the file pointer of the object. -/
def putFile (s : EngineSession ι) (g : File → File) : EngineSession ι :=
  match s.object.fp with
  | none => s
  | some i => { s with disk := Function.update s.disk i ((s.disk i).map g) }

/-- `WriteFileHdr` on the file the object has. -/
def writeFileHdr (s : EngineSession ι) : EngineSession ι :=
  if s.object.isReady ∧ s.object.readyForWriting then
    s.putFile fun file => (s.object.on file).writeFileHdr.toFile
  else s

/-- `Close`, which the destructor calls as well. -/
def close (s : EngineSession ι) : EngineSession ι :=
  let s' := if s.object.isReady ∧ s.object.readyForWriting then s.writeFileHdr else s
  { s' with object := s'.object.closed }

/-- `Open` once the file pointer is there, with whether it succeeds. -/
def openAt (i : ι) (file : File) (s : EngineSession ι) : Bool × EngineSession ι :=
  let o := s.object.opened i
  let r := (o.on file).readFileHdr
  let o := o.take r.2
  if r.1 = false then (false, { s with object := o })
  else if o.fileHeader.signed = false then (false, { s with object := { o with isOk := false } })
  else if o.fileHeader.gxdEof < file.size then
    let o := { o with fileHeader := { o.fileHeader with gxdEof := file.size } }
    (true, writeFileHdr { s with object := o })
  else (true, { s with object := o })

/-- `Open` for reading and writing. -/
def openFile (i : ι) (s : EngineSession ι) : Bool × EngineSession ι :=
  match s.close.disk i with
  | none => (false, s.close)
  | some file => openAt i file s.close

end EngineSession

inductive ObjectCall (ι : Type)
  | close
  | openFile (i : ι)

/-- The calls that open and close files; the answer is whether there was no error. -/
def objectCalls {ι : Type} [DecidableEq ι] : Machine (ObjectCall ι) Bool (EngineSession ι) where
  step
    | .close, s => (true, s.close)
    | .openFile i, s => s.openFile i

/-- The file that a call opens. -/
def ObjectCall.target {ι : Type} : ObjectCall ι → Option ι
  | .close => none
  | .openFile i => some i

/-- An object is no danger to a file: the file stays as it is while the object opens and closes
others, and as long as a new object would open what it is given, the object answers like that one. -/
structure Harmless {γ ω ι : Type} (M : Machine γ Bool (Session ω ι)) (target : γ → Option ι) (new : ω)
    (i : ι) (file : File) (s : Session ω ι) : Prop where
  unchanged : ∀ calls : List γ, (∀ c ∈ calls, target c ≠ some i) →
    (M.run calls s).2.disk i = some file
  asNew : ∀ (disk : ι → Option File) (calls : List γ) (c : γ), disk i = some file →
    M.Along (fun c s => (M.step c s).1 = true) calls ⟨new, disk⟩ → (target c).isSome →
    (M.run (calls ++ [c]) ⟨s.object, disk⟩).1 = (M.run (calls ++ [c]) ⟨new, disk⟩).1

/-! ## What `Open` accepts -/

namespace File

variable (file : File)

def header : FileHeader := FileHeader.ofWords (file.bytes.readWords 0 7)

/-- `ReadFileHdr` meets the end of the file. -/
def shortHeader : Bool :=
  file.size < sizeOfFileHeader ∨
    ((Database.revOfSig file.header.gxdSig).hasStats ∧
      (file.size : Int) < fileStatsAddress + sizeOfFileStatsHeader)

/-- The file has a header that `Open` accepts. -/
def accepted : Bool := !file.shortHeader && file.header.signed

/-- The header in memory after `Open`, which moves `gxd_eof` up to the end of the file. -/
def openHeader : FileHeader :=
  if file.header.gxdEof < file.size then { file.header with gxdEof := file.size } else file.header

end File

/-- The object that has read the headers of a file. -/
def DatabaseObject.loaded {ι : Type} (o : DatabaseObject ι) (file : File) : DatabaseObject ι :=
  { o with
    fileHeader := file.header
    rev := Database.revOfSig file.header.gxdSig
    fileStats := if (Database.revOfSig file.header.gxdSig).hasStats then
      FileStatsHeader.ofWords (file.bytes.readWords fileStatsAddress 3) else o.fileStats }

/-- The object after a successful `Open`. -/
def DatabaseObject.reopened {ι : Type} (o : DatabaseObject ι) (i : ι) (file : File) :
    DatabaseObject ι := { (o.opened i).loaded file with fileHeader := file.openHeader }

theorem Database.toFile_fileSize {d : Database} (hSize : 0 ≤ d.fileSize) :
    (d.toFile.size : Int) = d.fileSize := Int.toNat_of_nonneg hSize

theorem FileHeader.words_ofWords {l : List Nat} (hLength : l.length = 7) (hl : ∀ w ∈ l, w < 2 ^ 64) :
    (ofWords l).words = l := by
  match l, hLength with
  | [fs, eof, hs, hb, sig, sig', ver], _ =>
    simp only [List.forall_mem_cons] at hl
    obtain ⟨hfs, heof, hhs, hhb, -, -, hver, -⟩ := hl
    rw [ofWords, words, wordOfInt_intOfWord hfs, wordOfInt_intOfWord heof, wordOfInt_intOfWord hhs,
      wordOfInt_intOfWord hhb, wordOfInt_intOfWord hver]

theorem FileStatsHeader.words_ofWords {l : List Nat} (hLength : l.length = 3)
    (hl : ∀ w ∈ l, w < 2 ^ 64) : (ofWords l).words = l := by
  match l, hLength with
  | [blocks, deleted, removed], _ =>
    simp only [List.forall_mem_cons] at hl
    obtain ⟨hBlocks, hDeleted, hRemoved, -⟩ := hl
    rw [ofWords, words, wordOfInt_intOfWord hBlocks, wordOfInt_intOfWord hDeleted,
      wordOfInt_intOfWord hRemoved]

/-- Words that are written back where they were read leave a file as it is. -/
theorem File.rewrite (file : File) {d : Database} {a : Int} {n : Nat} (hFile : d.file = file.bytes)
    (hSize : d.fileSize = file.size) (hEnd : a + 8 * n ≤ file.size) :
    (d.writeWords a (file.bytes.readWords a n)).file = file.bytes ∧
      (d.writeWords a (file.bytes.readWords a n)).fileSize = file.size := by
  refine ⟨?_, ?_⟩
  · change d.file.writeWords a _ = _
    rw [hFile]
    exact Bytes.writeWords_readWords
  · change max d.fileSize (a + 8 * (file.bytes.readWords a n).length) = _
    rw [Bytes.readWords_length, hSize]
    exact max_eq_left hEnd

theorem File.toFile_eq {file : File} {d : Database} (hFile : d.file = file.bytes)
    (hSize : d.fileSize = file.size) : d.toFile = file := by
  have hNat : d.fileSize.toNat = file.size := by omega
  refine File.ext (funext fun x => ?_) hNat
  change (if 0 ≤ x ∧ x < d.fileSize.toNat then d.file x else 0) = file.bytes x
  rw [hFile, hNat]
  split
  · rfl
  · rw [file.beyond x (by omega)]

namespace EngineSession

variable {ι : Type} {s : EngineSession ι} {i j : ι} {file file' : File} {o : DatabaseObject ι}

theorem readOver_on (o : DatabaseObject ι) (hSize : sizeOfFileHeader ≤ file.size) :
    FileHeader.ofWords ((o.on file).readOver 0 o.fileHeader.words) = file.header := by
  refine congrArg FileHeader.ofWords (Database.readOver_eq ?_)
  change (0 : Int) + 8 * 7 ≤ file.size
  rw [sizeOfFileHeader] at hSize
  omega

theorem shortHeader_eq_false :
    file.shortHeader = false ↔ sizeOfFileHeader ≤ file.size ∧
      ((Database.revOfSig file.header.gxdSig).hasStats = true →
        fileStatsAddress + sizeOfFileStatsHeader ≤ file.size) := by
  rw [File.shortHeader, decide_eq_false_iff_not, not_or, not_and, Nat.not_lt, Int.not_lt]

theorem readFileHdr_on (o : DatabaseObject ι) (hShort : file.shortHeader = false) :
    (o.on file).readFileHdr.1 = true ∧ o.take (o.on file).readFileHdr.2 = o.loaded file := by
  obtain ⟨hSize, hStats⟩ := shortHeader_eq_false.mp hShort
  have hHeader := readOver_on o hSize
  have hNot : ¬ ((o.on file).fileSize < sizeOfFileHeader) := by
    change ¬ ((file.size : Int) < sizeOfFileHeader)
    omega
  simp only [Database.readFileHdr, DatabaseObject.loaded]
  rw [if_neg hNot, show (o.on file).fileHeader = o.fileHeader from rfl, hHeader]
  by_cases hHas : (Database.revOfSig file.header.gxdSig).hasStats = true
  · rw [if_pos hHas, if_pos hHas]
    have hEnd := hStats hHas
    have hWords : (o.on file).readOver fileStatsAddress o.fileStats.words =
        file.bytes.readWords fileStatsAddress 3 := Database.readOver_eq (by
      change fileStatsAddress + 8 * 3 ≤ file.size
      rw [sizeOfFileStatsHeader] at hEnd
      omega)
    rw [show (o.on file).fileStats = o.fileStats from rfl, hWords]
    exact ⟨decide_eq_true hEnd, rfl⟩
  · rw [if_neg hHas, if_neg hHas]
    exact ⟨rfl, rfl⟩

theorem readFileHdr_short (o : DatabaseObject ι) (hShort : file.shortHeader = true) :
    (o.on file).readFileHdr.1 = false := by
  rw [File.shortHeader, decide_eq_true_eq] at hShort
  by_cases hSize : file.size < sizeOfFileHeader
  · have hLess : (o.on file).fileSize < sizeOfFileHeader := by
      change (file.size : Int) < sizeOfFileHeader
      omega
    rw [Database.readFileHdr, if_pos hLess]
  · obtain ⟨hHas, hEnd⟩ := hShort.resolve_left hSize
    have hNot : ¬ ((o.on file).fileSize < sizeOfFileHeader) := by
      change ¬ ((file.size : Int) < sizeOfFileHeader)
      omega
    simp only [Database.readFileHdr]
    rw [if_neg hNot, show (o.on file).fileHeader = o.fileHeader from rfl, readOver_on o (by omega),
      if_pos hHas]
    exact decide_eq_false (Int.not_le.mpr hEnd)

theorem writeFileHdr_size (d : Database) : d.fileSize ≤ d.writeFileHdr.fileSize ∧
    (sizeOfFileHeader : Int) ≤ d.writeFileHdr.fileSize ∧
    (d.rev.hasStats = true → fileStatsAddress + sizeOfFileStatsHeader ≤ d.writeFileHdr.fileSize) := by
  have hFirst : (d.writeWords 0 d.fileHeader.words).fileSize = max d.fileSize (0 + 8 * 7) := rfl
  rw [sizeOfFileHeader, sizeOfFileStatsHeader, Database.writeFileHdr, Database.writeFileStatsHdr]
  split
  · change _ ≤ max _ (fileStatsAddress + 8 * 3) ∧ _ ≤ max _ (fileStatsAddress + 8 * 3) ∧
      (_ → _ ≤ max _ (fileStatsAddress + 8 * 3))
    omega
  · rename_i hNone
    refine ⟨by omega, by omega, fun hHas => absurd hHas hNone⟩

theorem size_lt_of_short (o : DatabaseObject ι) (hShort : file.shortHeader = true) (file' : File) :
    file.size < ((o.take (o.on file).readFileHdr.2).on file').writeFileHdr.toFile.size := by
  obtain ⟨hKept, hHeader, hStats⟩ := writeFileHdr_size ((o.take (o.on file).readFileHdr.2).on file')
  have hPos : (0 : Int) ≤ ((o.take (o.on file).readFileHdr.2).on file').writeFileHdr.fileSize :=
    Int.le_trans (Int.natCast_nonneg _) hHeader
  rw [File.shortHeader, decide_eq_true_eq] at hShort
  rw [← Int.ofNat_lt, Database.toFile_fileSize hPos]
  by_cases hSize : file.size < sizeOfFileHeader
  · omega
  · obtain ⟨hHas, hEnd⟩ := hShort.resolve_left hSize
    refine Int.lt_of_lt_of_le hEnd (hStats ?_)
    have hNot : ¬ ((o.on file).fileSize < sizeOfFileHeader) := by
      change ¬ ((file.size : Int) < sizeOfFileHeader)
      omega
    change (o.on file).readFileHdr.2.rev.hasStats = true
    simp only [Database.readFileHdr]
    rw [if_neg hNot, show (o.on file).fileHeader = o.fileHeader from rfl, readOver_on o (by omega),
      if_pos hHas]
    exact hHas

/-- Headers that are written back where they were read leave the file as it is. -/
theorem writeFileHdr_loaded (o : DatabaseObject ι) (hShort : file.shortHeader = false) :
    ((o.loaded file).on file).writeFileHdr.toFile = file := by
  obtain ⟨hSize, hStats⟩ := shortHeader_eq_false.mp hShort
  have hHeaderWords : file.header.words = file.bytes.readWords 0 7 :=
    FileHeader.words_ofWords Bytes.readWords_length Bytes.readWords_lt
  have hHeader := file.rewrite (d := (o.loaded file).on file) (a := 0) (n := 7) rfl rfl (by
    rw [sizeOfFileHeader] at hSize
    omega)
  have hWritten : ((o.loaded file).on file).writeFileHdr.file = file.bytes ∧
      ((o.loaded file).on file).writeFileHdr.fileSize = file.size := by
    rw [Database.writeFileHdr, Database.writeFileStatsHdr,
      show ((o.loaded file).on file).fileHeader.words = _ from hHeaderWords]
    split
    · rename_i hHas
      have hHas : (Database.revOfSig file.header.gxdSig).hasStats = true := hHas
      have hStatsEq : (o.loaded file).fileStats =
          FileStatsHeader.ofWords (file.bytes.readWords fileStatsAddress 3) := if_pos hHas
      have hStatsWords : (o.loaded file).fileStats.words = file.bytes.readWords fileStatsAddress 3 := by
        rw [hStatsEq]
        exact FileStatsHeader.words_ofWords Bytes.readWords_length Bytes.readWords_lt
      have hEnd := hStats hHas
      rw [sizeOfFileStatsHeader] at hEnd
      rw [Database.writeWords_fileStats,
        show ((o.loaded file).on file).fileStats.words = _ from hStatsWords]
      exact file.rewrite hHeader.1 hHeader.2 hEnd
    · exact hHeader
  exact File.toFile_eq hWritten.1 hWritten.2

/-- Two objects write the same headers to the same file. -/
structure WritesAlike (o o' : DatabaseObject ι) : Prop where
  fp : o.fp = o'.fp
  isReady : o.isReady = o'.isReady
  readyForWriting : o.readyForWriting = o'.readyForWriting
  rev : o.rev = o'.rev
  fileHeader : o.fileHeader = o'.fileHeader
  fileStats : o.rev.hasStats = true → o.fileStats = o'.fileStats

theorem WritesAlike.writeFileHdr {o' : DatabaseObject ι} (h : WritesAlike o o') (file : File) :
    (o.on file).writeFileHdr.toFile = (o'.on file).writeFileHdr.toFile := by
  have hBoth : (o.on file).writeFileHdr.file = (o'.on file).writeFileHdr.file ∧
      (o.on file).writeFileHdr.fileSize = (o'.on file).writeFileHdr.fileSize := by
    rw [Database.writeFileHdr, Database.writeFileHdr, Database.writeFileStatsHdr,
      Database.writeFileStatsHdr]
    change (if o.rev.hasStats then Database.writeWords _ _ o.fileStats.words else _).file =
      (if o'.rev.hasStats then Database.writeWords _ _ o'.fileStats.words else _).file ∧
      (if o.rev.hasStats then Database.writeWords _ _ o.fileStats.words else _).fileSize =
      (if o'.rev.hasStats then Database.writeWords _ _ o'.fileStats.words else _).fileSize
    rw [← h.rev, show (o.on file).fileHeader = (o'.on file).fileHeader from h.fileHeader]
    split
    · rename_i hHas
      rw [h.fileStats hHas]
      exact ⟨rfl, rfl⟩
    · exact ⟨rfl, rfl⟩
  rw [Database.toFile, Database.toFile]
  simp only [hBoth.1, hBoth.2]

section Open

variable [DecidableEq ι]

theorem openAt_short (hShort : file.shortHeader = true) : (openAt i file s).1 = false ∧
    ∃ o : DatabaseObject ι, (openAt i file s).2 = { s with object := o } ∧ o.fp = some i ∧
      o.isReady = true ∧ o.readyForWriting = true ∧
      ∀ file' : File, file.size < (o.on file').writeFileHdr.toFile.size := by
  rw [openAt]
  dsimp only
  rw [if_pos (readFileHdr_short _ hShort)]
  exact ⟨rfl, _, rfl, rfl, rfl, rfl, size_lt_of_short _ hShort⟩

theorem openAt_unsigned (hShort : file.shortHeader = false) (hSigned : file.header.signed = false) :
    openAt i file s =
      (false, { s with object := { (s.object.opened i).loaded file with isOk := false } }) := by
  obtain ⟨hRead, hLoaded⟩ := readFileHdr_on (s.object.opened i) hShort
  rw [openAt]
  dsimp only
  have hHeader : ((s.object.opened i).loaded file).fileHeader = file.header := rfl
  rw [hLoaded, hHeader, if_neg (by simp [hRead]), if_pos hSigned]

theorem openAt_signed (hShort : file.shortHeader = false) (hSigned : file.header.signed = true) :
    openAt i file s = (true,
      if file.header.gxdEof < file.size then
        EngineSession.writeFileHdr { s with object := s.object.reopened i file }
      else { s with object := s.object.reopened i file }) := by
  obtain ⟨hRead, hLoaded⟩ := readFileHdr_on (s.object.opened i) hShort
  rw [openAt]
  dsimp only
  have hHeader : ((s.object.opened i).loaded file).fileHeader = file.header := rfl
  rw [hLoaded, hHeader, if_neg (by simp [hRead]), if_neg (by simp [hSigned]),
    DatabaseObject.reopened, File.openHeader]
  split
  · rfl
  · rfl

theorem openAt_accepted (i : ι) (file : File) (s : EngineSession ι) :
    (openAt i file s).1 = file.accepted := by
  rw [File.accepted]
  cases hShort : file.shortHeader with
  | true => exact (openAt_short hShort).1
  | false =>
    cases hSigned : file.header.signed with
    | false =>
      rw [openAt_unsigned hShort hSigned]
      rfl
    | true =>
      rw [openAt_signed hShort hSigned]
      rfl

theorem openFile_accepted (i : ι) (s : EngineSession ι) :
    (s.openFile i).1 = ((s.close.disk i).map File.accepted).getD false := by
  rw [openFile]
  cases hFile : s.close.disk i with
  | none => rfl
  | some file => exact openAt_accepted i file _

/-! ## The files that a session leaves alone -/

theorem putFile_object (g : File → File) : (s.putFile g).object = s.object := by
  rw [putFile]
  split
  · rfl
  · rfl

theorem putFile_apart {g : File → File} (hFp : s.object.fp ≠ some i) :
    (s.putFile g).disk i = s.disk i := by
  rw [putFile]
  split
  · rfl
  · rename_i j hj
    refine Function.update_of_ne ?_ _ _
    rintro rfl
    exact hFp hj

theorem putFile_of_fp {g : File → File} (hFp : s.object.fp = some i) :
    (s.putFile g).disk = Function.update s.disk i ((s.disk i).map g) := by
  rw [putFile, hFp]

theorem writeFileHdr_object : s.writeFileHdr.object = s.object := by
  rw [writeFileHdr]
  split
  · exact putFile_object _
  · rfl

theorem writeFileHdr_apart (hApart : s.object.isReady = true → s.object.fp ≠ some i) :
    s.writeFileHdr.disk i = s.disk i := by
  rw [writeFileHdr]
  split
  · rename_i hReady
    exact putFile_apart (hApart hReady.1)
  · rfl

theorem close_disk (s : EngineSession ι) : s.close.disk = s.writeFileHdr.disk := by
  rw [close]
  split
  · rfl
  · rename_i hReady
    rw [writeFileHdr, if_neg hReady]

theorem close_apart (hApart : s.object.isReady = true → s.object.fp ≠ some i) :
    s.close.disk i = s.disk i := by
  rw [close_disk]
  exact writeFileHdr_apart hApart

theorem close_of_not_ready (hReady : s.object.isReady = false) :
    s.close = ⟨s.object.closed, s.disk⟩ := by
  rw [close, if_neg (by simp [hReady])]

theorem writeFileHdr_of_ready (hFp : s.object.fp = some i) (hReady : s.object.isReady = true)
    (hWriting : s.object.readyForWriting = true) (hFile : s.disk i = some file') :
    s.writeFileHdr = ⟨s.object,
      Function.update s.disk i (some (s.object.on file').writeFileHdr.toFile)⟩ := by
  rw [writeFileHdr, if_pos ⟨hReady, hWriting⟩, putFile, hFp]
  dsimp only
  rw [hFile]
  rfl

theorem close_of_ready (hFp : s.object.fp = some i) (hReady : s.object.isReady = true)
    (hWriting : s.object.readyForWriting = true) (hFile : s.disk i = some file') :
    s.close.disk = Function.update s.disk i (some (s.object.on file').writeFileHdr.toFile) := by
  rw [close_disk, writeFileHdr_of_ready hFp hReady hWriting hFile]

theorem openFile_apart (hApart : s.object.isReady = true → s.object.fp ≠ some i) (hNe : j ≠ i) :
    (s.openFile j).2.disk i = s.disk i ∧
      ((s.openFile j).2.object.isReady = true → (s.openFile j).2.object.fp ≠ some i) := by
  have hj : some j ≠ some i := fun h => hNe (Option.some.inj h)
  rw [openFile]
  cases hFile : s.close.disk j with
  | none => exact ⟨close_apart hApart, nofun⟩
  | some file =>
    dsimp only
    cases hShort : file.shortHeader with
    | true =>
      obtain ⟨-, o, hState, hFp, -⟩ := openAt_short (i := j) (s := s.close) hShort
      rw [hState]
      exact ⟨close_apart hApart, fun _ => hFp ▸ hj⟩
    | false =>
      cases hSigned : file.header.signed with
      | false =>
        rw [openAt_unsigned hShort hSigned]
        exact ⟨close_apart hApart, nofun⟩
      | true =>
        rw [openAt_signed hShort hSigned]
        dsimp only
        split
        · rw [writeFileHdr_apart fun _ => hj, writeFileHdr_object]
          exact ⟨close_apart hApart, fun _ => hj⟩
        · exact ⟨close_apart hApart, fun _ => hj⟩

/-! ## Objects that have been used before -/

theorem WritesAlike.close {s' : EngineSession ι} (h : WritesAlike s.object s'.object)
    (hDisk : s.disk = s'.disk) : s.close.disk = s'.close.disk := by
  rw [close_disk, close_disk, EngineSession.writeFileHdr, EngineSession.writeFileHdr, ← h.isReady,
    ← h.readyForWriting]
  split
  · rw [putFile, putFile, ← h.fp]
    cases s.object.fp with
    | none => exact hDisk
    | some i =>
      have hWrites : (fun file => (s.object.on file).writeFileHdr.toFile) =
          fun file => (s'.object.on file).writeFileHdr.toFile := funext h.writeFileHdr
      dsimp only
      rw [hDisk, hWrites]
  · exact hDisk

omit [DecidableEq ι] in
theorem reopened_alike (o o' : DatabaseObject ι) (i : ι) (file : File) :
    WritesAlike (o.reopened i file) (o'.reopened i file) := by
  refine ⟨rfl, rfl, rfl, rfl, rfl, fun hHas => ?_⟩
  have hHas : (Database.revOfSig file.header.gxdSig).hasStats = true := hHas
  change (if _ then _ else o.fileStats) = (if _ then _ else o'.fileStats)
  rw [if_pos hHas, if_pos hHas]

theorem openAt_alike {s' : EngineSession ι} (hAccepted : file.accepted = true)
    (hDisk : s.disk = s'.disk) :
    (openAt i file s).2.close.disk = (openAt i file s').2.close.disk := by
  rw [File.accepted, Bool.and_eq_true, Bool.not_eq_true'] at hAccepted
  rw [openAt_signed hAccepted.1 hAccepted.2, openAt_signed hAccepted.1 hAccepted.2]
  have hAlike := reopened_alike s.object s'.object i file
  dsimp only
  split
  · refine WritesAlike.close ?_ ?_
    · rw [writeFileHdr_object, writeFileHdr_object]
      exact hAlike
    · rw [← close_disk, ← close_disk]
      exact hAlike.close hDisk
  · exact hAlike.close hDisk

/-- Objects whose files are the same once they are closed answer alike as long as they open what they
are given. -/
theorem alike_simulates : (objectCalls (ι := ι)).Simulates objectCalls
    (fun c s => (objectCalls.step c s).1 = true) fun s s' => s.close.disk = s'.close.disk := by
  constructor
  · intro c s s' hClosed _
    cases c with
    | close => rfl
    | openFile i =>
      change (s.openFile i).1 = (s'.openFile i).1
      rw [openFile_accepted, openFile_accepted, hClosed]
  · intro c s s' hClosed hSuccess
    cases c with
    | close =>
      change s.close.close.disk = s'.close.close.disk
      rw [close_of_not_ready (s := s.close) rfl, close_of_not_ready (s := s'.close) rfl]
      exact hClosed
    | openFile i =>
      change (s.openFile i).1 = true at hSuccess
      change (s.openFile i).2.close.disk = (s'.openFile i).2.close.disk
      rw [openFile_accepted] at hSuccess
      rw [openFile, openFile, ← hClosed]
      cases hFile : s.close.disk i with
      | none => simp [hFile] at hSuccess
      | some file =>
        rw [hFile] at hSuccess
        exact openAt_alike hSuccess hClosed

theorem harmless_of_not_ready (hFile : s.disk i = some file) (hReady : s.object.isReady = false) :
    Harmless objectCalls ObjectCall.target .construct i file s := by
  constructor
  · intro calls hCalls
    have hApart : s.object.isReady = true → s.object.fp ≠ some i := fun h => by
      rw [hReady] at h
      cases h
    have hRun := Machine.run_invariant (M := objectCalls) (P := fun c _ => c.target ≠ some i)
      (I := fun s => s.disk i = some file ∧ (s.object.isReady = true → s.object.fp ≠ some i))
      ?_ ⟨hFile, hApart⟩ (Machine.along_of_forall hCalls s)
    · exact hRun.1
    · rintro c s ⟨hFile, hApart⟩ hNe
      cases c with
      | close => exact ⟨(close_apart hApart).trans hFile, nofun⟩
      | openFile j =>
        obtain ⟨hSame, hApart'⟩ := openFile_apart hApart fun h => hNe (congrArg some h)
        exact ⟨hSame.trans hFile, hApart'⟩
  · intro disk calls c _ hCalls _
    have hUsed : EngineSession.close ⟨s.object, disk⟩ = ⟨s.object.closed, disk⟩ :=
      close_of_not_ready hReady
    have hNew : EngineSession.close (⟨.construct, disk⟩ : EngineSession ι) =
      ⟨DatabaseObject.closed .construct, disk⟩ := close_of_not_ready rfl
    refine (alike_simulates.run_last (by rw [hUsed, hNew]) hCalls fun t t' h => ?_).symm
    cases c with
    | close => rfl
    | openFile j =>
      change (t.openFile j).1 = (t'.openFile j).1
      rw [openFile_accepted, openFile_accepted, h]

/-- A file that `Open` refuses, with what the object had open closed first, is safe from the object
unless its headers are cut short. -/
theorem refused_harmless_engine_iff (hFile : s.close.disk i = some file)
    (hRefused : (s.openFile i).1 = false) :
    Harmless objectCalls ObjectCall.target .construct i file (s.openFile i).2 ↔
      file.shortHeader = false := by
  rw [openFile, hFile] at hRefused ⊢
  dsimp only at hRefused ⊢
  constructor
  · intro h
    cases hShort : file.shortHeader with
    | false => rfl
    | true =>
      obtain ⟨-, o, hState, hFp, hReady, hWriting, hSize⟩ := openAt_short (i := i) (s := s.close) hShort
      have hClose := h.unchanged [.close] (by simp [ObjectCall.target])
      rw [hState] at hClose
      change (EngineSession.close ⟨o, s.close.disk⟩).disk i = some file at hClose
      rw [close_of_ready (s := ⟨o, s.close.disk⟩) hFp hReady hWriting hFile, Function.update_self]
        at hClose
      have hLess := hSize file
      rw [Option.some.inj hClose] at hLess
      exact absurd hLess (Nat.lt_irrefl _)
  · intro hShort
    rw [openAt_accepted, File.accepted, hShort, Bool.not_false, Bool.true_and] at hRefused
    rw [openAt_unsigned hShort hRefused]
    exact harmless_of_not_ready hFile rfl

end Open

end EngineSession

end DataReel
