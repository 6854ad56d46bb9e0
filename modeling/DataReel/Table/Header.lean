import DataReel.Database.Buffers

/-! # Table headers

The header of a table in the static area of its data file: the name and the
definitions, the fields and a space for the application. Writing and reading go
over the members one after another, a field by the size of its structure with
padding; the size that is reserved and the place of the application space are
sums of member sizes.
-/

namespace DataReel

/-- `tableFIELD_NAME_LEN`, `tableNAME_LEN`, `tableDEF_LEN` and the other limits. -/
def tableFieldNameLen : Nat := 255

def tableNameLen : Nat := 255

def tableDefLen : Nat := 2048

def tableApplicationSpace : Nat := 64 * 255

def tableMinFields : Nat := 1

def tableMaxFields : Nat := 255

/-! ## Sizes -/

/-- `sizeof(gxrdTableHeaderField)`: two bytes, six of padding, two words, the name and a byte of
padding. -/
def sizeOfTableHeaderField : Nat := 280

def tableHeaderFieldSizeOf : Nat := 1 + 1 + 8 + 8 + tableFieldNameLen

def rdbmsHeaderSizeOf : Nat := 8 + 8

/-- `gxrdTableHeader::SizeOf` of a header with `n` fields. -/
def tableHeaderSizeOf (n : Nat) : Nat :=
  tableNameLen + tableDefLen + tableDefLen + tableDefLen + 8 + n * tableHeaderFieldSizeOf +
    tableApplicationSpace

/-- `gxRDBMS::HeaderSize`, the size of the static area. -/
def tableStaticSize (n : Nat) : Nat := tableHeaderSizeOf n + rdbmsHeaderSizeOf

/-! ## The header -/

/-- `gxrdTableHeader`; a field is the bytes of its structure. -/
structure TableHeader where
  tableName : Buffer tableNameLen
  keyDef : Buffer tableDefLen
  formDef : Buffer tableDefLen
  fkeyDef : Buffer tableDefLen
  fields : List (Buffer sizeOfTableHeaderField)
  appSpace : Buffer tableApplicationSpace
  fields_le : fields.length ≤ tableMaxFields

/-- `gxRDBMSHeader`: the first bytes of the file ID, and all of it with the version. -/
def rdbmsFileId : List UInt8 := "GXRDBMS".toList.map fun c => UInt8.ofNat c.toNat

def rdbmsHeader : List UInt8 := rdbmsFileId ++ [0] ++ Bytes.leBytes 8 1027

namespace Database

variable (d : Database)

/-- Reads structures one after another. -/
def readFields : Int → (n : Nat) → Option { l : List (Buffer sizeOfTableHeaderField) // l.length = n }
  | _, 0 => some ⟨[], rfl⟩
  | position, n + 1 => do
    let field ← d.readBytes position sizeOfTableHeaderField
    let fields ← readFields (position + sizeOfTableHeaderField) n
    return ⟨field :: fields.1, congrArg (· + 1) fields.2⟩

def writeTableHeader (h : TableHeader) : Database :=
  d.writeBuffers d.rev.fileHeaderSize
    ([rdbmsHeader, h.tableName.1, h.keyDef.1, h.formDef.1, h.fkeyDef.1, Bytes.leBytes 8 h.fields.length] ++
      h.fields.map Subtype.val ++ [h.appSpace.1])

/-- What `ReadTableHeader` reads behind the number of fields. -/
def readTableFields (tableName : Buffer tableNameLen) (keyDef formDef fkeyDef : Buffer tableDefLen)
    (position : Int) (n : Nat) (hn : n ≤ tableMaxFields) : Option TableHeader := do
  let fields ← d.readFields position n
  let appSpace ← d.readBytes (position + n * sizeOfTableHeaderField) tableApplicationSpace
  return ⟨tableName, keyDef, formDef, fkeyDef, fields.1, appSpace, fields.2.trans_le hn⟩

def readTableHeader (testDb : Bool) : Option TableHeader := do
  let d := if testDb then d.testFileHeader else d
  let position : Int := d.rev.fileHeaderSize
  let fileId ← d.readBytes position rdbmsHeaderSizeOf
  if fileId.1.take rdbmsFileId.length ≠ rdbmsFileId then none else
  let position := position + rdbmsHeaderSizeOf
  let tableName ← d.readBytes position tableNameLen
  let position := position + tableNameLen
  let keyDef ← d.readBytes position tableDefLen
  let position := position + tableDefLen
  let formDef ← d.readBytes position tableDefLen
  let position := position + tableDefLen
  let fkeyDef ← d.readBytes position tableDefLen
  let position := position + tableDefLen
  let word ← d.readBytes position 8
  let num := intOfWord (Bytes.leNat word.1)
  if hNum : num < tableMinFields ∨ tableMaxFields < num then none else
  d.readTableFields tableName keyDef formDef fkeyDef (position + 8) num.toNat (by omega)

/-- Where `WriteAppSpace` and `ReadAppSpace` put the application space. -/
def appSpaceOffset (h : TableHeader) : Int :=
  d.rev.fileHeaderSize + rdbmsHeaderSizeOf + tableNameLen + tableDefLen + tableDefLen + tableDefLen + 8 +
    h.fields.length * tableHeaderFieldSizeOf

/-- `gxRDBMS::WriteAppSpace`, with the header in memory. `none` where it fails. -/
def writeAppSpace (h : TableHeader) (buf : List UInt8) : Option (Database × TableHeader) :=
  if hLength : tableApplicationSpace < buf.length then none
  else if h.fields.length = 0 then none
  else
    some (d.writeBytes (d.appSpaceOffset h) buf,
      { h with
        appSpace := ⟨buf ++ h.appSpace.1.drop buf.length, by
          rw [List.length_append, List.length_drop, h.appSpace.2]
          omega⟩ })

def readAppSpace (h : TableHeader) (bytes : Nat) (testDb : Bool) : Option (List UInt8) :=
  let d := if testDb then d.testFileHeader else d
  if tableApplicationSpace < bytes then none
  else if h.fields.length = 0 then none
  else (d.readBytes (d.appSpaceOffset h) bytes).map Subtype.val

end Database

/-! ## The size of a header -/

namespace TableHeader

variable (h : TableHeader) {n : Nat}

def fieldBytes : List UInt8 := (h.fields.map Subtype.val).flatten

/-- The bytes of the members before the fields. -/
def front : List UInt8 :=
  rdbmsHeader ++ (h.tableName.1 ++ (h.keyDef.1 ++ (h.formDef.1 ++ (h.fkeyDef.1 ++
    Bytes.leBytes 8 h.fields.length))))

/-- All that is written of a header. -/
def image : List UInt8 := h.front ++ (h.fieldBytes ++ h.appSpace.1)

theorem front_length : h.front.length = 6423 := by
  have hHeader : rdbmsHeader.length = 16 := by decide
  simp only [front, List.length_append, h.tableName.2, h.keyDef.2, h.formDef.2, h.fkeyDef.2,
    Bytes.leBytes_length, hHeader, tableNameLen, tableDefLen]

theorem flatten_length (l : List (Buffer n)) : (l.map Subtype.val).flatten.length = l.length * n := by
  induction l with
  | nil => simp
  | cons f fs ih =>
    rw [List.map_cons, List.flatten_cons, List.length_append, ih, f.2, List.length_cons, Nat.succ_mul,
      Nat.add_comm]

theorem flatten_inj {l l' : List (Buffer n)} (hLength : l.length = l'.length) :
    (l.map Subtype.val).flatten = (l'.map Subtype.val).flatten ↔ l = l' := by
  constructor
  · intro hSame
    induction l generalizing l' with
    | nil => exact (List.length_eq_zero_iff.mp hLength.symm).symm
    | cons f fs ih =>
      cases l' with
      | nil => cases hLength
      | cons g gs =>
        obtain ⟨hFirst, hRest⟩ := List.append_inj hSame (f.2.trans g.2.symm)
        rw [Subtype.ext hFirst, ih (Nat.succ.inj hLength) hRest]
  · rintro rfl
    rfl

theorem exists_flatten {k : Nat} {l : List UInt8} (hLength : l.length = k * n) :
    ∃ bs : List (Buffer n), bs.length = k ∧ (bs.map Subtype.val).flatten = l := by
  induction k generalizing l with
  | zero =>
    rw [Nat.zero_mul] at hLength
    exact ⟨[], rfl, (List.length_eq_zero_iff.mp hLength).symm⟩
  | succ k ih =>
    rw [Nat.succ_mul] at hLength
    obtain ⟨bs, hCount, hRest⟩ := ih (l := l.drop n) (by
      rw [List.length_drop]
      omega)
    refine ⟨⟨l.take n, ?_⟩ :: bs, congrArg (· + 1) hCount, ?_⟩
    · rw [List.length_take]
      omega
    · rw [List.map_cons, List.flatten_cons, hRest, List.take_append_drop]

theorem fieldBytes_length : h.fieldBytes.length = h.fields.length * sizeOfTableHeaderField := by
  rw [fieldBytes, flatten_length]

/-- The header takes seven bytes more for each field than are reserved. -/
theorem image_length : h.image.length = tableStaticSize h.fields.length + 7 * h.fields.length := by
  rw [image, List.length_append, List.length_append, h.front_length, h.fieldBytes_length, h.appSpace.2]
  simp only [tableStaticSize, tableHeaderSizeOf, tableHeaderFieldSizeOf, rdbmsHeaderSizeOf,
    sizeOfTableHeaderField, tableNameLen, tableDefLen, tableFieldNameLen]
  omega

end TableHeader

namespace Database

variable {d : Database} {h : TableHeader} {a position : Int} {n : Nat}

theorem writeTableHeader_file :
    (d.writeTableHeader h).file = d.file.put d.rev.fileHeaderSize h.image := by
  rw [writeTableHeader, writeBuffers_file]
  congr 1
  simp [TableHeader.image, TableHeader.front, TableHeader.fieldBytes]

/-- Behind the static area there are the last bytes of the application space. -/
theorem writeTableHeader_behind {i : Nat} (hi : i < 7 * h.fields.length) :
    (d.writeTableHeader h).file (d.rev.fileHeaderSize + tableStaticSize h.fields.length + i) =
      h.appSpace.1.getD (tableApplicationSpace - 7 * h.fields.length + i) 0 := by
  have hLength := h.image_length
  have hFields := h.fields_le
  have hBefore : (h.front ++ h.fieldBytes).length = 6423 + h.fields.length * 280 := by
    rw [List.length_append, h.front_length, h.fieldBytes_length]
    rfl
  have hSize : tableStaticSize h.fields.length = 6423 + h.fields.length * 273 + 16320 := by
    simp only [tableStaticSize, tableHeaderSizeOf, tableHeaderFieldSizeOf, rdbmsHeaderSizeOf,
      tableNameLen, tableDefLen, tableFieldNameLen, tableApplicationSpace]
    omega
  simp only [tableMaxFields] at hFields
  have hIndex : ((d.rev.fileHeaderSize : Int) + tableStaticSize h.fields.length + i -
      d.rev.fileHeaderSize).toNat = (h.front ++ h.fieldBytes).length +
        (tableApplicationSpace - 7 * h.fields.length + i) := by
    rw [hBefore, tableApplicationSpace]
    omega
  rw [writeTableHeader_file, Bytes.put, if_pos (by omega), hIndex, TableHeader.image,
    ← List.append_assoc, List.getD_eq_getElem?_getD, List.getElem?_append_right (Nat.le_add_right _ _),
    Nat.add_sub_cancel_left, List.getD_eq_getElem?_getD]

theorem validHeader_eq_none (hFirst : d.file a = 0) : d.validHeader a = none := by
  rw [validHeader, Option.filter_eq_none_iff]
  intro hdr hRead
  rw [readAt] at hRead
  split at hRead
  · obtain rfl := Option.some.inj hRead
    have hCheck : d.file.read a 8 % 256 = 0 := by
      rw [Bytes.read, hFirst, Nat.add_mul_mod_self_left]
      rfl
    have hNe : (BlockHeader.ofWords (d.file.readWords a 4)).blockCheckWord ≠ gxCheckWord := by
      intro hSame
      change d.file.read a 8 = gxCheckWord at hSame
      rw [hSame] at hCheck
      exact absurd hCheck (by decide)
    rw [BlockHeader.test, if_pos hNe]
    exact Bool.false_ne_true
  · cases hRead

/-- Rewriting the header of a new table takes the check word from the first block. -/
theorem writeTableHeader_destroys (hFields : 0 < h.fields.length) (hZero : ∀ b ∈ h.appSpace.1, b = 0) :
    (d.writeTableHeader h).validHeader (d.rev.fileHeaderSize + tableStaticSize h.fields.length) =
      none := by
  have hSome : 0 < 7 * h.fields.length := by omega
  have hByte := writeTableHeader_behind (d := d) hSome
  rw [Int.natCast_zero, Int.add_zero, List.getD_eq_getElem?_getD] at hByte
  refine validHeader_eq_none (hByte.trans ?_)
  cases hAt : h.appSpace.1[tableApplicationSpace - 7 * h.fields.length + 0]? with
  | none => rfl
  | some b => exact hZero b (List.mem_of_getElem? hAt)

/-! ## What is read -/

theorem readFields_eq_some_iff {l : { l : List (Buffer sizeOfTableHeaderField) // l.length = n }} :
    d.readFields position n = some l ↔
      (n = 0 ∨ position + n * sizeOfTableHeaderField ≤ d.fileSize) ∧
        d.file.get position (n * sizeOfTableHeaderField) = (l.1.map Subtype.val).flatten := by
  induction n generalizing position with
  | zero =>
    obtain ⟨l, hl⟩ := l
    obtain rfl := List.length_eq_zero_iff.mp hl
    exact iff_of_true rfl ⟨.inl rfl, by rw [Nat.zero_mul]; rfl⟩
  | succ n ih =>
    obtain ⟨l, hl⟩ := l
    cases l with
    | nil => cases hl
    | cons f fs =>
      have hRest : fs.length = n := Nat.succ.inj hl
      have hGet : d.file.get position ((n + 1) * sizeOfTableHeaderField) =
          d.file.get position sizeOfTableHeaderField ++
            d.file.get (position + sizeOfTableHeaderField) (n * sizeOfTableHeaderField) := by
        rw [Nat.succ_mul, Nat.add_comm, Bytes.get_add]
      have hHead : (d.file.get position sizeOfTableHeaderField).length = f.1.length := by
        rw [Bytes.get_length, f.2]
      rw [hGet, List.map_cons, List.flatten_cons]
      simp only [readFields, Option.bind_eq_bind, Option.bind_eq_some_iff, readBytes_eq_some_iff]
      constructor
      · rintro ⟨g, ⟨hFits, hg⟩, gs, hgs, hSame⟩
        obtain ⟨rfl, rfl⟩ := List.cons.inj (congrArg Subtype.val (Option.some.inj hSame))
        obtain ⟨hRoom, hGets⟩ := ih.mp hgs
        refine ⟨.inr ?_, by rw [hg, hGets]⟩
        simp only [sizeOfTableHeaderField] at hFits hRoom ⊢
        omega
      · rintro ⟨hRoom, hSame⟩
        obtain ⟨hFirst, hOthers⟩ := List.append_inj hSame hHead
        simp only [sizeOfTableHeaderField] at hRoom
        refine ⟨f, ⟨.inr ?_, hFirst⟩, ⟨fs, hRest⟩, ih.mpr ⟨.inr ?_, hOthers⟩, rfl⟩
        · simp only [sizeOfTableHeaderField]
          omega
        · simp only [sizeOfTableHeaderField]
          omega

/-- Where the fields are. -/
def fieldsOffset (d : Database) : Int :=
  d.rev.fileHeaderSize + rdbmsHeaderSizeOf + tableNameLen + tableDefLen + tableDefLen + tableDefLen + 8

/-- The header is in the file. -/
structure HasHeader (d : Database) (h : TableHeader) : Prop where
  fits : d.fieldsOffset + h.fields.length * sizeOfTableHeaderField + tableApplicationSpace ≤ d.fileSize
  fileId : (d.file.get d.rev.fileHeaderSize rdbmsHeaderSizeOf).take rdbmsFileId.length = rdbmsFileId
  tableName : d.file.get (d.rev.fileHeaderSize + rdbmsHeaderSizeOf) tableNameLen = h.tableName.1
  keyDef : d.file.get (d.rev.fileHeaderSize + rdbmsHeaderSizeOf + tableNameLen) tableDefLen = h.keyDef.1
  formDef : d.file.get (d.rev.fileHeaderSize + rdbmsHeaderSizeOf + tableNameLen + tableDefLen)
    tableDefLen = h.formDef.1
  fkeyDef : d.file.get
    (d.rev.fileHeaderSize + rdbmsHeaderSizeOf + tableNameLen + tableDefLen + tableDefLen) tableDefLen =
      h.fkeyDef.1
  numFields : intOfWord (Bytes.leNat (d.file.get (d.fieldsOffset - 8) 8)) = h.fields.length
  fields : d.file.get d.fieldsOffset (h.fields.length * sizeOfTableHeaderField) = h.fieldBytes
  appSpace : d.file.get (d.fieldsOffset + h.fields.length * sizeOfTableHeaderField)
    tableApplicationSpace = h.appSpace.1

theorem readTableFields_eq_some_iff {tableName : Buffer tableNameLen}
    {keyDef formDef fkeyDef : Buffer tableDefLen} {hn : n ≤ tableMaxFields} :
    d.readTableFields tableName keyDef formDef fkeyDef position n hn = some h ↔
      (h.tableName = tableName ∧ h.keyDef = keyDef ∧ h.formDef = formDef ∧ h.fkeyDef = fkeyDef) ∧
      h.fields.length = n ∧
      position + n * sizeOfTableHeaderField + tableApplicationSpace ≤ d.fileSize ∧
      d.file.get position (n * sizeOfTableHeaderField) = h.fieldBytes ∧
      d.file.get (position + n * sizeOfTableHeaderField) tableApplicationSpace = h.appSpace.1 := by
  have hSpace : tableApplicationSpace ≠ 0 := by decide
  have hNonneg : 0 ≤ (n : Int) * sizeOfTableHeaderField :=
    Int.mul_nonneg (Int.natCast_nonneg _) (Int.natCast_nonneg _)
  simp only [readTableFields, Option.bind_eq_bind, Option.bind_eq_some_iff, readBytes_eq_some_iff]
  constructor
  · rintro ⟨fields, hFields, appSpace, ⟨hFits, hAppSpace⟩, hSome⟩
    obtain ⟨-, hBytes⟩ := readFields_eq_some_iff.mp hFields
    obtain rfl := Option.some.inj hSome
    exact ⟨⟨rfl, rfl, rfl, rfl⟩, fields.2, hFits.resolve_left hSpace, hBytes, hAppSpace⟩
  · rintro ⟨⟨rfl, rfl, rfl, rfl⟩, hLength, hFits, hBytes, hAppSpace⟩
    exact ⟨⟨h.fields, hLength⟩, readFields_eq_some_iff.mpr ⟨.inr (by omega), hBytes⟩, h.appSpace,
      ⟨.inr hFits, hAppSpace⟩, rfl⟩

theorem readTableHeader_eq_some_iff :
    d.readTableHeader false = some h ↔ 0 < h.fields.length ∧ d.HasHeader h := by
  have hMin : (tableMinFields : Int) = 1 := rfl
  have hWordAt : d.fieldsOffset - 8 = d.rev.fileHeaderSize + rdbmsHeaderSizeOf + tableNameLen +
      tableDefLen + tableDefLen + tableDefLen := Int.add_sub_cancel _ _
  simp only [readTableHeader, Bool.false_eq_true, if_false, Option.bind_eq_bind, Option.bind_eq_some_iff,
    readBytes_eq_some_iff]
  constructor
  · rintro ⟨fileId, ⟨-, hFileId⟩, hRest⟩
    split at hRest
    · cases hRest
    rename_i hId
    simp only [Option.bind_eq_some_iff, readBytes_eq_some_iff] at hRest
    obtain ⟨name, ⟨-, hName⟩, key, ⟨-, hKey⟩, form, ⟨-, hForm⟩, fkey, ⟨-, hFkey⟩, word, ⟨-, hWord⟩,
      hRest⟩ := hRest
    split at hRest
    · cases hRest
    rename_i hNum
    obtain ⟨⟨rfl, rfl, rfl, rfl⟩, hLength, hFits, hFields, hApp⟩ :=
      readTableFields_eq_some_iff.mp hRest
    rw [← hLength] at hFits hApp hFields
    refine ⟨by omega, hFits, ?_, hName, hKey, hForm, hFkey, ?_, hFields, hApp⟩
    · rw [hFileId]
      exact not_not.mp hId
    · rw [hWordAt, hWord]
      omega
  · rintro ⟨hPos, hHas⟩
    have hFits := hHas.fits
    have hNum := hHas.numFields
    have hLe := h.fields_le
    have hNonneg : 0 ≤ (h.fields.length : Int) * sizeOfTableHeaderField :=
      Int.mul_nonneg (Int.natCast_nonneg _) (Int.natCast_nonneg _)
    rw [fieldsOffset] at hFits
    refine ⟨⟨_, Bytes.get_length⟩, ⟨.inr (by omega), rfl⟩, ?_⟩
    rw [if_neg (not_not.mpr hHas.fileId)]
    simp only [Option.bind_eq_some_iff, readBytes_eq_some_iff]
    refine ⟨h.tableName, ⟨.inr (by omega), hHas.tableName⟩, h.keyDef, ⟨.inr (by omega), hHas.keyDef⟩,
      h.formDef, ⟨.inr (by omega), hHas.formDef⟩, h.fkeyDef, ⟨.inr (by omega), hHas.fkeyDef⟩,
      ⟨_, Bytes.get_length⟩, ⟨.inr (by omega), rfl⟩, ?_⟩
    rw [hWordAt] at hNum
    dsimp only
    rw [dif_neg (by omega), readTableFields_eq_some_iff]
    have hLength : (intOfWord (Bytes.leNat (d.file.get (d.rev.fileHeaderSize + rdbmsHeaderSizeOf +
        tableNameLen + tableDefLen + tableDefLen + tableDefLen) 8))).toNat = h.fields.length := by
      rw [hNum]
      rfl
    rw [hLength]
    exact ⟨⟨rfl, rfl, rfl, rfl⟩, rfl, hFits, hHas.fields, hHas.appSpace⟩

/-! ## The application space -/

theorem appSpaceOffset_eq :
    d.appSpaceOffset h = d.fieldsOffset + (h.fields.length * tableHeaderFieldSizeOf : Nat) := by
  rw [appSpaceOffset, fieldsOffset, Int.natCast_mul]

/-- The file header on disk names the revision that the object has. -/
structure Opened (d : Database) : Prop where
  fileSize : (sizeOfFileHeader : Int) ≤ d.fileSize
  revOfSig : revOfSig d.diskHeader.gxdSig = d.rev

theorem Opened.testFileHeader (hOpened : d.Opened) :
    d.testFileHeader.file = d.file ∧ d.testFileHeader.fileSize = d.fileSize ∧
      d.testFileHeader.rev = d.rev := by
  obtain ⟨hFile, hSize, hSame | ⟨-, hRev⟩⟩ := testFileHeader_eq hOpened.fileSize
  · exact ⟨hFile, hSize, congrArg rev hSame⟩
  · exact ⟨hFile, hSize, hRev.trans hOpened.revOfSig⟩

theorem Opened.writeBytes (hOpened : d.Opened) {l : List UInt8}
    (hBehind : (d.rev.fileHeaderSize : Int) ≤ position) : (d.writeBytes position l).Opened := by
  have hHeader := d.rev.sizeOfFileHeader_le
  refine ⟨hOpened.fileSize.trans (Int.le_max_left _ _), ?_⟩
  have hDisk : (d.writeBytes position l).diskHeader = d.diskHeader :=
    diskHeader_congr fun x _ hx => Bytes.put_outside (.inl (by omega))
  rw [hDisk]
  exact hOpened.revOfSig

theorem HasHeader.of_same {d' : Database} (hHas : d.HasHeader h) (hFile : d'.file = d.file)
    (hSize : d'.fileSize = d.fileSize) (hRev : d'.rev = d.rev) : d'.HasHeader h := by
  cases d
  cases d'
  cases hFile
  cases hSize
  cases hRev
  exact ⟨hHas.fits, hHas.fileId, hHas.tableName, hHas.keyDef, hHas.formDef, hHas.fkeyDef,
    hHas.numFields, hHas.fields, hHas.appSpace⟩

theorem Opened.readTableHeader_eq_some_iff (hOpened : d.Opened) (testDb : Bool) :
    d.readTableHeader testDb = some h ↔ 0 < h.fields.length ∧ d.HasHeader h := by
  cases testDb with
  | false => exact Database.readTableHeader_eq_some_iff
  | true =>
    obtain ⟨hFile, hSize, hRev⟩ := hOpened.testFileHeader
    have hSame : d.readTableHeader true = d.testFileHeader.readTableHeader false := rfl
    rw [hSame, Database.readTableHeader_eq_some_iff]
    constructor
    · rintro ⟨hPos, hHas⟩
      exact ⟨hPos, hHas.of_same hFile.symm hSize.symm hRev.symm⟩
    · rintro ⟨hPos, hHas⟩
      exact ⟨hPos, hHas.of_same hFile hSize hRev⟩

variable {d' : Database} {h' h₀ : TableHeader} {buf : List UInt8}

theorem writeAppSpace_eq_some (hWrite : d.writeAppSpace h buf = some (d', h')) :
    buf.length ≤ tableApplicationSpace ∧ h.fields.length ≠ 0 ∧
      d' = d.writeBytes (d.appSpaceOffset h) buf ∧ h'.fields = h.fields := by
  rw [writeAppSpace] at hWrite
  split at hWrite
  · cases hWrite
  rename_i hLength
  split at hWrite
  · cases hWrite
  rename_i hFields
  cases hWrite
  exact ⟨Nat.le_of_not_lt hLength, hFields, rfl, rfl⟩

theorem fileHeaderSize_le_appSpaceOffset : (d.rev.fileHeaderSize : Int) ≤ d.appSpaceOffset h := by
  have hNonneg : 0 ≤ (h.fields.length : Int) * tableHeaderFieldSizeOf :=
    Int.mul_nonneg (Int.natCast_nonneg _) (Int.natCast_nonneg _)
  rw [appSpaceOffset]
  omega

/-- `ReadAppSpace` returns what `WriteAppSpace` has written. -/
theorem readAppSpace_writeAppSpace (hOpened : d.Opened)
    (hWrite : d.writeAppSpace h buf = some (d', h')) (testDb : Bool) :
    d'.readAppSpace h' buf.length testDb = some buf := by
  obtain ⟨hLength, hFields, rfl, hSame⟩ := writeAppSpace_eq_some hWrite
  have hOpened' : (d.writeBytes (d.appSpaceOffset h) buf).Opened :=
    hOpened.writeBytes fileHeaderSize_le_appSpaceOffset
  have hTested : ∀ e : Database, e.file = (d.writeBytes (d.appSpaceOffset h) buf).file →
      e.fileSize = (d.writeBytes (d.appSpaceOffset h) buf).fileSize → e.rev = d.rev →
      e.readAppSpace h' buf.length false = some buf := by
    intro e hFile hSize hRev
    have hOffset : e.appSpaceOffset h' = d.appSpaceOffset h := by
      rw [appSpaceOffset, appSpaceOffset, hRev, hSame]
    have hRead : e.readBytes (d.appSpaceOffset h) buf.length = some ⟨buf, rfl⟩ := by
      rw [readBytes_eq_some_iff, hFile, hSize]
      exact ⟨.inr (Int.le_max_right _ _), Bytes.get_put_self⟩
    rw [readAppSpace]
    simp only [Bool.false_eq_true, if_false]
    rw [if_neg (Nat.not_lt.mpr hLength), hSame, if_neg hFields, hOffset, hRead, Option.map_some]
  cases testDb with
  | false => exact hTested _ rfl rfl rfl
  | true =>
    obtain ⟨hFile, hSize, hRev⟩ := hOpened'.testFileHeader
    exact hTested _ hFile hSize hRev

theorem HasHeader.get_fields (hHas : d.HasHeader h) :
    d.file.get d.fieldsOffset (h.fields.length * sizeOfTableHeaderField + tableApplicationSpace) =
      h.fieldBytes ++ h.appSpace.1 := by
  rw [Bytes.get_add, hHas.fields, Int.natCast_mul, hHas.appSpace]

theorem fields_size (n : Nat) :
    n * sizeOfTableHeaderField = n * tableHeaderFieldSizeOf + 7 * n := by
  simp only [sizeOfTableHeaderField, tableHeaderFieldSizeOf, tableFieldNameLen]
  omega

/-- When a write of the application space leaves the fields and is read back with the header. -/
def AppSpaceFits (h : TableHeader) (buf : List UInt8) : Prop :=
  buf.take (7 * h.fields.length) <+: h.fieldBytes.drop (h.fields.length * tableHeaderFieldSizeOf) ∧
    buf <+: buf.drop (7 * h.fields.length) ++ h.appSpace.1.drop (buf.length - 7 * h.fields.length)

/-- The fields and the application space of a header after a write of the application space. -/
def spliced (h : TableHeader) (buf : List UInt8) : List UInt8 :=
  (h.fieldBytes ++ h.appSpace.1).take (h.fields.length * tableHeaderFieldSizeOf) ++ buf ++
    (h.fieldBytes ++ h.appSpace.1).drop (h.fields.length * tableHeaderFieldSizeOf + buf.length)

theorem HasHeader.get_put (hHas : d.HasHeader h) (hLength : buf.length ≤ tableApplicationSpace) :
    (d.file.put (d.fieldsOffset + (h.fields.length * tableHeaderFieldSizeOf : Nat)) buf).get
      d.fieldsOffset (h.fields.length * sizeOfTableHeaderField + tableApplicationSpace) =
        spliced h buf := by
  have hSizes := fields_size h.fields.length
  have hIndex : (d.fieldsOffset + (h.fields.length * tableHeaderFieldSizeOf : Nat) -
      d.fieldsOffset).toNat = h.fields.length * tableHeaderFieldSizeOf := by omega
  rw [Bytes.get_put (by omega) (by omega), hHas.get_fields, hIndex]
  rfl

theorem HasHeader.writeAppSpace (hHas : d.HasHeader h₀) (hSame : h₀.fields.length = h.fields.length)
    (hWrite : d.writeAppSpace h buf = some (d', h')) :
    ∃ h₁ : TableHeader, d'.HasHeader h₁ ∧ h₁.fields.length = h.fields.length ∧
      h₁.tableName = h₀.tableName ∧ h₁.keyDef = h₀.keyDef ∧ h₁.formDef = h₀.formDef ∧
      h₁.fkeyDef = h₀.fkeyDef ∧
      h₁.appSpace.1 = buf.drop (7 * h₀.fields.length) ++
        h₀.appSpace.1.drop (buf.length - 7 * h₀.fields.length) ∧
      (h₁.fields = h₀.fields ↔ buf.take (7 * h₀.fields.length) <+:
        h₀.fieldBytes.drop (h₀.fields.length * tableHeaderFieldSizeOf)) := by
  obtain ⟨hLength, -, rfl, -⟩ := writeAppSpace_eq_some hWrite
  have hOffset : d.appSpaceOffset h =
      d.fieldsOffset + (h₀.fields.length * tableHeaderFieldSizeOf : Nat) := by
    rw [appSpaceOffset_eq, hSame]
  have hSizes := fields_size h₀.fields.length
  have hFirst := h₀.fieldBytes_length.trans hSizes
  have hAll := hHas.get_put hLength
  rw [← hOffset] at hAll
  rw [Bytes.get_add] at hAll
  obtain ⟨bs, hbs, hFlat⟩ := TableHeader.exists_flatten (n := sizeOfTableHeaderField)
    (k := h₀.fields.length) (l := (d.file.put (d.appSpaceOffset h) buf).get d.fieldsOffset
      (h₀.fields.length * sizeOfTableHeaderField)) Bytes.get_length
  have hBelow (position : Int) (k : Nat) (hk : position + k ≤ d.fieldsOffset) :
      (d.file.put (d.appSpaceOffset h) buf).get position k = d.file.get position k :=
    Bytes.get_congr fun x _ hx => Bytes.put_outside (.inl (by omega))
  have hFields : (bs.map Subtype.val).flatten = (spliced h₀ buf).take
      (h₀.fields.length * sizeOfTableHeaderField) := by
    rw [hFlat, ← hAll, List.take_left' Bytes.get_length]
  have hApp : (d.file.put (d.appSpaceOffset h) buf).get
      (d.fieldsOffset + (h₀.fields.length * sizeOfTableHeaderField : Nat)) tableApplicationSpace =
        (spliced h₀ buf).drop (h₀.fields.length * sizeOfTableHeaderField) := by
    rw [← hAll, List.drop_left' Bytes.get_length]
  rw [hSizes, spliced, Bytes.splice_drop hFirst] at hApp
  let h₁ : TableHeader := { h₀ with
    fields := bs
    appSpace := ⟨buf.drop (7 * h₀.fields.length) ++
      h₀.appSpace.1.drop (buf.length - 7 * h₀.fields.length), by rw [← hApp, Bytes.get_length]⟩
    fields_le := hbs.trans_le h₀.fields_le }
  refine ⟨h₁, ?_, hbs.trans hSame, rfl, rfl, rfl, rfl, rfl, ?_⟩
  · have hFits := hHas.fits
    have hStart : d.fieldsOffset = d.rev.fileHeaderSize + rdbmsHeaderSizeOf + tableNameLen +
      tableDefLen + tableDefLen + tableDefLen + 8 := rfl
    constructor
    · change d.fieldsOffset + (bs.length : Int) * sizeOfTableHeaderField + tableApplicationSpace ≤
        max d.fileSize _
      rw [hbs]
      exact hFits.trans (Int.le_max_left _ _)
    · exact (congrArg _ (hBelow d.rev.fileHeaderSize _ (by omega))).trans hHas.fileId
    · exact (hBelow (d.rev.fileHeaderSize + rdbmsHeaderSizeOf) _ (by omega)).trans hHas.tableName
    · exact (hBelow (d.rev.fileHeaderSize + rdbmsHeaderSizeOf + tableNameLen) _ (by omega)).trans
        hHas.keyDef
    · exact (hBelow (d.rev.fileHeaderSize + rdbmsHeaderSizeOf + tableNameLen + tableDefLen) _
        (by omega)).trans hHas.formDef
    · exact (hBelow (d.rev.fileHeaderSize + rdbmsHeaderSizeOf + tableNameLen + tableDefLen +
        tableDefLen) _ (by omega)).trans hHas.fkeyDef
    · have hWord := hBelow (d.fieldsOffset - 8) 8 (by omega)
      change intOfWord (Bytes.leNat ((d.file.put (d.appSpaceOffset h) buf).get (d.fieldsOffset - 8) 8)) =
        bs.length
      rw [hWord, hHas.numFields, hbs]
    · change (d.file.put (d.appSpaceOffset h) buf).get d.fieldsOffset
        (bs.length * sizeOfTableHeaderField) = (bs.map Subtype.val).flatten
      rw [hbs, hFlat]
    · change (d.file.put (d.appSpaceOffset h) buf).get
        (d.fieldsOffset + (bs.length : Int) * sizeOfTableHeaderField) tableApplicationSpace = _
      rw [hbs, ← Int.natCast_mul, hSizes]
      exact hApp
  · rw [← TableHeader.flatten_inj hbs, hFields, hSizes]
    exact Bytes.splice_take_eq_iff hFirst

/-- The blocks behind the static area are as before when the header is written. -/
def KeepsBlocks (h : TableHeader) : Prop :=
  ∀ (d : Database) (x : Int), d.rev.fileHeaderSize + tableStaticSize h.fields.length ≤ x →
    (d.writeTableHeader h).file x = d.file x

theorem not_keepsBlocks (hFields : 0 < h.fields.length) : ¬ KeepsBlocks h := by
  intro hKeeps
  have hSome : 0 < 7 * h.fields.length := by omega
  let b := h.appSpace.1.getD (tableApplicationSpace - 7 * h.fields.length + 0) 0
  let d : Database := { create .D 0 with file := fun _ => b + 1 }
  have hWritten := writeTableHeader_behind (d := d) hSome
  rw [Int.natCast_zero, Int.add_zero] at hWritten
  have hKept : b = b + 1 := hWritten.symm.trans (hKeeps d _ (Int.le_refl _))
  have hNat := congrArg UInt8.toNat hKept
  rw [UInt8.toNat_add] at hNat
  have := b.toNat_lt
  change b.toNat = (b.toNat + 1) % 2 ^ 8 at hNat
  omega

/-- Whatever the fields are, the header does not fit in the static area, and the first bytes of the
first block are lost. The application space is read back by itself, but it lies over the last fields. -/
theorem tableHeader_overruns (h : TableHeader) (hFields : 0 < h.fields.length) :
    tableStaticSize h.fields.length < h.image.length ∧
      (∀ d : Database, (d.writeTableHeader h).file = d.file.put d.rev.fileHeaderSize h.image) ∧
      ¬ KeepsBlocks h ∧
      ((∀ b ∈ h.appSpace.1, b = 0) → ∀ d : Database,
        (d.writeTableHeader h).validHeader
          (d.rev.fileHeaderSize + tableStaticSize h.fields.length) = none) ∧
      ∀ (d d' : Database) (h' h₀ : TableHeader) (buf : List UInt8) (testDb : Bool), d.Opened →
        d.readTableHeader testDb = some h₀ → h₀.fields.length = h.fields.length →
        d.writeAppSpace h buf = some (d', h') →
        d'.readAppSpace h' buf.length testDb = some buf ∧
          ∃ h₁, d'.readTableHeader testDb = some h₁ ∧
            (h₁.fields = h₀.fields ∧ buf <+: h₁.appSpace.1 ↔ AppSpaceFits h₀ buf) := by
  refine ⟨?_, fun d => writeTableHeader_file, not_keepsBlocks hFields,
    fun hZero d => writeTableHeader_destroys hFields hZero, ?_⟩
  · rw [h.image_length]
    omega
  · intro d d' h' h₀ buf testDb hOpened hRead hSame hWrite
    refine ⟨readAppSpace_writeAppSpace hOpened hWrite testDb, ?_⟩
    obtain ⟨hPos, hHas⟩ := (hOpened.readTableHeader_eq_some_iff testDb).mp hRead
    obtain ⟨h₁, hHas', hLength, -, -, -, -, hApp, hFieldsIff⟩ := hHas.writeAppSpace hSame hWrite
    have hOpened' : d'.Opened := by
      obtain ⟨-, -, rfl, -⟩ := writeAppSpace_eq_some hWrite
      exact hOpened.writeBytes fileHeaderSize_le_appSpaceOffset
    refine ⟨h₁, (hOpened'.readTableHeader_eq_some_iff testDb).mpr ⟨by omega, hHas'⟩, ?_⟩
    rw [hFieldsIff, hApp, AppSpaceFits]

/-- The first record of a new table, right behind the static area. -/
theorem alloc_first (h : TableHeader) (n : Nat) (position : Int) {bytes : Nat} (method : ReclaimMethod)
    (hBytes : bytes + Revision.D.overhead < 2 ^ 64) :
    ∃ d hdr, ((create .D (tableStaticSize h.fields.length)).writeTableHeader h).alloc n position bytes
        method = some ((Revision.D.fileHeaderSize : Int) + tableStaticSize h.fields.length +
          Revision.D.blockHeaderSize, d) ∧
      d.rev = .D ∧
      d.validHeader (Revision.D.fileHeaderSize + tableStaticSize h.fields.length) = some hdr := by
  obtain ⟨e, he⟩ : ∃ e, e = (create .D (tableStaticSize h.fields.length)).writeTableHeader h := ⟨_, rfl⟩
  have hRev : e.rev = .D := by rw [he, writeTableHeader, writeBuffers_rev, create_rev]
  have hHeader : e.fileHeader = newHeader .D (tableStaticSize h.fields.length) := by
    rw [he, writeTableHeader, writeBuffers_fileHeader, create_fileHeader]
  have hEof : e.fileHeader.gxdEof = Revision.D.fileHeaderSize + tableStaticSize h.fields.length := by
    rw [hHeader, newHeader, Int.add_comm]
  have hOverhead : e.overhead = Revision.D.overhead := by rw [overhead, hRev]
  have hLength : (bytes + e.overhead) % 2 ^ 64 = bytes + Revision.D.overhead := by
    rw [hOverhead, Nat.mod_eq_of_lt hBytes]
  have hSome : e.reclaim n position (bytes + Revision.D.overhead) method = some (0, e) := by
    rw [reclaim.eq_def, if_pos (by rw [hHeader]; rfl)]
  have hOver : Revision.D.blockHeaderSize ≤ Revision.D.overhead := by decide
  rw [← he, alloc]
  simp only [hLength, hSome, Option.map_some, if_true]
  refine ⟨(e.extend (bytes + Revision.D.overhead)).mark (bytes + Revision.D.overhead)
    e.fileHeader.gxdEof, ⟨gxCheckWord, bytes + Revision.D.overhead, gxNormalBlock, 0⟩, ?_, ?_, ?_⟩
  · rw [hEof, blockHeaderSize, hRev]
  · exact (mark_rev ..).trans hRev
  · have hRead := readAt_mark (d := e.extend (bytes + Revision.D.overhead)) (a := e.fileHeader.gxdEof)
      hBytes (by
        rw [extend_rev, hRev, hEof]
        omega) (by
        rw [extend_rev, hRev, extend_fileSize]
        omega)
    have hSound : BlockHeader.Sound 0 ⟨gxCheckWord, bytes + Revision.D.overhead, gxNormalBlock, 0⟩ :=
      ⟨rfl, Nat.zero_le _, .inl rfl, Int.le_refl 0, Int.pow_pos (by decide)⟩
    rw [← hEof, validHeader, hRead, Option.filter_some, if_pos hSound.test]

/-- A table with one field, an `INT32` with the name ID. -/
def idTable : TableHeader where
  tableName := ⟨List.replicate tableNameLen 0, List.length_replicate⟩
  keyDef := ⟨List.replicate tableDefLen 0, List.length_replicate⟩
  formDef := ⟨List.replicate tableDefLen 0, List.length_replicate⟩
  fkeyDef := ⟨List.replicate tableDefLen 0, List.length_replicate⟩
  fields := [⟨3 :: List.replicate 7 0 ++ Bytes.leBytes 8 2 ++ Bytes.leBytes 8 0 ++ [0x49, 0x44] ++
    List.replicate 254 0, by
      simp only [List.length_append, List.length_cons, List.length_replicate, Bytes.leBytes_length,
        List.length_nil, sizeOfTableHeaderField]⟩]
  appSpace := ⟨List.replicate tableApplicationSpace 0, List.length_replicate⟩
  fields_le := by decide

/-- In this table the header takes seven bytes of the first record. -/
theorem tableHeader_overruns_idTable :
    tableStaticSize idTable.fields.length < idTable.image.length ∧
      (∀ d : Database, (d.writeTableHeader idTable).file =
        d.file.put d.rev.fileHeaderSize idTable.image) ∧
      ¬ KeepsBlocks idTable ∧
      ((∀ b ∈ idTable.appSpace.1, b = 0) → ∀ d : Database,
        (d.writeTableHeader idTable).validHeader
          (d.rev.fileHeaderSize + tableStaticSize idTable.fields.length) = none) ∧
      ∀ (d d' : Database) (h' h₀ : TableHeader) (buf : List UInt8) (testDb : Bool), d.Opened →
        d.readTableHeader testDb = some h₀ → h₀.fields.length = idTable.fields.length →
        d.writeAppSpace idTable buf = some (d', h') →
        d'.readAppSpace h' buf.length testDb = some buf ∧
          ∃ h₁, d'.readTableHeader testDb = some h₁ ∧
            (h₁.fields = h₀.fields ∧ buf <+: h₁.appSpace.1 ↔ AppSpaceFits h₀ buf) :=
  tableHeader_overruns idTable Nat.one_pos

/-- The header of this table is written, a record is added, and the header is written again. -/
theorem idTable_overruns :
    ∃ d hdr, ((create .D (tableStaticSize 1)).writeTableHeader idTable).alloc 0 0 8 .firstFit =
        some ((Revision.D.fileHeaderSize : Int) + tableStaticSize 1 + Revision.D.blockHeaderSize, d) ∧
      d.validHeader (Revision.D.fileHeaderSize + tableStaticSize 1) = some hdr ∧
      (d.writeTableHeader idTable).validHeader (Revision.D.fileHeaderSize + tableStaticSize 1) =
        none := by
  have hBytes : 8 + Revision.D.overhead < 2 ^ 64 := by decide
  obtain ⟨d, hdr, hAlloc, hRev, hValid⟩ := alloc_first idTable 0 0 .firstFit hBytes
  refine ⟨d, hdr, hAlloc, hValid, ?_⟩
  have hLost := writeTableHeader_destroys (d := d) (h := idTable) Nat.one_pos fun b hb =>
    List.eq_of_mem_replicate hb
  rw [hRev] at hLost
  exact hLost

end Database

end DataReel
