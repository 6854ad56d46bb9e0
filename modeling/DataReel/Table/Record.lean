import DataReel.Library.Moves
import DataReel.Library.Bytes
import Mathlib.Data.List.GetD

/-! # Records of a table

A record holds a buffer for each field: a byte for the type, the number of the field's bytes
and the bytes. A buffer may be longer than that, after a field has become shorter. Offsets
and sizes are words of 64 bits.
-/

namespace DataReel

/-- The integer types of a build: `long`, or the classes of four bytes. -/
inductive IntTypes
  | native
  | portable
  deriving DecidableEq, Repr

/-- `sizeof(gxUINT32)` and `sizeof(gxINT32)`. -/
def IntTypes.wordSize : IntTypes → Nat
  | native => 8
  | portable => 4

/-- The `gxDatabaseError` codes of a record's functions. -/
inductive RecordStatus
  | noError
  | badFieldLength
  | badRecord
  | badTableId
  | bufferOverflow
  | nullPtr
  deriving DecidableEq, Repr

/-- `recordMAX_FIELDS`. -/
def recordMaxFields : Nat := 255

/-- The most bytes that a vector holds. -/
def vectorMax : Nat := 2 ^ 63 - 1

/-- `gxrdFIELD_TYPES`. -/
inductive FieldType
  | invalid
  | char
  | int16
  | int32
  | int64
  | float
  | bool
  | vchar
  | binary
  | blob
  | currency
  | date
  deriving DecidableEq, Repr

namespace FieldType

def typeId : FieldType → UInt8
  | invalid => 0
  | char => 1
  | int16 => 2
  | int32 => 3
  | int64 => 4
  | float => 5
  | bool => 6
  | vchar => 7
  | binary => 8
  | blob => 9
  | currency => 10
  | date => 11

/-- `GetRecordTypeSize`, the size of one value of a type. -/
def size (T : IntTypes) : FieldType → Nat
  | int16 => 2
  | int32 => T.wordSize
  | int64 | float | currency => 8
  | date => 4
  | _ => 1

end FieldType

/-! ## Fields -/

namespace Field

variable (T : IntTypes)

/-- The bytes in front of a field's data. -/
def overhead : Nat := 1 + T.wordSize

/-- A buffer by its type, its number of bytes and the space behind them. -/
def image (typeId : UInt8) (numBytes : Nat) (space : List UInt8) : List UInt8 :=
  typeId :: (Bytes.leBytes T.wordSize numBytes ++ space)

/-- The type and the number of bytes, as a buffer has them. -/
def header (buf : List UInt8) : Option (UInt8 × Nat) := do
  let typeId ← peek buf 0 1
  let numBytes ← peek buf 1 T.wordSize
  return (typeId.headD 0, Bytes.leNat numBytes)

/-- The type and the bytes of a field. -/
def contents (buf : List UInt8) : Option (UInt8 × List UInt8) := do
  let (typeId, numBytes) ← header T buf
  let data ← peek buf (overhead T) numBytes
  return (typeId, data)

/-- The buffer with other data. The buffer grows with them and never shrinks below them. `none`
where that goes outside of the buffer or a vector cannot become so long. -/
def setData (buf data : List UInt8) : Option (List UInt8) := do
  let (_, numBytes) ← header T buf
  let buf ← if numBytes = data.length then some buf else do
    let buf ← poke buf 1 (Bytes.leBytes T.wordSize data.length)
    if data.length ≤ numBytes then some buf
    else if vectorMax < data.length + overhead T then none
    else some (resize 0 buf (data.length + overhead T))
  poke buf (overhead T) data

/-- The buffer holds the bytes that it counts. -/
structure WellFormed (buf : List UInt8) : Prop where
  holds : ∃ typeId numBytes, header T buf = some (typeId, numBytes) ∧
    overhead T + numBytes ≤ buf.length
  length_le : buf.length ≤ vectorMax

variable {T} {buf space : List UInt8} {typeId : UInt8} {numBytes n : Nat}

theorem wordSize_pos : 0 < T.wordSize := by
  cases T <;> decide

theorem overhead_le : overhead T ≤ 9 := by
  cases T <;> decide

@[simp] theorem image_length :
    (image T typeId numBytes space).length = overhead T + space.length := by
  rw [image, List.length_cons, List.length_append, Bytes.leBytes_length, overhead]
  omega

theorem header_image_mod : header T (image T typeId numBytes space) =
    some (typeId, numBytes % 256 ^ T.wordSize) := by
  have hType : peek (image T typeId numBytes space) 0 1 = some [typeId] :=
    peek_append_left (s := [typeId]) rfl
  have hCount : peek (image T typeId numBytes space) 1 T.wordSize =
      some (Bytes.leBytes T.wordSize numBytes) :=
    peek_append (p := [typeId]) rfl Bytes.leBytes_length
  simp [header, hType, hCount, Bytes.leNat_leBytes_mod]

theorem header_image (hBytes : numBytes < 256 ^ T.wordSize) :
    header T (image T typeId numBytes space) = some (typeId, numBytes) := by
  rw [header_image_mod, Nat.mod_eq_of_lt hBytes]

theorem header_of_le (h : overhead T ≤ buf.length) :
    ∃ typeId numBytes space, buf = image T typeId numBytes space ∧ numBytes < 256 ^ T.wordSize := by
  cases buf with
  | nil =>
    rw [overhead, List.length_nil] at h
    omega
  | cons typeId rest =>
    have hWord : (rest.take T.wordSize).length = T.wordSize := by
      rw [overhead, List.length_cons] at h
      rw [List.length_take]
      omega
    have hBytes := Bytes.leBytes_leNat (rest.take T.wordSize)
    have hLt := Bytes.leNat_lt (rest.take T.wordSize)
    rw [hWord] at hBytes hLt
    refine ⟨typeId, Bytes.leNat (rest.take T.wordSize), rest.drop T.wordSize, ?_, hLt⟩
    rw [image, hBytes, List.take_append_drop]

theorem header_eq_some_iff : header T buf = some (typeId, numBytes) ↔
    ∃ space, buf = image T typeId numBytes space ∧ numBytes < 256 ^ T.wordSize := by
  constructor
  · intro h
    have hLength : overhead T ≤ buf.length := by
      rw [header] at h
      by_contra hShort
      rw [overhead] at hShort
      have hNone : peek buf 1 T.wordSize = none := peek_of_lt (by omega)
      simp [hNone] at h
    obtain ⟨typeId', numBytes', space, rfl, hBytes⟩ := header_of_le hLength
    rw [header_image hBytes] at h
    cases h
    exact ⟨space, rfl, hBytes⟩
  · rintro ⟨space, rfl, hBytes⟩
    exact header_image hBytes

theorem header_eq_none_iff : header T buf = none ↔ buf.length < overhead T := by
  constructor
  · intro h
    by_contra hLength
    have hLe : overhead T ≤ buf.length := by omega
    obtain ⟨typeId, numBytes, space, rfl, hBytes⟩ := header_of_le hLe
    rw [header_image hBytes] at h
    cases h
  · intro h
    have hNone : peek buf 1 T.wordSize = none := peek_of_lt h
    simp [header, hNone]

theorem poke_typeId (t : UInt8) :
    poke (image T typeId numBytes space) 0 [t] = some (image T t numBytes space) :=
  poke_append (p := []) (s := [typeId]) (t := [t]) rfl rfl

theorem poke_numBytes : poke (image T typeId numBytes space) 1 (Bytes.leBytes T.wordSize n) =
    some (image T typeId n space) := by
  apply poke_append (p := [typeId]) rfl
  rw [Bytes.leBytes_length, Bytes.leBytes_length]

theorem overhead_eq : (typeId :: Bytes.leBytes T.wordSize numBytes).length = overhead T := by
  rw [List.length_cons, Bytes.leBytes_length, overhead]
  omega

theorem peek_data (h : n ≤ space.length) :
    peek (image T typeId numBytes space) (overhead T) n = some (space.take n) := by
  have hSplit := List.take_append_drop n space
  have hLength : (space.take n).length = n := by
    rw [List.length_take]
    omega
  have hImage : image T typeId numBytes space =
      (typeId :: Bytes.leBytes T.wordSize numBytes) ++ (space.take n ++ space.drop n) := by
    rw [hSplit, image, List.cons_append]
  rw [hImage]
  exact peek_append overhead_eq hLength

theorem poke_data {data : List UInt8} (h : data.length ≤ space.length) :
    poke (image T typeId numBytes space) (overhead T) data =
      some (image T typeId numBytes (data ++ space.drop data.length)) := by
  have hSplit := List.take_append_drop data.length space
  have hLength : (space.take data.length).length = data.length := by
    rw [List.length_take]
    omega
  have hImage : image T typeId numBytes space = (typeId :: Bytes.leBytes T.wordSize numBytes) ++
      (space.take data.length ++ space.drop data.length) := by
    rw [hSplit, image, List.cons_append]
  rw [hImage]
  exact poke_append overhead_eq hLength

theorem resize_image : resize 0 (image T typeId numBytes space) (overhead T + n) =
    image T typeId numBytes (resize 0 space n) := by
  rw [image, ← List.cons_append, ← overhead_eq, resize_append]
  rfl

theorem contents_image {data extra : List UInt8} (hBytes : data.length < 256 ^ T.wordSize) :
    contents T (image T typeId data.length (data ++ extra)) = some (typeId, data) := by
  simp only [contents, header_image hBytes, Option.bind_eq_bind, Option.bind_some]
  rw [peek_data (by simp), List.take_left]
  rfl

theorem typeId_of_header (h : header T buf = some (typeId, numBytes)) : buf.headD 0 = typeId := by
  obtain ⟨space, rfl, _⟩ := header_eq_some_iff.mp h
  rfl

theorem typeId_of_contents {data : List UInt8} (h : contents T buf = some (typeId, data)) :
    buf.headD 0 = typeId := by
  simp only [contents, Option.bind_eq_bind, Option.bind_eq_some_iff] at h
  obtain ⟨⟨t, n⟩, hHeader, data', _, hPair⟩ := h
  cases hPair
  exact typeId_of_header hHeader

/-- A well formed buffer, by its parts. -/
theorem WellFormed.image (h : WellFormed T buf) : ∃ typeId data extra,
    buf = Field.image T typeId data.length (data ++ extra) ∧ data.length < 256 ^ T.wordSize := by
  obtain ⟨typeId, numBytes, hHeader, hLe⟩ := h.holds
  obtain ⟨space, rfl, hBytes⟩ := header_eq_some_iff.mp hHeader
  rw [image_length] at hLe
  have hData : (space.take numBytes).length = numBytes := by
    rw [List.length_take]
    omega
  refine ⟨typeId, space.take numBytes, space.drop numBytes, ?_, ?_⟩
  · rw [hData, List.take_append_drop]
  · rw [hData]
    exact hBytes

theorem wellFormed_image (hSpace : numBytes ≤ space.length)
    (hLength : overhead T + space.length ≤ vectorMax) :
    WellFormed T (Field.image T typeId numBytes space) := by
  constructor
  · refine ⟨typeId, numBytes % 256 ^ T.wordSize, header_image_mod, ?_⟩
    have hMod := Nat.mod_le numBytes (256 ^ T.wordSize)
    rw [image_length]
    omega
  · rw [image_length]
    exact hLength

theorem setData_image (h : WellFormed T buf) {data buf' : List UInt8}
    (hSet : setData T buf data = some buf') :
    ∃ typeId extra, buf' = Field.image T typeId data.length (data ++ extra) ∧
      buf'.length ≤ vectorMax := by
  obtain ⟨typeId, old, extra, rfl, hBytes⟩ := h.image
  have hLength := h.length_le
  rw [image_length] at hLength
  simp only [setData, header_image hBytes, Option.bind_eq_bind, Option.bind_some] at hSet
  by_cases hSame : old.length = data.length
  · rw [if_pos hSame, poke_data (by simp [hSame]), hSame] at hSet
    cases hSet
    refine ⟨typeId, _, rfl, ?_⟩
    simp only [image_length, List.length_append, List.length_drop] at hLength ⊢
    omega
  · rw [if_neg hSame, poke_numBytes, Option.bind_some] at hSet
    by_cases hShorter : data.length ≤ old.length
    · rw [if_pos hShorter, poke_data (by simp; omega)] at hSet
      cases hSet
      refine ⟨typeId, _, rfl, ?_⟩
      simp only [image_length, List.length_append, List.length_drop] at hLength ⊢
      omega
    · rw [if_neg hShorter] at hSet
      split at hSet
      · cases hSet
      next hMax =>
        rw [Nat.add_comm data.length, resize_image, poke_data (by rw [resize_length])] at hSet
        cases hSet
        refine ⟨typeId, _, rfl, ?_⟩
        simp only [image_length, List.length_append, List.length_drop, resize_length]
        omega

theorem setData_wellFormed (h : WellFormed T buf) {data buf' : List UInt8}
    (hSet : setData T buf data = some buf') : WellFormed T buf' := by
  obtain ⟨typeId, extra, rfl, hLength⟩ := setData_image h hSet
  rw [image_length] at hLength
  exact wellFormed_image (by simp) hLength

end Field

/-! ## Records -/

/-- `gxrdDatabaseRecord`. -/
structure Record where
  tableName : List UInt8
  recordDef : List UInt8
  numFields : Nat
  dbRecord : List (List UInt8)
  excludeFields : List Nat
  deriving DecidableEq

namespace Record

variable (T : IntTypes) (r : Record)

/-- The buffer of a field. -/
def fieldBuf (i : Nat) : List UInt8 := r.dbRecord.getD i []

/-- Every field counts no more bytes than its buffer holds. -/
structure WellFormed : Prop where
  numFields_le : r.numFields ≤ r.dbRecord.length
  numFields_max : r.numFields ≤ recordMaxFields
  numFields_pos : r.dbRecord ≠ [] → 0 < r.numFields
  field : ∀ i < r.numFields, Field.WellFormed T (r.fieldBuf i)

/-- `gxrdExcludeFields::Exclude`. -/
def Excludes (i : Nat) : Prop := i ∈ r.excludeFields

instance (i : Nat) : Decidable (r.Excludes i) := inferInstanceAs (Decidable (i ∈ r.excludeFields))

/-- `SizeOf`. `none` where it reads outside of a buffer. -/
def sizeOf : Option Nat := do
  if r.dbRecord = [] ∨ r.numFields = 0 then return 0
  let headers ← (r.dbRecord.take r.numFields).mapM (Field.header T)
  return (headers.map fun h => Field.overhead T + h.2).sum % 2 ^ 64

/-- A field of a definition: its type and the length of its array. -/
structure FieldDef where
  type : FieldType
  arrayLen : Option Int

/-- The number of bytes that `InitRecord` reserves for a field. -/
def FieldDef.numBytes (f : FieldDef) : Nat :=
  match f.arrayLen with
  | none => f.type.size T
  | some len =>
    let numBytes := (f.type.size T * len % 256 ^ T.wordSize).toNat
    if numBytes < f.type.size T then f.type.size T else numBytes

/-- The buffer that `InitRecord` makes for a field. `none` where the bytes are more than a
vector holds, or their number with the overhead is more than a word. -/
def initField (f : FieldDef) : Option (List UInt8) :=
  let fieldLen := (f.numBytes T + Field.overhead T) % 2 ^ 64
  if vectorMax < fieldLen then none
  else do
    let buf ← poke (List.replicate fieldLen 0) 0 [f.type.typeId]
    poke buf 1 (Bytes.leBytes T.wordSize (f.numBytes T))

/-- `CreateRecord`, from the fields of a definition; `none` where there is no such record. The
buffers behind the fields stay from an earlier use of the record. -/
def createRecord (tableName recordDef : List UInt8) (fields : List FieldDef) : Option Record :=
  if fields = [] ∨ recordMaxFields < fields.length then none
  else do
    let bufs ← fields.mapM (initField T)
    return { r with
      tableName := tableName
      recordDef := recordDef
      numFields := fields.length
      dbRecord := bufs ++ r.dbRecord.drop fields.length }

/-- `SetField`. `none` where it goes outside of a buffer or a vector cannot become so long. -/
def setField (data : List UInt8) (col : Nat) : Option (RecordStatus × Record) :=
  if r.dbRecord = [] then some (.nullPtr, r)
  -- there are fields where there are buffers
  else if r.numFields - 1 < col then some (.bufferOverflow, r)
  else do
    let buf ← Field.setData T (r.fieldBuf col) data
    return (.noError, { r with dbRecord := r.dbRecord.set col buf })

variable {T} {r}

/-! ## What keeps the fields well formed -/

theorem FieldDef.numBytes_lt (f : FieldDef) : f.numBytes T < 256 ^ T.wordSize := by
  have hSize : f.type.size T < 256 ^ T.wordSize := by
    cases T <;> cases f.type <;> decide
  have hPos : (0 : Int) < 256 ^ T.wordSize := by
    cases T <;> decide
  cases hLen : f.arrayLen with
  | none =>
    rw [numBytes, hLen]
    exact hSize
  | some len =>
    have hRange := Int.emod_lt_of_pos (f.type.size T * len) hPos
    have hNonneg := Int.emod_nonneg (f.type.size T * len) hPos.ne'
    rw [numBytes, hLen]
    dsimp only
    split
    · exact hSize
    · rw [Int.toNat_lt hNonneg]
      push_cast
      exact hRange

theorem initField_wellFormed {f : FieldDef} {buf : List UInt8} (h : initField T f = some buf) :
    Field.WellFormed T buf := by
  have hBytes := f.numBytes_lt (T := T)
  have hWord : 256 ^ T.wordSize ≤ 2 ^ 64 := by cases T <;> decide
  have hOverhead := Field.overhead_le (T := T)
  unfold initField at h
  dsimp only at h
  split at h
  · cases h
  next hMax =>
    generalize hLen : (f.numBytes T + Field.overhead T) % 2 ^ 64 = fieldLen at h hMax
    by_cases hFits : Field.overhead T ≤ fieldLen
    · have hExact : f.numBytes T + Field.overhead T = fieldLen := by omega
      obtain ⟨t, n, space, hImage, _⟩ := Field.header_of_le (T := T)
        (hFits.trans_eq (List.length_replicate (n := fieldLen) (a := (0 : UInt8))).symm)
      rw [hImage, Field.poke_typeId, Option.bind_eq_bind, Option.bind_some,
        Field.poke_numBytes] at h
      cases h
      have hSpace := congrArg List.length hImage
      rw [Field.image_length, List.length_replicate] at hSpace
      exact Field.wellFormed_image (by omega) (by omega)
    · -- a number of bytes that wraps around leaves no space for itself
      rw [Option.bind_eq_bind, Option.bind_eq_some_iff] at h
      obtain ⟨buf', hType, hCount⟩ := h
      have hLength : buf'.length = fieldLen := by
        simp only [poke, List.length_replicate, List.length_singleton] at hType
        split at hType
        · cases hType
          simp
          omega
        · cases hType
      rw [poke_of_lt] at hCount
      · cases hCount
      · rw [Bytes.leBytes_length, hLength, ← Field.overhead]
        omega

theorem createRecord_wellFormed {tableName recordDef : List UInt8} {fields : List FieldDef}
    {r' : Record} (h : r.createRecord T tableName recordDef fields = some r') :
    r'.WellFormed T := by
  unfold createRecord at h
  split at h
  · cases h
  next hFields =>
  obtain ⟨hNe, hMax⟩ := not_or.mp hFields
  rw [Option.bind_eq_bind, Option.bind_eq_some_iff] at h
  obtain ⟨bufs, hBufs, h⟩ := h
  cases h
  have hAll := mapM_eq_some_iff.mp hBufs
  have hLength : fields.length = bufs.length := hAll.length_eq
  constructor
  · simp only [List.length_append]
    omega
  · exact not_lt.mp hMax
  · intro _
    exact List.length_pos_of_ne_nil hNe
  · intro i hi
    replace hi : i < bufs.length := hLength ▸ hi
    have hBuf : (bufs ++ r.dbRecord.drop fields.length).getD i [] = bufs[i] := by
      rw [List.getD_append _ _ _ _ hi, List.getD_eq_getElem _ _ hi]
    rw [fieldBuf, hBuf]
    exact initField_wellFormed (hAll.get (by omega) hi)

theorem fieldBuf_set {i col : Nat} {buf : List UInt8} (hCol : col < r.dbRecord.length) :
    (r.dbRecord.set col buf).getD i [] = if i = col then buf else r.fieldBuf i := by
  rw [fieldBuf, List.getD_eq_getElem?_getD, List.getD_eq_getElem?_getD, List.getElem?_set]
  by_cases hi : i = col
  · simp [hi, hCol]
  · simp [hi, Ne.symm hi]

/-- One field that changes to a well formed one. -/
theorem WellFormed.set (h : r.WellFormed T) {col : Nat} {buf : List UInt8}
    (hBuf : Field.WellFormed T buf) :
    ({ r with dbRecord := r.dbRecord.set col buf } : Record).WellFormed T := by
  constructor
  · exact h.numFields_le.trans_eq List.length_set.symm
  · exact h.numFields_max
  · intro hNe
    apply h.numFields_pos
    rintro hNil
    simp [hNil] at hNe
  · intro i hi
    by_cases hCol : col < r.dbRecord.length
    · rw [fieldBuf, fieldBuf_set hCol]
      split
      · exact hBuf
      · exact h.field i hi
    · rw [fieldBuf, List.set_eq_of_length_le (by omega)]
      exact h.field i hi

theorem setField_wellFormed (h : r.WellFormed T) {data : List UInt8} {col : Nat}
    {e : RecordStatus} {r' : Record} (hSet : r.setField T data col = some (e, r')) :
    r'.WellFormed T := by
  unfold setField at hSet
  split at hSet
  · cases hSet
    exact h
  next hNe =>
    split at hSet
    · cases hSet
      exact h
    next hCol =>
      have hPos := h.numFields_pos hNe
      rw [Option.bind_eq_bind, Option.bind_eq_some_iff] at hSet
      obtain ⟨buf, hData, hSet⟩ := hSet
      cases hSet
      exact h.set (Field.setData_wellFormed (h.field col (by omega)) hData)

end Record

end DataReel
