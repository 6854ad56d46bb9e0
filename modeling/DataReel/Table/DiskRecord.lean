import DataReel.Table.Record
import DataReel.Database.Crc32

/-! # Records on disk

A record on disk is a header with the table and the number of fields, and the fields one
after another. A field that is excluded keeps its type and a number of bytes. The writer
and the reader go over it with offsets of their own.
-/

namespace DataReel

/-- `gxrdRecordHeader::GetCRC`. -/
def tableCrc (tableName : List UInt8) : Nat := if tableName = [] then 0 else calcCRC32 tableName

namespace Record

variable (T : IntTypes) (r : Record)

/-- `gxrdRecordHeader::SizeOf`. -/
def headerSizeOf : Nat := T.wordSize + T.wordSize

/-- The bytes of a `gxrdRecordHeader`. -/
def headerBytes (tableId numFields : Nat) : List UInt8 :=
  Bytes.leBytes T.wordSize tableId ++ Bytes.leBytes T.wordSize numFields

/-! ## Writing -/

/-- The locals of `CreateDiskRecord`. -/
structure WriteState where
  diskRecord : List UInt8
  bufOffset : Nat
  fieldLen : Nat

/-- A turn of the loop of `CreateDiskRecord`. `none` where it goes outside of a buffer. -/
def writeField (i : Nat) (s : WriteState) : Option WriteState := do
  let (typeId, numBytes) ← Field.header T (r.fieldBuf i)
  let diskRecord ← poke s.diskRecord s.bufOffset [typeId]
  let bufOffset := s.bufOffset + 1
  let numBytes := if r.Excludes i then 0 else numBytes
  let diskRecord ← poke diskRecord bufOffset (Bytes.leBytes T.wordSize numBytes)
  let bufOffset := bufOffset + T.wordSize
  if numBytes = 0 then
    return { s with diskRecord := diskRecord, bufOffset := bufOffset }
  let fieldLen := s.fieldLen + (Field.overhead T + numBytes)
  let diskRecord := if diskRecord.length < fieldLen then resize 0 diskRecord fieldLen else diskRecord
  let data ← peek (r.fieldBuf i) (Field.overhead T) numBytes
  let diskRecord ← poke diskRecord bufOffset data
  return { diskRecord := diskRecord, bufOffset := bufOffset + numBytes, fieldLen := fieldLen }

/-- The loop, for `n` fields from the field `i` on. -/
def writeFields : Nat → Nat → WriteState → Option WriteState
  | _, 0, s => some s
  | i, n + 1, s => do
    let s ← r.writeField T i s
    writeFields (i + 1) n s

/-- `CreateDiskRecord`. `none` where it goes outside of a buffer or the bytes are more than a vector
holds. -/
def createDiskRecord : Option (Except RecordStatus (List UInt8)) :=
  if r.dbRecord = [] then some (.error .nullPtr)
  else do
    let size ← r.sizeOf T
    let length := (size + headerSizeOf T) % 2 ^ 64
    if vectorMax < length then none
    else do
      let diskRecord ← poke (List.replicate length 0) 0 (headerBytes T (tableCrc r.tableName) r.numFields)
      let s ← r.writeFields T 0 r.numFields ⟨diskRecord, headerSizeOf T, 0⟩
      return .ok s.diskRecord

/-! ## Reading -/

/-- How `LoadDiskRecord` ends. -/
inductive Loaded
  | returned (err : RecordStatus) (r : Record)
  /-- A vector cannot become so long. -/
  | thrown (r : Record)
  /-- A read or a write outside of a buffer. -/
  | outside
  deriving DecidableEq

/-- The locals of `LoadDiskRecord` with the record. -/
structure ReadState where
  record : Record
  byteCount : Nat
  bufOffset : Nat

/-- A value that is there, if the access is inside its buffer. -/
def inside {α : Type} : Option α → Except Loaded α
  | none => .error .outside
  | some a => .ok a

/-- The record with another buffer of a field. -/
def setBuf (i : Nat) (buf : List UInt8) : Record := { r with dbRecord := r.dbRecord.set i buf }

/-- The buffer, made as long as `fieldLen` if it is shorter. -/
def grow (r : Record) (buf : List UInt8) (fieldLen : Nat) : Except Loaded (List UInt8) :=
  if buf.length < fieldLen then
    if vectorMax < fieldLen then .error (.thrown r) else .ok (resize 0 buf fieldLen)
  else .ok buf

/-- The type and the number of bytes of the next field; the count of bytes is tested before each. -/
def readHeader (diskRecord : List UInt8) (s : ReadState) : Except Loaded (UInt8 × Nat × ReadState) := do
  let byteCount := (s.byteCount + 1) % 2 ^ 64
  if diskRecord.length < byteCount then .error (.returned .badRecord s.record)
  else do
    let typeId ← inside (peek diskRecord s.bufOffset 1)
    let bufOffset := s.bufOffset + 1
    let byteCount := (byteCount + T.wordSize) % 2 ^ 64
    if diskRecord.length < byteCount then .error (.returned .badRecord s.record)
    else do
      let numBytes ← inside (peek diskRecord bufOffset T.wordSize)
      return (typeId.headD 0, Bytes.leNat numBytes,
        { s with byteCount := byteCount, bufOffset := bufOffset + T.wordSize })

/-- A turn of the loop of `LoadDiskRecord`. -/
def readField (diskRecord : List UInt8) (i : Nat) (s : ReadState) : Except Loaded ReadState := do
  let (typeId, numBytes, s) ← readHeader T diskRecord s
  let fieldLen := Field.overhead T
  let buf ← grow s.record (s.record.fieldBuf i) fieldLen
  let buf ← inside (poke buf 0 [typeId])
  let numBytes := if s.record.Excludes i then 0 else numBytes
  let buf ← inside (poke buf 1 (Bytes.leBytes T.wordSize numBytes))
  -- the number of bytes is in the record before it is tested
  let r := s.record.setBuf i buf
  let byteCount := (s.byteCount + numBytes) % 2 ^ 64
  if diskRecord.length < byteCount then .error (.returned .badRecord r)
  else if numBytes = 0 then return { record := r, byteCount := byteCount, bufOffset := s.bufOffset }
  else do
    let fieldLen := (fieldLen + numBytes) % 2 ^ 64
    let buf ← grow r buf fieldLen
    let data ← inside (peek diskRecord s.bufOffset numBytes)
    let buf ← inside (poke buf (Field.overhead T) data)
    return { record := r.setBuf i buf, byteCount := byteCount, bufOffset := s.bufOffset + numBytes }

/-- The loop, for `n` fields from the field `i` on. -/
def readFields (diskRecord : List UInt8) : Nat → Nat → ReadState → Except Loaded ReadState
  | _, 0, s => .ok s
  | i, n + 1, s => do
    let s ← readField T diskRecord i s
    readFields diskRecord (i + 1) n s

/-- `LoadDiskRecord`. -/
def loadDiskRecord (diskRecord : List UInt8) : Loaded :=
  if r.dbRecord = [] then .returned .nullPtr r
  else
    match peek diskRecord 0 T.wordSize, peek diskRecord T.wordSize T.wordSize with
    | some tableId, some numFields =>
      if Bytes.leNat tableId ≠ tableCrc r.tableName then .returned .badTableId r
      else if r.numFields < Bytes.leNat numFields then .returned .badRecord r
      else
        match readFields T diskRecord 0 (Bytes.leNat numFields) ⟨r, headerSizeOf T, headerSizeOf T⟩ with
        | .ok s => .returned .noError s.record
        | .error e => e
    | _, _ => .outside

end Record

end DataReel
