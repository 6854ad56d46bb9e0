import DataReel.Table.Rdbms

/-! # Records of an open table

A table keeps its records in a data file and a key of each in the index of the primary key and in those of
the secondary keys. A record is found by the checksums of its fields in the indexes and compared with the
record that is stored, or by a scan of the data file where no index has its field.
-/

namespace DataReel

/-- What the functions for records of an open table go by. -/
structure RecordTable extends Table where
  tableName : List UInt8
  recordDef : List UInt8
  /-- The numbers of the fields of the secondary keys. -/
  secKeyFields : List Int
  dup : Bool
  method : ReclaimMethod
  useBinarySearch : Bool
  useSingleCompare : Bool

/-- The error codes of the functions for records. -/
inductive TableError
  | noError
  | record (err : RecordStatus)
  | badKey
  | recordExists
  | recordNotFound
  | badObjectAddress
  /-- An error of the engine of a file. -/
  | engine
  deriving DecidableEq, Repr

def TableError.ofStatus (err : RecordStatus) : TableError :=
  if err = .noError then .noError else .record err

/-- The files of an open table, with the error code of the data file. -/
structure TableFiles where
  data : Database
  dataError : TableError
  usingIndex : Bool
  indexes : List (Btree RdbmsKey)

namespace TableFiles

variable (F : TableFiles)

def setDataError (err : TableError) : TableFiles := { F with dataError := err }

theorem setDataError_dataError (err : TableError) : (F.setDataError err).dataError = err := rfl

def setIndex (i : Nat) (t : Btree RdbmsKey) : TableFiles := { F with indexes := F.indexes.set i t }

/-- `Delete` of the data file. A block that is not in use is refused with no error code but that of the reading
of its header. -/
def delete (position objectAddress : Int) : Bool × TableFiles :=
  let deleted := F.data.delete position objectAddress false
  let header := F.data.readBlockHdr position (objectAddress - F.data.blockHeaderSize)
  (deleted.1, { F with data := deleted.2, dataError := if deleted.1 ∨ header.isSome then .noError else .engine })

end TableFiles

/-! ## Keys that match -/

/-- What `gxrd_key_field_match` makes of the data of two fields of one type. -/
def keyDataMatch (T : IntTypes) (caseCmp : Bool) (type : FieldType) (a b : List UInt8) : Bool :=
  match type with
  | .blob => true
  | .char | .vchar =>
    let sa := a.takeWhile (· ≠ 0)
    let sb := b.takeWhile (· ≠ 0)
    if caseCmp then sa = sb else upperBytes sa = upperBytes sb
  | .binary => a = b
  | .invalid => false
  | type => ¬ (a.length < type.size T ∨ b.length < type.size T) ∧
      a.take (type.size T) = b.take (type.size T)

namespace Record

variable (T : IntTypes) (a b : Record)

/-- `gxrd_key_field_match`. `none` where it reads outside of a buffer. -/
def keyFieldMatch (col : Nat) (caseCmp : Bool) : Option Bool :=
  if a.dbRecord = [] ∨ b.dbRecord = [] ∨ a.numFields - 1 < col ∨ b.numFields - 1 < col then some false
  else do
    let (typeA, dataA) ← Field.contents T (a.fieldBuf col)
    let (typeB, dataB) ← Field.contents T (b.fieldBuf col)
    if typeA ≠ typeB then return false
    else
      match FieldType.ofId typeA with
      | none => return false
      | some type => return keyDataMatch T caseCmp type dataA dataB

/-- The loop of `gxrd_key_fields_match`, for `n` fields from the field `i` on. -/
def keyFieldsFrom (caseCmp : Bool) : Nat → Nat → Option Bool
  | _, 0 => some true
  | i, n + 1 => do
    if ← a.keyFieldMatch T b i caseCmp then keyFieldsFrom caseCmp (i + 1) n else return false

/-- `gxrd_key_fields_match`. -/
def keyFieldsMatch (field : Nat) (caseCmp : Bool) : Option Bool :=
  if a.numFields ≠ b.numFields then some false
  else if field ≠ 2 ^ 64 - 1 then
    if a.numFields ≤ field then some false else a.keyFieldMatch T b field caseCmp
  else a.keyFieldsFrom T b caseCmp 0 a.numFields

/-- `FieldDataDiskOffset`. `none` where it reads outside of a buffer. -/
def fieldDataDiskOffset (col : Nat) : Option (Except RecordStatus Nat) :=
  if a.dbRecord = [] then some (.error .nullPtr)
  else if a.numFields - 1 < col then some (.error .bufferOverflow)
  else do
    let headers ← (a.dbRecord.take col).mapM (Field.header T)
    return .ok (((headers.map fun h => Field.overhead T + h.2).sum + Field.overhead T) % 2 ^ 64)

end Record

namespace RecordTable

variable (M : RecordTable) (position : Int)

def keyClass : KeyClass RdbmsKey := rdbmsKey M.dup M.useBinarySearch M.useSingleCompare

/-- The table ID of a `gxrdRecordHeader`. -/
def tableId : Nat := tableCrc M.tableName

/-- There are indexes for the secondary keys. -/
def HasSecKeys : Prop := M.secKeyFields ≠ [] ∧ 1 < M.numTrees

instance : Decidable M.HasSecKeys := inferInstanceAs (Decidable (_ ∧ _))

/-- The number of a field from 0 on. -/
def fieldAt (number : Int) : Nat := wordOfInt (number - 1)

/-- `gxrd_field_index`; `none` stands for -1. -/
def fieldIndex (field : Nat) : Option Nat :=
  if M.primaryKey = -1 then if field = 2 ^ 64 - 1 then some 0 else none
  else if field = 2 ^ 64 - 1 then none
  else if field = fieldAt M.primaryKey then some 0
  else if M.HasSecKeys then
    ((M.secKeyFields.take (M.numTrees - 1).toNat).findIdx? fun number => field = fieldAt number).map (· + 1)
  else none

/-- `gxrd_keys_differ`; `none` stands for -1. -/
def keysDiffer (a b : Record) : Option (Option Bool) :=
  let fields := M.keyField :: if M.HasSecKeys then M.secKeyFields.map fieldAt else []
  go fields
where
  go : List Nat → Option (Option Bool)
    | [] => some (some false)
    | field :: fields => do
      let ka ← a.createKey M.types field M.compareCase
      let kb ← b.createKey M.types field M.compareCase
      if ka = 0 ∨ kb = 0 then return none
      else if ka ≠ kb then return some true
      else go fields

/-! ## Indexes

`none` stands for an index that is not there, or an entry that its node does not have. A search changes
nothing in the tree. -/

section Index

variable (i : Nat) (key : RdbmsKey) (F : TableFiles)

def addKey : Option (Bool × TableFiles) := do
  let t ← F.indexes[i]?
  match (gxBtree M.keyClass).step (.insert ⟨0, key⟩ false) t with
  | (.done, t) => return (true, F.setIndex i t)
  | (.zero, t) => return (false, F.setIndex i t)
  | _ => none

/-- `FindKey`, with the key that it passes back. -/
def findKey : Option (Option RdbmsKey) := do
  let t ← F.indexes[i]?
  match ((gxBtree M.keyClass).step (.find key) t).1 with
  | .found key => return some key
  | .zero => return none
  | _ => none

/-- `DeleteKey`, with the key that it leaves if it deletes. -/
def deleteKey : Option (Option RdbmsKey × TableFiles) := do
  let t ← F.indexes[i]?
  match deleteDatabaseKey M.keyClass ⟨0, key⟩ t with
  | .ok key t => return (some key.dbKey, F.setIndex i t)
  | .error (.error _) t => return (none, F.setIndex i t)
  | .error .badEntry _ => none

end Index

/-! ## The keys of a record -/

/-- The loop of `DeleteKey` over the secondary keys from the index `i` on. The key keeps the address of the
entry that was deleted or put in its place before. What a deletion that fails leaves in it is not known. -/
def deleteSecKeys (r : Record) :
    List Int → Nat → RdbmsKey → FAU → TableFiles → Option (TableError × FAU × TableFiles)
  | [], _, _, blockAddress, F => some (.noError, blockAddress, F)
  | number :: numbers, i, key, blockAddress, F => do
    let k ← r.createKey M.types (fieldAt number) M.compareCase
    if k = 0 then return (.badKey, blockAddress, F)
    else
      match ← M.findKey i { key with k := k } F with
      | none => deleteSecKeys r numbers (i + 1) { key with k := k } blockAddress F
      | some key =>
        match ← M.deleteKey i key F with
        | (none, _) => none
        | (some left, F) => deleteSecKeys r numbers (i + 1) left key.kid F

/-- `DeleteKey` of a record, with the block address that it passes back. -/
def deleteKeys (r : Record) (blockAddress : FAU) (F : TableFiles) :
    Option (TableError × FAU × TableFiles) :=
  if F.usingIndex then do
    let k ← r.createKey M.types M.keyField M.compareCase
    if k = 0 then return (.badKey, blockAddress, F.setDataError .badKey)
    else
      let key : RdbmsKey := ⟨k, M.tableId, blockAddress⟩
      match ← M.findKey 0 key F with
      | none =>
        if M.numTrees = 1 then return (.recordNotFound, blockAddress, F)
        else if M.HasSecKeys then M.deleteSecKeys r M.secKeyFields 1 key blockAddress F
        else return (.noError, blockAddress, F)
      | some key =>
        match ← M.deleteKey 0 key F with
        | (none, F) => return (.engine, key.kid, F)
        | (some left, F) =>
          if M.numTrees = 1 then return (.noError, key.kid, F)
          else if M.HasSecKeys then M.deleteSecKeys r M.secKeyFields 1 left key.kid F
          else return (.noError, key.kid, F)
  else some (.noError, blockAddress, F)

/-- The loop of `AddKey` over the secondary keys from the index `i` on. -/
def addSecKeys (r : Record) (blockAddress : FAU) :
    List Int → Nat → TableFiles → Option (TableError × TableFiles)
  | [], _, F => some (.noError, F)
  | number :: numbers, i, F => do
    let k ← r.createKey M.types (fieldAt number) M.compareCase
    -- the keys that are there already stay
    if k = 0 then return (.badKey, F)
    else
      let (added, F) ← M.addKey i ⟨k, M.tableId, blockAddress⟩ F
      if added then addSecKeys r blockAddress numbers (i + 1) F
      else
        let (_, _, F) ← M.deleteKeys r blockAddress F
        return (.engine, F)

/-- `AddKey` of a record. -/
def addKeys (r : Record) (blockAddress : FAU) (F : TableFiles) : Option (TableError × TableFiles) :=
  if F.usingIndex then do
    let k ← r.createKey M.types M.keyField M.compareCase
    if k = 0 then return (.badKey, F)
    else
      let (added, F) ← M.addKey 0 ⟨k, M.tableId, blockAddress⟩ F
      if added then
        if M.HasSecKeys then M.addSecKeys r blockAddress M.secKeyFields 1 F else return (.noError, F)
      else return (.engine, F)
  else some (.noError, F)

/-! ## Reading and writing -/

/-- The record with the definition of the table, made of it where it has another one. -/
def ofTable (r : Record) : RecordStatus × Record :=
  if M.recordDef = r.recordDef then (.noError, r)
  else (M.created.1, { M.created.2 with
    dbRecord := M.created.2.dbRecord ++ r.dbRecord.drop M.created.2.numFields
    excludeFields := r.excludeFields })

/-- `Read` from an address, with the record that it leaves. -/
def readAt (r : Record) (blockAddress : FAU) (F : TableFiles) :
    Option (TableError × Record × TableFiles) :=
  if (F.data.readBlockHdr position blockAddress).isNone then some (.engine, r, F.setDataError .engine)
  else
    match M.ofTable r with
    | (.noError, r) =>
      match M.read F.data position blockAddress r with
      | none => some (.engine, r, F.setDataError .engine)
      | some (.returned err r) =>
        some (.ofStatus err, r, F.setDataError (.ofStatus err))
      | some _ => none
    | (err, r) => some (.record err, r, F.setDataError (.record err))

/-- `Write`, with the block address that it passes back. A block whose keys cannot be added is deleted. -/
def write (r : Record) (blockAddress : FAU) (F : TableFiles) : Option (TableError × FAU × TableFiles) :=
  if M.recordDef ≠ r.recordDef then
    some (.record .badRecord, blockAddress, F.setDataError (.record .badRecord))
  else do
    match ← r.createDiskRecord M.types with
    | .error err => return (.record err, blockAddress, F.setDataError (.record err))
    | .ok diskRecord =>
      let (recordAddress, d) ←
        F.data.alloc (F.data.fileSize.toNat + 1) position diskRecord.length M.method
      let blockAddress := recordAddress - d.blockHeaderSize
      let F := { F with data := d.writeBytes recordAddress diskRecord, dataError := .noError }
      let (err, F) ← M.addKeys r blockAddress F
      if err = .noError then return (.noError, blockAddress, F.setDataError .noError)
      else return (err, blockAddress, (F.delete position recordAddress).2)

/-! ## Searches -/

/-- What a search leaves: the block address or 0, the record and the files. -/
structure Found where
  address : FAU
  record : Record
  files : TableFiles

/-- The loop of `Find` over the keys with one value goes on to the next key. -/
def dupNext (r : Record) (t : Btree RdbmsKey) (s : RdbmsKey × Record × TableFiles) :
    Option Found ⊕ (RdbmsKey × Record × TableFiles) :=
  let (key, found, F) := s
  match ((gxBtree M.keyClass).step (.findNext key) t).1 with
  | .found key => .inr (key, found, F)
  | .zero => .inl (some ⟨0, r, F.setDataError .recordNotFound⟩)
  | _ => .inl none

/-- A turn of the loop: the key, the record that is read and the files. -/
def dupTurn (r : Record) (field k : Nat) (t : Btree RdbmsKey) (s : RdbmsKey × Record × TableFiles) :
    Option Found ⊕ (RdbmsKey × Record × TableFiles) :=
  let (key, found, F) := s
  if key.k ≠ k then .inl (some ⟨0, r, F.setDataError .recordNotFound⟩)
  else
    match M.readAt position found key.kid F with
    | some (.noError, found, F) =>
      match found.keyFieldsMatch M.types r field M.compareCase with
      | none => .inl none
      | some true => .inl (some ⟨key.kid, r, F.setDataError .noError⟩)
      | some false => M.dupNext r t (key, found, F)
    | some (_, _, F) => .inl (some ⟨0, r, F⟩)
    | none => .inl none

/-- More turns than there are addresses. -/
def findTurns : Nat := 2 ^ 64

/-- `Find` by the index `i`. -/
def findByKey (r : Record) (field i : Nat) (F : TableFiles) : Option Found := do
  let k ← r.createKey M.types field M.compareCase
  if k = 0 then return ⟨0, r, F.setDataError .badKey⟩
  else
    let key : RdbmsKey := ⟨k, M.tableId, 0⟩
    if M.dup then
      match F.indexes[i]? with
      | none => return ⟨0, r, F⟩
      | some t =>
        match (searched (partialFind M.keyClass key) t).1 with
        | .found key =>
          (Loop.result (M.dupTurn position r field k t) findTurns (key, M.created.2, F)).join
        | .zero => return ⟨0, r, F.setDataError .recordNotFound⟩
        | _ => none
    else
      match ← M.findKey i key F with
      | none => return ⟨0, r, F⟩
      | some key =>
        match ← M.readAt position M.created.2 key.kid F with
        | (.noError, found, F) =>
          if ← found.keyFieldsMatch M.types r field M.compareCase then
            return ⟨key.kid, r, F.setDataError .noError⟩
          else return ⟨0, r, F.setDataError .recordNotFound⟩
        | (_, _, F) => return ⟨0, r, F⟩

/-- How the scan of `Find` loads a block; a record is `none` where that goes outside of a buffer. -/
def loadScanned (bytes : List UInt8) (r : Option Record) : Option RecordError × Option Record :=
  match r with
  | none => (none, none)
  | some r =>
    match r.loadDiskRecord M.types bytes with
    | .returned .noError r => (none, some r)
    | .returned .badTableId r => (some .badTableId, some r)
    | .returned .badRecord r => (some .badRecord, some r)
    | .returned _ r => (some .other, some r)
    | _ => (none, none)

/-- `Find` by a scan of the data file. A record that is found takes the place of the one that was searched
for, unless all fields were. -/
def findByScan (r : Record) (field : Nat) (caseCmp alphaCmp : Bool) (F : TableFiles) : Option Found := do
  let compare (found : Record) := Record.compare M.types found r field ⟨caseCmp, alphaCmp, false⟩
  let stops (found : Option Record) : Bool := (found.bind compare).all (· = 0)
  let (address, found) ← rdbmsFind M.loadScanned stops false findTurns F.data position (some M.created.2)
  let F := { F with data := F.data.getEOF.2.testFileHeader }
  match found with
  | none => return ⟨0, r, F⟩
  | some found =>
    let found ← found
    let _ ← compare found
    return ⟨address, if field = 2 ^ 64 - 1 then r else found, F.setDataError .noError⟩

def find (r : Record) (field : Nat) (caseCmp alphaCmp : Bool) (F : TableFiles) : Option Found :=
  match M.ofTable r with
  | (.noError, r) =>
    match M.fieldIndex field with
    | some i =>
      if F.usingIndex then M.findByKey position r field i F
      else M.findByScan position r field caseCmp alphaCmp F
    | none => M.findByScan position r field caseCmp alphaCmp F
  | (err, r) => some ⟨0, r, F.setDataError (.record err)⟩

/-- The loop of `FindKey` over the secondary keys. -/
def findSecKeys : List Int → Record → TableFiles → Option Found
  | [], r, F => some ⟨0, r, F⟩
  | number :: numbers, r, F => do
    let s ← M.find position r (fieldAt number) M.compareCase M.compareAlpha F
    if s.address ≠ 0 then return s else findSecKeys numbers s.record s.files

/-- `FindKey` of a record. -/
def findRecordKey (r : Record) (F : TableFiles) : Option Found := do
  let s ← M.find position r M.keyField M.compareCase M.compareAlpha F
  if s.address ≠ 0 then return s
  else if M.HasSecKeys then M.findSecKeys position M.secKeyFields s.record s.files
  else return s

/-! ## Records

What a call returns, with the record, the block address and the files that it leaves. -/

structure RecordOutcome where
  result : Bool
  record : Record
  address : FAU
  files : TableFiles

def addRecord (r : Record) (F : TableFiles) : Option RecordOutcome := do
  let s ← if M.dup then some ⟨0, r, F⟩ else M.findRecordKey position r F
  if s.address ≠ 0 then return ⟨false, s.record, s.address, s.files.setDataError .recordExists⟩
  else
    let (err, blockAddress, F) ← M.write position s.record 0 s.files
    return ⟨err = .noError, s.record, blockAddress, F⟩

def readRecord (r : Record) (blockAddress : FAU) (F : TableFiles) : Option RecordOutcome := do
  let (err, r, F) ← M.readAt position r blockAddress F
  return ⟨err = .noError, r, blockAddress, F⟩

def findRecord (r : Record) (loadRecord : Bool) (F : TableFiles) : Option RecordOutcome := do
  let s ← M.findRecordKey position r F
  if s.address = 0 then return ⟨false, s.record, 0, s.files.setDataError .recordNotFound⟩
  else if loadRecord then
    let o ← M.readRecord position s.record s.address s.files
    return { o with result := true }
  else return ⟨true, s.record, s.address, s.files⟩

def deleteRecord (r : Record) (F : TableFiles) : Option RecordOutcome :=
  if M.recordDef ≠ r.recordDef then some ⟨false, r, 0, F.setDataError (.record .badRecord)⟩
  else if F.usingIndex then do
    let s ← M.findRecordKey position r F
    if s.address = 0 then return ⟨false, s.record, 0, s.files.setDataError .recordNotFound⟩
    else
      match ← M.readAt position s.record s.address s.files with
      | (.noError, r, F) =>
        let (err, blockAddress, F) ← M.deleteKeys r s.address F
        if err = .noError then
          let (deleted, F) := F.delete position (blockAddress + F.data.blockHeaderSize)
          return ⟨deleted, r, blockAddress, F⟩
        else return ⟨false, r, blockAddress, F⟩
      | (_, r, F) => return ⟨false, r, s.address, F⟩
  else do
    let s ← M.find position r M.keyField M.compareCase M.compareAlpha F
    if s.address = 0 then return ⟨false, s.record, 0, s.files⟩
    else
      let (deleted, F) := s.files.delete position (s.address + s.files.data.blockHeaderSize)
      return ⟨deleted, s.record, s.address, F⟩

/-- `delete_record`. -/
def deleteBlock (blockAddress : FAU) (F : TableFiles) : Bool × TableFiles :=
  if blockAddress = 0 then (false, F.setDataError .badObjectAddress)
  else F.delete position (blockAddress + F.data.blockHeaderSize)

/-- The keys are deleted, the block is, and another record is written. -/
def reinsert (old new : Record) (blockAddress : FAU) (F : TableFiles) :
    Option (Bool × FAU × TableFiles) := do
  let (err, _, F) ← M.deleteKeys old blockAddress F
  if err ≠ .noError then return (false, blockAddress, F)
  else
    let (deleted, F) := deleteBlock position blockAddress F
    if deleted then
      let (err, blockAddress, F) ← M.write position new blockAddress F
      return (err = .noError, blockAddress, F)
    else return (false, blockAddress, F)

/-- A record without a definition. -/
def noRecord : Record := ⟨[], [], 0, [], []⟩

def overWriteRecord (r : Record) (blockAddress : FAU) (F : TableFiles) :
    Option (Bool × FAU × TableFiles) :=
  if M.recordDef ≠ r.recordDef then
    some (false, blockAddress, F.setDataError (.record .badRecord))
  else
    match F.data.readBlockHdr position blockAddress with
    | none => some (false, blockAddress, F.setDataError .engine)
    | some hdr => do
      let length := (F.data.recordLength hdr + 2 ^ 64 - Record.headerSizeOf M.types) % 2 ^ 64
      if (← r.sizeOf M.types) ≠ length then
        match ← M.readAt position noRecord blockAddress F with
        | (.noError, old, F) => M.reinsert position old r blockAddress F
        | (_, _, F) => return (false, blockAddress, F)
      else
        match ← r.createDiskRecord M.types with
        | .error err => return (false, blockAddress, F.setDataError (.record err))
        | .ok diskRecord =>
          let start := Database.readPosition position blockAddress + F.data.blockHeaderSize
          return (true, blockAddress,
            { F with data := F.data.writeBytes start diskRecord, dataError := .noError })

/-- Deletes the keys of a record and adds those of another one in its place, if they differ. -/
def rekey (old new : Record) (blockAddress : FAU) (F : TableFiles) : Option (TableError × TableFiles) :=
  if F.usingIndex then do
    match ← M.keysDiffer old new with
    | none => return (.badKey, F.setDataError .badKey)
    | some false => return (.noError, F.setDataError .noError)
    | some true =>
      let (err, _, F) ← M.deleteKeys old blockAddress F
      -- the error of the data file is returned, whatever went wrong with the index
      if err ≠ .noError then return (F.dataError, F) else M.addKeys new blockAddress F
  else some (.noError, F.setDataError .noError)

/-- `change_or_add_record`, with the record `from` and the block address that it leaves. -/
def changeOrAddRecord (old new : Record) (add : Bool) (blockAddress : FAU) (F : TableFiles) :
    Option (TableError × Record × FAU × TableFiles) :=
  if M.recordDef ≠ old.recordDef ∨ M.recordDef ≠ new.recordDef then
    some (.record .badRecord, old, blockAddress, F.setDataError (.record .badRecord))
  else do
    let o ← if blockAddress = 0 then M.findRecord position old true F else some ⟨true, old, blockAddress, F⟩
    let (old, F) := (o.record, o.files)
    if !o.result then
      if add then
        let (err, blockAddress, F) ← M.write position new 0 F
        return (err, old, blockAddress, F)
      else return (.recordNotFound, old, 0, F.setDataError .recordNotFound)
    -- an error of a call before this one is still there after `Tell`
    else if o.address = gxCurrAddress ∧ F.dataError ≠ .noError then return (F.dataError, old, position, F)
    else
      let blockAddress := Database.readPosition position o.address
      if (← old.sizeOf M.types) ≠ (← new.sizeOf M.types) then
        let (done, blockAddress, F) ← M.reinsert position old new blockAddress F
        -- the error of the data file is returned, whatever went wrong with the index
        if done then return (.noError, old, blockAddress, F.setDataError .noError)
        else return (F.dataError, old, blockAddress, F)
      else
        let (done, address, F) ← M.overWriteRecord position new blockAddress F
        if !done then return (F.dataError, old, address, F)
        else if blockAddress ≠ address then return (.noError, old, address, F.setDataError .noError)
        else
          let (err, F) ← M.rekey old new address F
          return (err, old, address, F)

/-- `ChangeRecord`, and `ChangeOrAdd` where a record that is not found is added. -/
def changeRecord (old new : Record) (add : Bool) (blockAddress : FAU) (F : TableFiles) :
    Option RecordOutcome := do
  let (err, old, blockAddress, F) ← M.changeOrAddRecord position old new add blockAddress F
  return ⟨err = .noError, old, blockAddress, F⟩

/-- What `ChangeRecordField` does about the keys once the field is written. -/
def rekeyField (prev record : Record) (blockAddress : FAU) (F : TableFiles) : Option (Bool × TableFiles) :=
  if F.usingIndex then do
    match ← M.keysDiffer record prev with
    | none => return (false, F.setDataError .badKey)
    | some false => return (true, F.setDataError .noError)
    | some true =>
      let (err, _, F) ← M.deleteKeys prev blockAddress F
      if err ≠ .noError then return (false, F)
      else
        let (err, F) ← M.addKeys record blockAddress F
        return (err = .noError, F)
  else some (true, F)

/-- `ChangeRecordField` from where it has the record before and after the change. -/
def putField (prev record : Record) (data : List UInt8) (col : Nat) (blockAddress : FAU) (F : TableFiles) :
    Option (Bool × FAU × TableFiles) := do
  if (← record.sizeOf M.types) ≠ (← prev.sizeOf M.types) then
    M.reinsert position prev record blockAddress F
  else
    match ← record.fieldDataDiskOffset M.types col with
    | .error err => return (false, blockAddress, F.setDataError (.record err))
    | .ok offset =>
      let start := blockAddress + F.data.blockHeaderSize + Record.headerSizeOf M.types + offset
      let F := { F with data := F.data.writeBytes start data, dataError := .noError }
      let (done, F) ← M.rekeyField prev record blockAddress F
      return (done, blockAddress, F)

/-- `ChangeRecordField`, with the block address that it leaves. -/
def changeRecordField (data : List UInt8) (col : Nat) (blockAddress : FAU) (F : TableFiles) :
    Option (Bool × FAU × TableFiles) :=
  if blockAddress = 0 then some (false, 0, F.setDataError .recordNotFound)
  else if M.created.1 ≠ .noError then some (false, blockAddress, F.setDataError (.record M.created.1))
  else do
    match ← M.readAt position M.created.2 blockAddress F with
    | (.noError, prev, F) =>
      let (err, record) ← prev.setField M.types data col
      if err ≠ .noError then return (false, blockAddress, F.setDataError (.record err))
      else if blockAddress ≠ gxCurrAddress then M.putField position prev record data col blockAddress F
      else
        -- behind the record that was read
        let hdr ← F.data.readBlockHdr position blockAddress
        let blockAddress : Int := position + F.data.blockHeaderSize + F.data.recordLength hdr
        M.putField position prev record data col blockAddress F
    | (_, _, F) => return (false, blockAddress, F)

/-! ## Indexes that are rebuilt -/

/-- The field of the index `i` as `insert_key` takes it. -/
def indexField (i : Nat) : Option Nat :=
  if M.primaryKey = -1 then some (2 ^ 64 - 1)
  else if i = 0 then some (fieldAt M.primaryKey)
  else M.secKeyFields[i - 1]?.map fieldAt

/-- `insert_key` for a record that a scan has loaded. There is no tree any more where that goes outside of a
buffer. -/
def insertKey (i : Nat) (t : Option (Btree RdbmsKey)) (r : Option Record) (blockAddress : Int) :
    Option (Option (Btree RdbmsKey)) := do
  let field ← M.indexField i
  match t, r.bind fun r => r.createKey M.types field M.compareCase with
  | some t, some k =>
    if k = 0 then none
    else
      match (gxBtree M.keyClass).step (.insert ⟨0, ⟨k, M.tableId, blockAddress⟩⟩ false) t with
      | (.done, t) => some (some t)
      | (.zero, _) => none
      | _ => some none
  | _, _ => some none

/-- `rebuild_index` with the tree that `CreateIndex` makes: what it returns, the number of keys and the files.
The indexes stay off if it fails, and if there is no block. -/
def rebuildIndex (position : Fin 3 → Int) (i : Nat) (t : Btree RdbmsKey) (F : TableFiles) :
    Option (Int × Nat × TableFiles) :=
  if wordOfInt (M.numTrees - 1) < i then some (0, 0, F)
  else do
    let (code, t, keys) ←
      DataReel.rebuildIndex M.loadScanned (M.insertKey i) findTurns F.data position (some M.created.2) (some t)
    let t ← t
    let d := F.data.getEOF.2.testFileHeader
    let F := { F with data := d, usingIndex := code = 1 ∧ d.firstBlock (position 0) 0 ≠ 0 }
    return (code, keys, F.setIndex i t)

end RecordTable

/-! ## Calls -/

/-- The calls on the records of a table. -/
inductive TableCall
  | add (r : Record)
  | find (r : Record) (loadRecord : Bool)
  | delete (r : Record)
  | change (old new : Record) (orAdd : Bool)
  | changeField (data : List UInt8) (col : Nat) (blockAddress : FAU)

def TableCall.perform (M : RecordTable) (position : Int) :
    TableCall → TableFiles → Option RecordTable.RecordOutcome
  | add r, F => M.addRecord position r F
  | find r loadRecord, F => M.findRecord position r loadRecord F
  | delete r, F => M.deleteRecord position r F
  | change old new orAdd, F => M.changeRecord position old new orAdd 0 F
  | changeField data col blockAddress, F =>
    (M.changeRecordField position data col blockAddress F).map fun o => ⟨o.1, RecordTable.noRecord, o.2.1, o.2.2⟩

/-- What a call returns and leaves of its record and its block address. `ChangeRecordField` has no record. -/
structure TableReply where
  result : Bool
  record : Record
  address : FAU

/-- A call comes with the position of the data file. It replies if it returns. -/
def tableCalls (M : RecordTable) : Machine (Int × TableCall) (Option TableReply) TableFiles where
  step c F :=
    match c.2.perform M c.1 F with
    | none => (none, F)
    | some o => (some ⟨o.result, o.record, o.address⟩, o.files)

end DataReel
