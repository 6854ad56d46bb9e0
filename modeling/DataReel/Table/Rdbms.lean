import DataReel.Btree.Calls
import DataReel.Database.NormalBlocks
import DataReel.Library.OrderedSet
import DataReel.Table.RecordKey

/-! # Lists of a table and the test of its index

`SortOrderList`, `Search` and `VerifyIndex` walk over the keys of an index with a key object of
their own, which does not compare the addresses of records, and read the record of each key. The
lists are ordered by the settings for the primary key, which a record has only while it is put in.
-/

namespace DataReel

/-! ## Keys -/

/-- `gxrdDatabaseKey_t`. -/
structure RdbmsKey where
  k : Nat
  tid : Nat
  kid : FAU
  deriving DecidableEq, Repr

namespace RdbmsKey

/-- `operator==`; the setting is that of the key on the left. -/
def operatorEq (allowDupNames : Bool) (a b : RdbmsKey) : Bool :=
  if !allowDupNames then a.k = b.k else a.k = b.k ∧ a.kid = b.kid

/-- `operator>`. -/
def operatorGt (allowDupNames : Bool) (a b : RdbmsKey) : Bool :=
  if !allowDupNames then b.k < a.k
  else if b.k < a.k then true
  else if a.k < b.k then false
  else b.kid < a.kid

def compareKey (allowDupNames : Bool) (a b : RdbmsKey) : Int :=
  let rv := if a.k = b.k then 0 else if b.k < a.k then 1 else -1
  if !allowDupNames then rv
  else if rv = 0 then if b.kid < a.kid then 1 else if a.kid < b.kid then -1 else rv
  else rv

end RdbmsKey

/-- `gxrdDatabaseKey` with `allow_dup_names`. -/
def rdbmsKey (allowDupNames useBinarySearch useSingleCompare : Bool) : KeyClass RdbmsKey where
  operatorGt := RdbmsKey.operatorGt allowDupNames
  operatorEq := RdbmsKey.operatorEq allowDupNames
  compareKey := RdbmsKey.compareKey allowDupNames
  useBinarySearch := useBinarySearch
  useSingleCompare := useSingleCompare

/-! ## Records with settings -/

/-- A record with the settings that its operators compare by. -/
structure ListRecord where
  record : Record
  compareField : Int
  compareCase : Bool
  compareAlpha : Bool

namespace ListRecord

/-- `set_record_parms`. The field is kept in an `int`. -/
def setParms (r : ListRecord) (field : Nat) (caseCmp alphaCmp : Bool) : ListRecord where
  record := r.record
  compareField := signedValue 4 (field % 2 ^ 32)
  compareCase := caseCmp
  compareAlpha := alphaCmp

/-- `operator<`. `none` where the comparison goes outside of a buffer. -/
def lessThan (T : IntTypes) (a b : ListRecord) : Option Bool :=
  (Record.compare T a.record b.record (wordOfInt a.compareField)
    ⟨a.compareCase, a.compareAlpha, false⟩).map fun v => decide (v < 0)

end ListRecord

/-- What an open table has for its list functions. -/
structure Table where
  types : IntTypes
  /-- What `CreateRecord` makes of the record definition. -/
  created : RecordStatus × Record
  numTrees : Int
  /-- The number of the primary key's field, -1 for all fields. -/
  primaryKey : Int
  compareCase : Bool
  compareAlpha : Bool

/-- What a list function returns. -/
inductive ListStatus
  | noError
  | badIndexNumber
  | badRangeLimit
  | bufferOverflow
  | record (err : RecordStatus)
  /-- An error of the data file. -/
  | dataFile
  deriving DecidableEq, Repr

/-- What a list function returns and leaves in `virtual_list`, and the addresses of the records that
it has read. -/
structure Listed where
  status : ListStatus
  list : List ListRecord
  reads : List FAU

/-- What the loop of a list function does with the keys. -/
structure ListWalk where
  field : Nat
  caseCmp : Bool
  alphaCmp : Bool
  /-- Whether the record of the first key is read. -/
  takesFirst : Bool
  /-- Whether the record of a key is read, by the number of keys before it. -/
  takes : Int → Bool
  /-- Whether the list is complete, by the number of records so far. -/
  complete : Int → Bool
  /-- Whether a record is put in. -/
  wanted : Record → Option Bool

/-- The locals of a list function, with the tree and the file position. -/
structure ListState where
  key : RdbmsKey
  tree : Btree RdbmsKey
  position : Int
  record : ListRecord
  list : List ListRecord
  recordCount : Int
  keyCount : Int
  reads : List FAU

/-- Where a read of a record leaves the file position. -/
def Database.recordEnd (d : Database) (position : Int) (address : FAU) : Int :=
  let start := Database.readPosition position address + d.blockHeaderSize
  match d.readBlockHdr position address with
  | none => start
  | some hdr => start + d.recordLength hdr

namespace Table

variable (M : Table) (K : KeyClass RdbmsKey) (d : Database)

/-- The field that a list is ordered by. -/
def keyField : Nat := wordOfInt (if M.primaryKey = -1 then -1 else M.primaryKey - 1)

/-- The settings that a list is ordered by. -/
def byKey (r : ListRecord) : ListRecord := r.setParms M.keyField M.compareCase M.compareAlpha

/-- `Read(r, block_address)` with a record of the table's definition; `none` if the engine fails to
read, with an error. -/
def read (position : Int) (address : FAU) (r : Record) : Option Record.Loaded :=
  (d.readBlockHdr position address).bind fun hdr =>
    let start := Database.readPosition position address + d.blockHeaderSize
    let length := d.recordLength hdr
    if vectorMax < length then some (.thrown r)
    else if length = 0 ∨ start + length ≤ d.fileSize then
      some (r.loadDiskRecord M.types (d.file.get start length))
    else none

/-- Reads the record of the key and puts it in if it is wanted. `none` where that goes outside of a
buffer or runs out of memory. -/
def listRecord (W : ListWalk) (s : ListState) : Option (ListStatus ⊕ ListState) :=
  match M.read d s.position s.key.kid s.record.record with
  | none => some (.inl .dataFile)
  | some (.returned .noError r) => do
    let record := { s.record with record := r }
    let s := { s with
      record := record
      position := d.recordEnd s.position s.key.kid
      recordCount := s.recordCount + 1
      reads := s.reads ++ [s.key.kid] }
    if ← W.wanted r then
      -- The list is ordered by the primary key, whatever the list is asked for.
      let record := M.byKey record
      let list ← setInsert (ListRecord.lessThan M.types) record s.list
      return .inr { s with record := record.setParms W.field W.caseCmp W.alphaCmp, list := list }
    else return .inr s
  | some (.returned err _) => some (.inl (.record err))
  | some _ => none

/-- A turn of the loop. -/
def listTurn (W : ListWalk) (s : ListState) : Option Listed ⊕ ListState :=
  match (gxBtree K).step (.findNext s.key) s.tree with
  | (.found key, tree) =>
    let s := { s with key := key, tree := tree }
    if W.complete s.recordCount then .inl (some ⟨.noError, s.list, s.reads⟩)
    else if W.takes s.keyCount then
      match M.listRecord d W s with
      | none => .inl none
      | some (.inl err) => .inl (some ⟨err, s.list, s.reads⟩)
      | some (.inr s) => .inr { s with keyCount := s.keyCount + 1 }
    else .inr { s with keyCount := s.keyCount + 1 }
  | (.zero, _) => .inl (some ⟨.noError, s.list, s.reads⟩)
  | _ => .inl none

/-- The walk of a list function over an index; the loop takes at most `n` turns. -/
def listKeys (W : ListWalk) (n : Nat) (position : Int) (t : Btree RdbmsKey) : Option Listed :=
  let record := ListRecord.setParms ⟨M.created.2, -1, true, false⟩ W.field W.caseCmp W.alphaCmp
  match (gxBtree K).step .findFirst t with
  | (.found key, tree) =>
    let s : ListState := ⟨key, tree, position, record, [], 0, 0, []⟩
    let loop (s : ListState) : Option Listed :=
      (Loop.result (M.listTurn K d W) n { s with keyCount := s.keyCount + 1 }).join
    if W.takesFirst then
      match M.listRecord d W s with
      | none => none
      | some (.inl err) => some ⟨err, [], []⟩
      | some (.inr s) => loop s
    else loop s
  | (.zero, _) => some ⟨.noError, [], []⟩
  | _ => none

/-- What both list functions test before they walk, with the number of normal blocks; `none` if they
walk. -/
def listTests (field : Nat) (blocks : Int) (ranges : Bool) : Option ListStatus :=
  if blocks = 0 then some .noError
  else if !ranges then some .badRangeLimit
  else if M.created.1 ≠ .noError then some (.record M.created.1)
  else if field ≠ 2 ^ 64 - 1 ∧ M.created.2.numFields < field then some .bufferOverflow
  else none

/-- The field number that a function passes on. -/
def fieldOf (number : Nat) : Nat :=
  if number = 2 ^ 64 - 1 then 2 ^ 64 - 1 else wordOfInt (number - 1)

/-- The walk of `SortOrderList`. -/
def sortOrderWalk (keyNumber : Nat) (caseCmp alphaCmp : Bool) (listLimit listStart listEnd : FAU) :
    ListWalk where
  field := fieldOf keyNumber
  caseCmp := caseCmp
  alphaCmp := alphaCmp
  takesFirst := listStart = 0 ∨ listStart = 1
  takes keyCount := listStart ≤ keyCount
  complete recordCount :=
    listEnd - listStart + 1 ≤ recordCount ∨ listLimit ≤ recordCount ∨ listEnd ≤ recordCount
  wanted _ := some true

def sortOrderList (indexNumber keyNumber : Nat) (caseCmp alphaCmp : Bool)
    (listLimit listStart listEnd : FAU) (n : Nat) (position : Fin 3 → Int) (t : Btree RdbmsKey) :
    Option Listed := do
  if wordOfInt (M.numTrees - 1) < indexNumber then return ⟨.badIndexNumber, [], []⟩
  let (blocks, d) ← d.normalBlocksRun n (position 0) (position 1)
  let ranges := ¬ blocks < listStart ∧ ¬ blocks < listEnd ∧ ¬ listEnd < listStart ∧
    ¬ blocks < listEnd - listStart
  match M.listTests keyNumber blocks ranges with
  | some status => return ⟨status, [], []⟩
  | none =>
    M.listKeys K d (sortOrderWalk keyNumber caseCmp alphaCmp listLimit listStart listEnd) n
      (position 2) t

/-- The walk of `Search`. -/
def searchWalk (compareRecord : Record) (searchField : Nat) (caseCmp alphaCmp findAllMatches : Bool)
    (listLimit : FAU) : ListWalk where
  field := fieldOf searchField
  caseCmp := caseCmp
  alphaCmp := alphaCmp
  takesFirst := true
  takes _ := true
  complete recordCount := listLimit ≤ recordCount
  wanted r := (Record.compare M.types r compareRecord (fieldOf searchField)
    ⟨caseCmp, alphaCmp, findAllMatches⟩).map (· = 0)

/-- `Search` with a search record. -/
def search (compareRecord : Record) (indexNumber searchField : Nat)
    (caseCmp alphaCmp findAllMatches : Bool) (listLimit : FAU) (n : Nat) (position : Fin 3 → Int)
    (t : Btree RdbmsKey) : Option Listed := do
  if wordOfInt (M.numTrees - 1) < indexNumber then return ⟨.badIndexNumber, [], []⟩
  let (blocks, d) ← d.normalBlocksRun n (position 0) (position 1)
  match M.listTests searchField blocks (¬ blocks < listLimit) with
  | some status => return ⟨status, [], []⟩
  | none =>
    M.listKeys K d
      (M.searchWalk compareRecord searchField caseCmp alphaCmp findAllMatches listLimit) n
      (position 2) t

/-! ## The test of an index -/

/-- The locals of `VerifyIndex`, with the tree and the file position. -/
structure VerifyState where
  key : RdbmsKey
  currNode : CurrNode RdbmsKey
  tree : Btree RdbmsKey
  position : Int
  record : Record
  keys : Nat

/-- Reads the record of the key and counts the key. A record that is not good sets an error code and
nothing else. `none` where the read goes outside of a buffer or runs out of memory. -/
def verifyKey (s : VerifyState) : Option (Bool ⊕ VerifyState) :=
  match M.read d s.position s.key.kid s.record with
  | some (.returned .noError r) => some (.inr { s with
      record := r
      position := d.recordEnd s.position s.key.kid
      keys := s.keys + 1 })
  | none | some (.returned _ _) => some (.inl false)
  | some _ => none

/-- A turn of the loop: the number of keys at its end, or what the function returns. -/
def verifyTurn (s : VerifyState) : Option ((Bool × Nat) ⊕ VerifyState) ⊕ VerifyState :=
  match findNext K s.key s.currNode s.tree with
  | .ok (x, curr) tree =>
    match M.verifyKey d { s with key := x.dbKey, currNode := curr, tree := tree } with
    | none => .inl none
    | some (.inl good) => .inl (some (.inl (good, s.keys)))
    | some (.inr s) => .inr s
  | .error (.error _) _ => .inl (some (.inr s))
  | .error .badEntry _ => .inl none

/-- `VerifyIndex` for an index number in bounds, with the number of keys that it passes back. The loop
takes at most `n` turns. -/
def verifyIndex (n : Nat) (position : Fin 3 → Int) (t : Btree RdbmsKey) : Option (Bool × Nat) := do
  let d := d.testFileHeader
  match (gxBtree K).step .findFirst t with
  | (.found key, tree) =>
    match ← M.verifyKey d ⟨key, CurrNode.new, tree, position 0, M.created.2, 0⟩ with
    | .inl good => return (good, 0)
    | .inr s =>
      match ← (← Loop.result (M.verifyTurn K d) n s) with
      | .inl r => return r
      | .inr s =>
        let blocks ← d.normalBlocks n (position 1) (position 2)
        return (s.keys = blocks, s.keys)
  | (.zero, tree) =>
    let blocks ← d.normalBlocks n (position 1) (position 2)
    return (tree.header.nKeys = 0 ∧ blocks = 0, 0)
  | _ => none

end Table

end DataReel
