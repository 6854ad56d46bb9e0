import DataReel.Library.Dialogue

/-! # The POD manager

A `POD` is the handle of a data file and its index files. What the database
engine and the B-trees answer is left to the environment: any of their calls
may succeed or fail.
-/

namespace DataReel

def noError : Nat := 0

def noDatabaseOpen : Nat := 32

def nullPtr : Nat := 35

def podMaxIndex : Nat := 255

/-- The calls of the engine and the B-trees. `fileExists` answers with a truth value, all
others with an error code. -/
inductive PodRequest where
  | fileExists (name : String)
  | createData (name : String)
  | openData (name : String)
  | closeData
  | flushData
  | createTree (index : Nat) (name : String)
  | openTree (index : Nat) (name : String)
  | closeTree (index : Nat)
  | flushTree (index : Nat)
  deriving DecidableEq, Repr

/-- The index that a request opens or creates the file of. -/
def PodRequest.attached : PodRequest → Option Nat
  | .createTree i _ | .openTree i _ => some i
  | _ => none

/-- The answers to them. -/
abbrev PodAnswer (_ : PodRequest) : Type := Nat

/-- Uses of memory that is not there. -/
inductive PodFault where
  | outOfRange -- of `index_file` at or beyond `POD_MAX_INDEX`
  | nullEntry  -- of a null entry of `index_file`
  deriving DecidableEq, Repr

/-- A `gxBtree` object: whether its file is open, and the last error of its engine. -/
structure IndexTree where
  isOpen : Bool
  error : Nat
  deriving DecidableEq, Repr

/-- `PODIndexFile_t` -/
structure PodIndexEntry where
  btree : Option IndexTree := none
  dbkeySize : Nat := 64
  order : Nat := 29
  useIndex : Int := 0
  rebuildIndex : Int := 0
  deriving DecidableEq, Repr

structure PodIndexFile where
  indexFile : Nat → Option PodIndexEntry
  nIndexes : Nat
  currIndex : Nat

namespace PodIndexFile

/-- The constructor. -/
def new (numIndexes : Nat) : PodIndexFile :=
  let numIndexes := min numIndexes podMaxIndex
  { indexFile := fun i => if i < numIndexes then some {} else none
    nIndexes := numIndexes
    currIndex := 0 }

def set (i : Nat) (e : PodIndexEntry) (ix : PodIndexFile) : PodIndexFile :=
  { ix with indexFile := fun j => if j = i then some e else ix.indexFile j }

end PodIndexFile

/-- A `POD` object. Of the data file it holds the last error of its engine. -/
structure PodManager where
  openDataFile : Option Nat
  openIndexFile : Option PodIndexFile
  exists_ : Int
  usingIndex : Int

namespace PodManager

abbrev PodM := Program PodAnswer PodFault PodManager

open Program

/-- The constructor. -/
def new : PodManager := { openDataFile := none, openIndexFile := none, exists_ := 0, usingIndex := 0 }

variable (env : Environment PodAnswer)

section Entries

/-- `index_file[i]` -/
def entry (ix : PodIndexFile) (i : Nat) : PodM (Option PodIndexEntry) :=
  if podMaxIndex ≤ i then throw .outOfRange else return ix.indexFile i

/-- `*index_file[i]` -/
def deref (ix : PodIndexFile) (i : Nat) : PodM PodIndexEntry := do
  match ← entry ix i with
  | some e => return e
  | none => throw .nullEntry

def setEntry (i : Nat) (e : PodIndexEntry) : PodM Unit :=
  update fun p => { p with openIndexFile := p.openIndexFile.map (·.set i e) }

def index (i : Nat) : PodM (Option IndexTree) := do
  match (← read).openIndexFile with
  | none => return none
  | some ix =>
    if ix.nIndexes ≤ i then return none
    match ← entry ix i with
    | none => return none
    | some e => return e.btree

def getDataFileError : PodM Nat := do
  match (← read).openDataFile with
  | none => return noDatabaseOpen
  | some error => return error

def getIndexFileError (i : Nat) : PodM Nat := do
  match ← index i with
  | none => return noDatabaseOpen
  | some btree => return btree.error

end Entries

section DataFile

def closeDataFile : PodM Nat := do
  match (← read).openDataFile with
  | none => return noError
  | some _ =>
    let err ← ask env .closeData
    update fun p => { p with openDataFile := some err }
    if err ≠ noError then
      getDataFileError
    else
      update fun p => { p with openDataFile := none }
      return noError

def createDataFile (fname : String) : PodM Nat := do
  if (← closeDataFile env) ≠ noError then
    getDataFileError
  else
    let err ← ask env (.createData fname)
    update fun p => { p with openDataFile := some err }
    return err

def openDataFileNamed (fname : String) : PodM Nat := do
  if (← closeDataFile env) ≠ noError then
    getDataFileError
  else
    let err ← ask env (.openData fname)
    update fun p => { p with openDataFile := some err }
    return err

def flushDataFile : PodM Nat := do
  match (← read).openDataFile with
  | none => return noError
  | some _ =>
    let err ← ask env .flushData
    update fun p => { p with openDataFile := some err }
    return err

end DataFile

section IndexFiles

def closeIndex (i : Nat) : PodM Nat := do
  match (← read).openIndexFile with
  | none => return noError
  | some ix =>
    if ix.nIndexes ≤ i then return noError
    match ← entry ix i with
    | none => return noError
    | some e =>
      match e.btree with
      | none => return noError
      | some btree =>
        let err ← ask env (.closeTree i)
        setEntry i { e with btree := some { btree with error := err } }
        if err ≠ noError then
          getIndexFileError i
        else
          setEntry i { e with btree := none, useIndex := 0 }
          return noError

/-- A new B-tree object is put into the index, whose file is then opened or created. -/
def placeTree (ix : PodIndexFile) (i : Nat) (r : PodRequest) : PodM Nat := do
  let e ← deref ix i
  let err ← ask env r
  setEntry i { e with btree := some { isOpen := err = noError, error := err } }
  return err

def createIndex (fname : String) (i : Nat) : PodM Nat := do
  if (← closeIndex env i) ≠ noError then
    getIndexFileError i
  else
    match (← read).openIndexFile with
    | some ix => placeTree env ix i (.createTree i fname)
    | none => ask env (.createTree i fname)

def openIndex (fname : String) (i : Nat) : PodM Nat := do
  if (← closeIndex env i) ≠ noError then
    getIndexFileError i
  else
    match (← read).openIndexFile with
    | none => return nullPtr
    | some ix =>
      if ix.nIndexes ≤ i then return nullPtr
      match ← entry ix i with
      | none => return nullPtr
      | some _ => placeTree env ix i (.openTree i fname)

def flushIndexFile (i : Nat) : PodM Nat := do
  match ← index i with
  | none => return noError
  | some btree =>
    let err ← ask env (.flushTree i)
    match (← read).openIndexFile with
    | none => return err
    | some ix =>
      let e ← deref ix i
      setEntry i { e with btree := some { btree with error := err } }
      return err

end IndexFiles

section Close

/-- The loop of `Close` over the indexes; the error of the one it stops at. -/
def closeIndexes : List Nat → PodM (Option Nat)
  | [] => return none
  | i :: is => do
    if (← closeIndex env i) ≠ noError then
      update fun p =>
        { p with openIndexFile := p.openIndexFile.map fun ix => { ix with currIndex := i } }
      return some (← getIndexFileError i)
    else
      closeIndexes is

/-- The destructor of the index object. -/
def deleteEntries (ix : PodIndexFile) : List Nat → PodM Unit
  | [] => return
  | i :: is => do
    let _ ← entry ix i
    deleteEntries ix is

/-- The index files are closed and the index object is deleted. -/
def closeIndexFile : PodM Nat := do
  match (← read).openIndexFile with
  | none => return noError
  | some ix =>
    match ← closeIndexes env (List.range ix.nIndexes) with
    | some err => return err
    | none =>
      deleteEntries ix (List.range ix.nIndexes)
      update fun p => { p with openIndexFile := none }
      return noError

def close : PodM Nat := do
  if (← closeDataFile env) ≠ noError then
    getDataFileError
  else
    closeIndexFile env

end Close

/-- The loop of `Flush`: the error of the index flushed last. -/
def flushIndexes : List Nat → Nat → PodM Nat
  | [], err => return err
  | i :: is, _ => do
    let err ← flushIndexFile env i
    flushIndexes is err

def flush : PodM Nat := do
  let err ← flushDataFile env
  match (← read).openIndexFile with
  | none => return err
  | some ix => flushIndexes env (List.range ix.nIndexes) err

section Open

/-- Every entry of a new index object gets its key size and order. -/
def initEntries (keySize order : Nat) : List Nat → PodM Unit
  | [] => return
  | i :: is => do
    match (← read).openIndexFile with
    | none => return
    | some ix =>
      let e ← deref ix i
      setEntry i { e with dbkeySize := keySize, order := order, useIndex := 1 }
      initEntries keySize order is

/-- `rebuild_index` of an entry is set, since its file is to be created anew. -/
def setRebuild (i : Nat) : PodM Unit := do
  match (← read).openIndexFile with
  | none => return
  | some ix =>
    let e ← deref ix i
    setEntry i { e with rebuildIndex := 1 }

/-- An index file of an existing data file is opened, or created where it is missing. -/
def attachIndex (fname : String) (i : Nat) : PodM Nat := do
  if (← ask env (.fileExists fname)) = 0 then
    setRebuild i
    createIndex env fname i
  else
    openIndex env fname i

def attachData (found : Bool) (dfname : String) : PodM Nat :=
  if found then openDataFileNamed env dfname else createDataFile env dfname

def attach (found : Bool) (fname : String) (i : Nat) : PodM Nat :=
  if found then attachIndex env fname i else createIndex env fname i

/-- The data file is created where it is missing and opened where it is not; then `k` opens
the index files. -/
def openFiles (dfname : String) (k : Bool → PodM Nat) : PodM Nat := do
  let found ← ask env (.fileExists dfname)
  let err ← attachData env (found ≠ 0) dfname
  if err ≠ noError then
    getDataFileError
  else
    update fun p => { p with exists_ := if found = 0 then 0 else 1 }
    k (found ≠ 0)

/-- The loop of `Open` over the index files; it reports the error of the first of them. -/
def openIndexes (found : Bool) (ifname : Nat → String) : List Nat → PodM Nat
  | [] => return noError
  | i :: is => do
    let err ← attach env found (ifname i) i
    if err ≠ noError then
      getIndexFileError 0
    else
      openIndexes found ifname is

/-- `Open` with a single index file. -/
def openSingle (dfname ifname : String) (keySize order : Nat) (useIndex : Int) : PodM Nat := do
  let err ← close env
  if err ≠ noError then
    return err
  else
    if useIndex ≠ 0 then
      update fun p =>
        { p with openIndexFile := some (PodIndexFile.new 1), usingIndex := useIndex }
      initEntries keySize order [0]
    openFiles env dfname fun found => do
      if (← read).usingIndex ≠ 0 then
        openIndexes env found (fun _ => ifname) [0]
      else
        return noError

/-- `Open` with an index object. -/
def openObject (dfname : String) (ix : Option PodIndexFile) : PodM Nat := do
  let err ← close env
  if err ≠ noError then
    return err
  else
    openFiles env dfname fun _ => do
      update fun p => { p with usingIndex := 1 }
      let err ← closeIndexFile env
      if err ≠ noError then
        return err
      else
        update fun p => { p with openIndexFile := ix }
        return noError

/-- `Open` with several index files. -/
def openMultiple (dfname : String) (ifname : Nat → String) (numIndexes keySize order : Nat) :
    PodM Nat := do
  let err ← close env
  if err ≠ noError then
    return err
  else
    let err ← closeIndexFile env
    if err ≠ noError then
      return err
    else
      update fun p =>
        { p with
          openIndexFile := some { PodIndexFile.new numIndexes with nIndexes := numIndexes }
          usingIndex := 1 }
      initEntries keySize order (List.range numIndexes)
      openFiles env dfname fun found =>
        openIndexes env found ifname (List.range numIndexes)

end Open

end PodManager

end DataReel
