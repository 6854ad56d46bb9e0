import DataReel.Btree.Calls
import DataReel.Database.Buffers
import DataReel.Database.Scan

/-! # InfoHog objects

An object is an array of members, the first of them its key. A POD keeps the
objects of a class in a data file, and with an index file a key of each. Every
operation has a path with the index and one that scans the data file.
-/

namespace DataReel

variable {n : Nat}

/-! ## Keys -/

/-- The operators of the type of a key. -/
structure KeyType (n : Nat) where
  greater : Buffer n → Buffer n → Bool
  equal : Buffer n → Buffer n → Bool

/-- `InfoHogKey_t` -/
structure InfoHogKey (n : Nat) where
  objectName : Buffer n
  objectId : Int
  classId : Int
  deriving DecidableEq

def KeyType.comparison (T : KeyType n) : Comparison (Buffer n) where
  lt a b := T.greater b a
  eqv a b := T.equal a b

/-- `InfoHogKey` without duplicate names. -/
def KeyType.keyClass (T : KeyType n) (useBinarySearch useSingleCompare : Bool) :
    KeyClass (InfoHogKey n) where
  operatorGt a b := T.greater a.objectName b.objectName
  operatorEq a b := T.equal a.objectName b.objectName
  compareKey a b :=
    if T.equal a.objectName b.objectName then 0
    else if T.greater a.objectName b.objectName then 1
    else -1
  useBinarySearch := useBinarySearch
  useSingleCompare := useSingleCompare

/-! ## Objects and files -/

/-- `sizeof(gxObjectHeader)` -/
def sizeOfObjectHeader : Nat := 16

def infoHogMaxMembers : Nat := 255

/-- An `InfoHog` object. The vector of its members may have more of them than the object uses. -/
structure InfoHog (n : Nat) where
  key : Buffer n
  others : List (List UInt8)
  spare : List (List UInt8)
  objectaddress : Int
  deriving DecidableEq

/-- The vector of the members of an object: those it uses, and others behind them. -/
structure MemberArray where
  members : List (List UInt8)
  spare : List (List UInt8)
  deriving DecidableEq

/-- `AllocArray`: an array that is large enough keeps its members, and another starts with empty ones. -/
def MemberArray.alloc (v : MemberArray) (num : Nat) : MemberArray :=
  if num ≤ v.members.length then ⟨v.members.take num, v.members.drop num ++ v.spare⟩
  else ⟨List.replicate num [], []⟩

/-- A `POD` with its data file and the index, if it uses one. -/
structure Pod (n : Nat) where
  data : Database
  index : Option (Btree (InfoHogKey n))

/-- What a call returns and leaves. A read that fails leaves a part of an object. -/
structure Outcome (n : Nat) where
  result : Bool
  object : Option (InfoHog n)
  pod : Pod n

namespace InfoHog

variable (h : InfoHog n)

def members : List (List UInt8) := h.key.1 :: h.others

def numMembers : Nat := h.others.length + 1

/-- `ObjectLength`, a word of four bytes. -/
def objectLength : Nat :=
  (8 + h.numMembers * 8 + (h.members.map List.length).sum) % 2 ^ 32

/-- `SetMember` of a member behind the key. -/
def setMember (ob : List UInt8) (index : Nat) : InfoHog n :=
  { h with others := h.others.set (index - 1) ob }

def array : MemberArray := ⟨h.members, h.spare⟩

/-- `Copy` of the members alone. -/
def copyMembers (ob : InfoHog n) : InfoHog n :=
  { h with
    key := ob.key
    others := ob.others
    spare := (h.array.alloc ob.numMembers).spare }

/-- The records of an object behind its header: their number and each with its length. -/
def records : List (List UInt8) :=
  Bytes.leBytes 8 h.numMembers :: h.members.flatMap fun m => [Bytes.leBytes 8 m.length, m]

def objectHeader (classId objectId : Int) : List UInt8 :=
  Bytes.leBytes 8 (wordOfInt classId) ++ Bytes.leBytes 8 (wordOfInt objectId)

/-- Reads the members, and passes back the file position behind them. A member without bytes is not
changed. -/
def readMembers (d : Database) (eof : Int) :
    Int → List (List UInt8) → Option (List (List UInt8) × Int)
  | position, [] => some ([], position)
  | position, m :: ms => do
    let word ← d.readBytes position 8
    let len := Bytes.leNat word.1
    if eof < 0 ∨ eof < len then none
    else
      let bytes ← d.readBytes (position + 8) len
      let rest ← readMembers d eof (position + 8 + len) ms
      return ((if 0 < len then bytes.1 else m) :: rest.1, rest.2)

/-- `ReadObjectHeader`: the class. -/
def readObjectHeader (d : Database) (start : Int) : Option Int := do
  if start < 0 then none
  else
    let oh ← d.readBytes start sizeOfObjectHeader
    return intOfWord (Bytes.leNat (oh.1.take 8))

/-- `Read` into an array on a data file whose end is known, from where the address is. -/
def readInto (v : MemberArray) (classId : Int) (d : Database) (eof start objectAddress : Int) :
    Option (InfoHog n × Int) := do
  let ohClass ← readObjectHeader d start
  if ohClass ≠ classId then none
  else
    let word ← d.readBytes (start + sizeOfObjectHeader) 8
    let num := Bytes.leNat word.1
    if num = 0 ∨ infoHogMaxMembers < num then none
    else
      let array := v.alloc num
      let r ← readMembers d eof (start + sizeOfObjectHeader + 8) array.members
      match r.1 with
      | [] => none
      | key :: others =>
        if hKey : key.length = n then some (⟨⟨key, hKey⟩, others, array.spare, objectAddress⟩, r.2)
        else none

def readAt (classId : Int) (d : Database) (eof start objectAddress : Int) : Option (InfoHog n × Int) :=
  readInto h.array classId d eof start objectAddress

def read (classId position : Int) (p : Pod n) : Outcome n :=
  let (eof, d) := p.data.getEOF
  let r := h.readAt classId d eof (Database.readPosition position h.objectaddress) h.objectaddress
  ⟨r.isSome, r.map Prod.fst, { p with data := d }⟩

end InfoHog

/-! ## The index -/

section Index

variable (K : KeyClass (InfoHogKey n)) (t : Btree (InfoHogKey n)) (key : InfoHogKey n)

def addKey : Bool × Btree (InfoHogKey n) :=
  let r := (gxBtree K).step (.insert ⟨0, key⟩ false) t
  (r.1 = .done, r.2)

/-- `FindKey`, with the key that it passes back. -/
def findKey : Option (InfoHogKey n) × Btree (InfoHogKey n) :=
  match (gxBtree K).step (.find key) t with
  | (.found k, t) => (some k, t)
  | (_, t) => (none, t)

def deleteKey : Bool × Btree (InfoHogKey n) :=
  let r := (gxBtree K).step (.delete ⟨0, key⟩ false) t
  (r.1 = .done, r.2)

end Index

namespace InfoHog

/-! ## The scan of `Find` -/

/-- The object that is searched, the class of the last object header, and the file position. -/
structure Scanned (n : Nat) where
  object : Option (InfoHog n)
  classId : Int
  position : Int

/-- The loop of `Find` without an index. An object that is not found is as it was before. -/
def findScan (classId : Int) (d : Database) (h : InfoHog n) :
    ObjectScan (Scanned n) (Bool × Option (InfoHog n)) where
  atEnd s := (false, s.object.map fun o => o.copyMembers h)
  noHeader := some fun s => (false, s.object)
  visit objectAddress r :=
    let s := r.2
    let start := Database.readPosition r.1 objectAddress
    match s.object, readObjectHeader d start with
    | some o, some ohClass =>
      if ohClass = classId then
        match o.readAt classId d d.getEOF.1 start objectAddress with
        | none => .inl (false, none)
        | some (o, position) =>
          if o.key = h.key then .inl (true, some o) else .inr (position, ⟨some o, ohClass, position⟩)
      else .inr (start + sizeOfObjectHeader, ⟨some o, ohClass, start + sizeOfObjectHeader⟩)
    | o, _ => .inl (false, o)

/-- More turns than there are addresses. -/
def findTurns : Nat := 2 ^ 64

variable (K : KeyClass (InfoHogKey n)) (classId position : Int) (h : InfoHog n) (p : Pod n)

/-! ## Operations

`position` is the file position that an engine call starts from; `none` stands for a call that does
not return, or goes on with what a read that failed has left. -/

def write : Option (Outcome n) :=
  match p.data.alloc (p.data.fileSize.toNat + 1) position (sizeOfObjectHeader + h.objectLength)
    .firstFit with
  | none => none
  | some (a, d) =>
    let h : InfoHog n := { h with objectaddress := a }
    let d := d.writeBuffers a (objectHeader classId a :: h.records)
    match p.index with
    | none => some ⟨true, some h, ⟨d, none⟩⟩
    | some t =>
      let r := addKey K t ⟨h.key, a, classId⟩
      some ⟨r.1, some h, ⟨d, some r.2⟩⟩

def find : Option (Outcome n) :=
  match p.index with
  | some t =>
    match findKey K t ⟨h.key, 0, 0⟩ with
    | (none, t) => some ⟨false, some h, ⟨p.data, some t⟩⟩
    | (some k, t) => some ⟨true, some { h with objectaddress := k.objectId }, ⟨p.data, some t⟩⟩
  | none =>
    let d := p.data.getEOF.2.testFileHeader
    ((findScan classId d h).run (false, some h) findTurns p.data position
      ⟨some h, 0, position⟩).map fun r => ⟨r.1, r.2, ⟨d, none⟩⟩

def writeObject (find : Bool) : Option (Outcome n) :=
  if find then do
    let o ← h.find K classId position p
    if o.result then some o
    else
      let h ← o.object
      h.write K classId position o.pod
  else h.write K classId position p

def readObject : Outcome n := h.read classId position p

/-- `Delete` and `DeleteObject`. Without an index the result of the deletion is tested the other way
round. -/
def deleteObject : Option (Outcome n) :=
  match p.index with
  | some t =>
    match findKey K t ⟨h.key, 0, 0⟩ with
    | (none, t) => some ⟨false, some h, ⟨p.data, some t⟩⟩
    | (some k, t) =>
      let h : InfoHog n := { h with objectaddress := k.objectId }
      let deleted := p.data.delete position h.objectaddress false
      if deleted.1 then
        let r := deleteKey K t k
        some ⟨r.1, some h, ⟨deleted.2, some r.2⟩⟩
      else some ⟨false, some h, ⟨deleted.2, some t⟩⟩
  | none => do
    let o ← h.find K classId position p
    if o.result then
      let h ← o.object
      let deleted := o.pod.data.delete position h.objectaddress false
      some ⟨!deleted.1, some h, ⟨deleted.2, none⟩⟩
    else some o

/-- The object is found and loaded, if the caller asks for it. -/
def load (findObject : Bool) : Option (Outcome n) :=
  if findObject then do
    let o ← h.find K classId position p
    if o.result then
      let h ← o.object
      some (h.readObject classId position o.pod)
    else some o
  else some ⟨true, some h, p⟩

def changeKeyMember (k : Buffer n) (findObject : Bool) : Option (Outcome n) := do
  let o ← h.load K classId position p findObject
  if o.result then
    let h ← o.object
    let p := o.pod
    let r : Bool × Pod n :=
      match p.index with
      | none => (true, p)
      | some t =>
        let deleted := deleteKey K t ⟨h.key, h.objectaddress, classId⟩
        if deleted.1 then
          let added := addKey K deleted.2 ⟨k, h.objectaddress, classId⟩
          (added.1, { p with index := some added.2 })
        else (false, { p with index := some deleted.2 })
    if r.1 then
      let h : InfoHog n := { h with key := k }
      let start := Database.readPosition position (h.objectaddress + sizeOfObjectHeader + 8 * 2)
      if start < 0 then some ⟨false, some h, r.2⟩
      else some ⟨true, some h, { r.2 with data := r.2.data.writeBytes start k.1 }⟩
    else some ⟨false, some h, r.2⟩
  else some o

/-- Where the length of a member is in an object, by the lengths of those before it. -/
def memberOffset (h : InfoHog n) (index : Nat) : Nat :=
  sizeOfObjectHeader + 8 + (((h.members ++ h.spare).take index).map fun m => 8 + m.length).sum

/-- `ChangeMember` of a member behind the key. -/
def changeOther (ob : List UInt8) (index : Nat) (findObject : Bool) : Option (Outcome n) := do
  let o ← h.load K classId position p findObject
  if o.result then
    let h ← o.object
    let p := o.pod
    if ob.length ≠ ((h.members ++ h.spare).getD index []).length then
      let o ← h.deleteObject K classId position p
      if o.result then
        let h ← o.object
        (h.setMember ob index).writeObject K classId position o.pod true
      else some o
    else
      let address := h.objectaddress + h.memberOffset index
      if address < gxCurrAddress then some ⟨false, some h, p⟩
      else
        let h := h.setMember ob index
        some ⟨true, some h, if ob.length = 0 then p else { p with
          data := p.data.writeBytes (address + 8) ((h.members ++ h.spare).getD index []) }⟩
  else some o

/-- `ChangeMember`; a key has as many bytes as its type. -/
def changeMember (ob : List UInt8) (index : Nat) (findObject : Bool) : Option (Outcome n) :=
  if index = 0 then
    if hLength : n ≤ ob.length then
      h.changeKeyMember K classId position p
        ⟨ob.take n, List.length_take_of_le hLength⟩ findObject
    else none
  else h.changeOther K classId position p ob index findObject

/-- The loop of `ChangeObject` over the members behind the key. It goes on behind a member only if it
has written it. -/
def changeMembers : Database → Int → List (List UInt8) → List (List UInt8) →
    Database × List (List UInt8)
  | d, address, m :: ms, m' :: ms' =>
    if 0 < m'.length ∧ m ≠ m' then
      let r := changeMembers (d.writeBytes (address + 8) m') (address + 8 + m'.length) ms ms'
      (r.1, m' :: r.2)
    else
      let r := changeMembers d (address + 8) ms ms'
      (r.1, m :: r.2)
  | d, _, ms, _ => (d, ms)

def changeObject (ob : InfoHog n) (findObject : Bool) : Option (Outcome n) := do
  let o ← h.load K classId position p findObject
  if o.result then
    let h ← o.object
    let p := o.pod
    if h.members = ob.members then some o
    else if h.objectLength ≠ ob.objectLength ∨ h.numMembers ≠ ob.numMembers then
      let o ← h.deleteObject K classId position p
      if o.result then
        let h ← o.object
        let copy : InfoHog n := { h.copyMembers ob with objectaddress := ob.objectaddress }
        copy.writeObject K classId position o.pod true
      else some o
    else
      let o ← if h.key = ob.key then some ⟨true, some h, p⟩
        else h.changeKeyMember K classId position p ob.key true
      if o.result then
        let h ← o.object
        let address := h.objectaddress + sizeOfObjectHeader + 8 * 2 + n
        if address < gxCurrAddress then some ⟨false, some h, o.pod⟩
        else
          let r := changeMembers o.pod.data address h.others ob.others
          some ⟨true, some { h with others := r.2 }, { o.pod with data := r.1 }⟩
      else some o
  else some o

end InfoHog

end DataReel
