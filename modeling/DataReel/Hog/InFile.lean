import DataReel.Database.ScanRun
import DataReel.Hog.ReadWrite
import Mathlib.Algebra.Order.BigOperators.Group.List

/-! # Objects in a data file

An object is found by its key, with the index or by a scan of the data file, and
read into whatever object is at hand.
-/

namespace DataReel

variable {n : Nat}

namespace InfoHog

/-- The data file has the object at its address. -/
structure InFile (classId : Int) (objects : Int → Option (List UInt8)) (h : InfoHog n) : Prop where
  object : ∃ rest, objects h.objectaddress = some (h.bytes classId h.objectaddress ++ rest)
  count : h.numMembers ≤ infoHogMaxMembers

/-! ## The bytes of an object -/

/-- The bytes of an object before its key. -/
def front (classId a : Int) (num n : Nat) : List UInt8 :=
  objectHeader classId a ++ (Bytes.leBytes 8 num ++ Bytes.leBytes 8 n)

theorem front_length (classId a : Int) (num n : Nat) : (front classId a num n).length = keyOffset := by
  rw [front, List.length_append, List.length_append, objectHeader_length, Bytes.leBytes_length,
    Bytes.leBytes_length, keyOffset]

theorem bytes_eq_front (h : InfoHog n) (classId a : Int) :
    h.bytes classId a = front classId a h.numMembers n ++ (h.key.1 ++ memberRecords h.others) := by
  rw [bytes_eq_memberRecords, members, memberRecords_cons, h.key.2, front]
  simp [numMembers]

variable {d : Database} {classId : Int} {h ob : InfoHog n}

namespace InFile

theorem room (hFile : h.InFile classId d.object) (hData : d.Undamaged) :
    0 < h.objectaddress ∧
      h.objectaddress + (sizeOfObjectHeader + h.dataLength : Nat) ≤ d.fileSize ∧ d.fileSize < 2 ^ 63 := by
  obtain ⟨rest, hObject⟩ := hFile.object
  have hBounds := hData.bounds hObject
  rw [List.length_append, h.bytes_length] at hBounds
  omega

theorem stores (hFile : h.InFile classId d.object) (hData : d.Undamaged) :
    d.Stores h.objectaddress (h.bytes classId h.objectaddress) := by
  obtain ⟨rest, hObject⟩ := hFile.object
  have hBounds := hData.bounds hObject
  have hGet := hData.get hObject (i := 0) (k := (h.bytes classId h.objectaddress).length) (by simp)
  rw [List.length_append] at hBounds
  constructor
  · rw [show h.objectaddress + ((0 : Nat) : Int) = h.objectaddress from Int.add_zero _] at hGet
    rw [hGet, List.drop_zero, List.take_left]
  · omega

theorem of_members {objects : Int → Option (List UInt8)} (hFile : h.InFile classId objects) {h' : InfoHog n}
    (hAddress : h'.objectaddress = h.objectaddress) (hMembers : h'.members = h.members) :
    h'.InFile classId objects := by
  obtain ⟨rest, hObject⟩ := hFile.object
  have hBytes : h'.bytes classId h'.objectaddress = h.bytes classId h.objectaddress := by
    rw [hAddress, bytes_eq_memberRecords, bytes_eq_memberRecords, hMembers]
  constructor
  · exact ⟨rest, by rw [hBytes, hAddress, hObject]⟩
  · change h'.members.length ≤ _
    rw [hMembers]
    exact hFile.count

theorem length_le {m : List UInt8} (hm : m ∈ h.members) : m.length ≤ h.dataLength := by
  have hSum : m.length ≤ (h.members.map List.length).sum :=
    List.le_sum_of_mem (List.mem_map_of_mem hm)
  rw [dataLength]
  omega

theorem readAt (hFile : h.InFile classId d.object) (hData : d.Undamaged)
    (hClass : -2 ^ 63 ≤ classId ∧ classId < 2 ^ 63) (o : InfoHog n) :
    ∃ r, o.readAt classId d d.fileSize h.objectaddress h.objectaddress = some r ∧ r.1.key = h.key ∧
      r.1.objectaddress = h.objectaddress ∧ (Takes o.array h.members → r.1.members = h.members) := by
  have hRoom := hFile.room hData
  apply readAt_stored classId o hRoom.1.le hClass hFile.count
  · intro m hm
    have hLe := length_le hm
    omega
  · intro m hm
    have hLe := length_le hm
    omega
  · exact hFile.stores hData

end InFile

theorem storedKey_bytes (h : InfoHog n) (classId a : Int) (rest : List UInt8) :
    storedKey n (h.bytes classId a ++ rest) = h.key.1 := by
  rw [storedKey, bytes_eq_front, List.append_assoc, List.drop_left' (front_length _ _ _ _), List.append_assoc,
    List.take_left' h.key.2]

/-- An object of the class that has only its key. -/
def named (name : Buffer n) : InfoHog n := ⟨name, [], [], 0⟩

theorem takes_named (name : Buffer n) (a : Int) (h : InfoHog n) :
    Takes { named name with objectaddress := a }.array h.members := by
  intro hShort i hNone
  have hOne : h.others = [] := List.length_eq_zero_iff.mp (Nat.le_zero.mp (Nat.le_of_succ_le_succ hShort))
  rw [members, hOne] at hNone
  cases i with
  | zero =>
    have hZero : h.key.1 = [] := Option.some.inj hNone
    have hKey : name.1 = [] := by
      apply List.length_eq_zero_iff.mp
      rw [name.2, ← h.key.2, hZero, List.length_nil]
    exact congrArg some hKey
  | succ i => cases hNone

theorem takes_self (h : InfoHog n) : Takes h.array h.members := fun _ _ hNone => hNone

theorem takes_of_bytes (v : MemberArray) (hAll : ∀ m ∈ h.members, m ≠ []) : Takes v h.members :=
  fun _ _ hNone => absurd rfl (hAll [] (List.mem_of_getElem? hNone))

theorem InFile.readObject (hFile : h.InFile classId d.object) (hData : d.Undamaged)
    (hClass : -2 ^ 63 ≤ classId ∧ classId < 2 ^ 63) {o : InfoHog n}
    (hAddress : o.objectaddress = h.objectaddress) (position : Int) (index : Option (Btree (InfoHogKey n))) :
    ∃ r, o.readObject classId position ⟨d, index⟩ = ⟨true, some r, ⟨d, index⟩⟩ ∧ r.key = h.key ∧
      r.objectaddress = h.objectaddress ∧ (Takes o.array h.members → r.members = h.members) := by
  have hEof : d.getEOF = (d.fileSize, d) := hData.getEOF
  obtain ⟨r, hRead, hRest⟩ := hFile.readAt hData hClass o
  refine ⟨r.1, ?_, hRest⟩
  rw [InfoHog.readObject, read]
  dsimp only
  rw [hEof, hAddress, Database.readPosition_pos position (hFile.room hData).1, hRead]
  rfl

end InfoHog

/-! ## With an index -/

namespace Kept

variable {K : KeyClass (InfoHogKey n)} {classId : Int} {p : Pod n} {t : Btree (InfoHogKey n)}
  {A : KeySet K.comparison} {s : InfoHog n} (hP : Kept K classId p t A) (hK : K.StrictOrder)
  (hByName : K.ByName)

include hP hK hByName

theorem keyOf_name {k : InfoHogKey n} (hk : k ∈ A.keys) : p.keyOf K k.objectName = some k := by
  rw [hP.keyOf_eq hK, A.mem_find_iff hK.strict]
  exact ⟨hk, (hByName ⟨k.objectName, 0, 0⟩ k k rfl).trans (hK.strict.eqv_refl k)⟩

/-- An object has its key in the index. -/
theorem keyOf_inFile (hFile : s.InFile classId p.data.object) :
    ∃ k ∈ A.keys, k.objectId = s.objectaddress ∧ k.objectName = s.key ∧ p.keyOf K s.key = some k := by
  obtain ⟨rest, hObject⟩ := hFile.object
  obtain ⟨k, hk, hAddress, hName⟩ := hP.synced.key_of_object hObject
  have hKey : k.objectName = s.key := Subtype.ext (by rw [hName, s.storedKey_bytes])
  exact ⟨k, hk, hAddress, hKey, hKey ▸ hP.keyOf_name hK hByName hk⟩

omit hByName in
theorem readBack (hClass : -2 ^ 63 ≤ classId ∧ classId < 2 ^ 63) {name : Buffer n} {k : InfoHogKey n}
    (hKey : p.keyOf K name = some k) (hFile : s.InFile classId p.data.object)
    (hAddress : k.objectId = s.objectaddress) (position : Int) :
    ∃ r, (InfoHog.named name).loaded K classId position p true = some r ∧ r.members = s.members := by
  rcases hP.find_eq hK position (InfoHog.named name) with ⟨hNone, -⟩ | ⟨k', hSome, -, hFind⟩
  · rw [show (InfoHog.named name).key = name from rfl, hKey] at hNone
    cases hNone
  · obtain rfl : k = k' := Option.some.inj (hKey.symm.trans hSome)
    obtain ⟨r, hRead, -, -, hMembers⟩ := hFile.readObject hP.data hClass
      (o := { InfoHog.named name with objectaddress := k.objectId }) hAddress position p.index
    refine ⟨r, ?_, hMembers (InfoHog.takes_named name _ s)⟩
    rw [InfoHog.loaded, InfoHog.load, if_pos rfl, hFind]
    simp only [Option.bind_eq_bind, Option.bind_some, if_true, hRead]

end Kept

/-! ## Without an index -/

/-- Every object has a header, and those of the class are InfoHog objects. -/
def InfoHogs (classId : Int) (n : Nat) (objects : Int → Option (List UInt8)) : Prop :=
  ∀ a l, objects a = some l → sizeOfObjectHeader ≤ l.length ∧
    (intOfWord (Bytes.leNat (l.take 8)) = classId →
      ∃ s : InfoHog n, s.objectaddress = a ∧ s.InFile classId objects)

/-- The objects of the class have no empty members, and none but the one at `a` has the key. -/
def OnlyAt (classId : Int) (objects : Int → Option (List UInt8)) (name : Buffer n) (a : Int) : Prop :=
  ∀ s : InfoHog n, s.InFile classId objects →
    (∀ m ∈ s.members, m ≠ []) ∧ (s.key = name → s.objectaddress = a)

namespace InfoHog

variable {d : Database} {classId : Int} {h s : InfoHog n} {a : Int} {l : List UInt8}

theorem readObjectHeader_object (hData : d.Undamaged) (hObject : d.object a = some l)
    (hRoom : sizeOfObjectHeader ≤ l.length) :
    readObjectHeader d a = some (intOfWord (Bytes.leNat (l.take 8))) := by
  have hPos := (hData.bounds hObject).1
  have hRead := hData.readBytes hObject (i := 0) (k := sizeOfObjectHeader) (by omega)
  rw [show a + ((0 : Nat) : Int) = a from Int.add_zero a] at hRead
  rw [readObjectHeader, if_neg (by omega), hRead]
  change some (intOfWord (Bytes.leNat ((l.take sizeOfObjectHeader).take 8))) = _
  rw [List.take_take]
  rfl

theorem InFile.header (hFile : s.InFile classId d.object) (hData : d.Undamaged)
    (hClass : -2 ^ 63 ≤ classId ∧ classId < 2 ^ 63) :
    readObjectHeader d s.objectaddress = some classId := by
  have hStores := hFile.stores hData
  rw [bytes_eq_memberRecords] at hStores
  exact readObjectHeader_eq classId (hFile.room hData).1.le hClass hStores.append.1

/-- A visit of the scan of `Find` reads an object of the class, and passes another. -/
theorem findScan_visit (hData : d.Undamaged) (hClass : -2 ^ 63 ≤ classId ∧ classId < 2 ^ 63)
    (hAll : InfoHogs classId n d.object) (hObject : d.object a = some l) (o : InfoHog n)
    (c start position : Int) :
    (∃ (s : InfoHog n) (r : InfoHog n × Int), s.objectaddress = a ∧ s.InFile classId d.object ∧
        o.readAt classId d d.fileSize a a = some r ∧ r.1.key = s.key ∧
        (findScan classId d h).visit a (start, ⟨some o, c, position⟩) =
          if r.1.key = h.key then .inl (true, some r.1) else .inr (r.2, ⟨some r.1, classId, r.2⟩)) ∨
      readObjectHeader d a ≠ some classId ∧ ∃ c' position',
        (findScan classId d h).visit a (start, ⟨some o, c, position⟩) =
          .inr (position', ⟨some o, c', position'⟩) := by
  obtain ⟨hRoom, hHog⟩ := hAll a l hObject
  have hHeader := readObjectHeader_object hData hObject hRoom
  have hEof : d.getEOF = (d.fileSize, d) := hData.getEOF
  simp only [findScan, Database.readPosition_pos start (hData.bounds hObject).1, hHeader, hEof]
  by_cases hSame : intOfWord (Bytes.leNat (l.take 8)) = classId
  · left
    obtain ⟨s, rfl, hFile⟩ := hHog hSame
    obtain ⟨r, hRead, hKey, -⟩ := hFile.readAt hData hClass o
    rw [if_pos hSame, hRead]
    exact ⟨s, r, rfl, hFile, rfl, hKey, by rw [hSame]⟩
  · right
    rw [if_neg hSame]
    exact ⟨fun hEq => hSame (Option.some.inj hEq), _, _, rfl⟩

/-- The scan of `Find` comes to the object with the key. -/
theorem findScan_visits (hData : d.Undamaged) (hClass : -2 ^ 63 ≤ classId ∧ classId < 2 ^ 63)
    (hAll : InfoHogs classId n d.object) (hOnly : OnlyAt classId d.object h.key s.objectaddress)
    (hFile : s.InFile classId d.object) (hKey : s.key = h.key) {size : Nat}
    {bs : List (Int × BlockHeader)}
    (hObjects : ∀ b ∈ bs, b.2.status = gxNormalBlock → (d.object (b.1 + size)).isSome)
    (hMem : ∃ b ∈ bs, b.2.status = gxNormalBlock ∧ b.1 + size = s.objectaddress) (o : InfoHog n)
    (c position : Int) :
    ∃ r : InfoHog n, (findScan classId d h).visits size bs ⟨some o, c, position⟩ = (true, some r) ∧
      r.objectaddress = s.objectaddress ∧ r.members = s.members := by
  induction bs generalizing o c position with
  | nil =>
    obtain ⟨b, hb, -⟩ := hMem
    cases hb
  | cons b bs ih =>
    obtain ⟨hFirst, hObjects⟩ := List.forall_mem_cons.mp hObjects
    have hNext (hNot : ¬ (b.2.status = gxNormalBlock ∧ b.1 + size = s.objectaddress)) :=
      ih hObjects (by simpa [hNot] using hMem)
    rw [ObjectScan.visits]
    by_cases hUse : b.2.status = gxNormalBlock
    · rw [if_pos hUse]
      obtain ⟨l, hl⟩ := Option.isSome_iff_exists.mp (hFirst hUse)
      rcases findScan_visit hData hClass hAll hl o c (b.1 + sizeOfBlockHeader) position with
        ⟨s', r, hAt, hFile', hRead, hName, hVisit⟩ | ⟨hOther, c', position', hVisit⟩
      · rw [hVisit]
        by_cases hEq : r.1.key = h.key
        · rw [if_pos hEq]
          have hSelf := (hOnly s' hFile').2 (hName.symm.trans hEq)
          rw [← hAt, hSelf] at hRead
          obtain ⟨r', hRead', -, hAddress, hMembers⟩ := hFile.readAt hData hClass o
          obtain rfl := Option.some.inj (hRead.symm.trans hRead')
          exact ⟨r.1, rfl, hAddress, hMembers (takes_of_bytes _ (hOnly s hFile).1)⟩
        · rw [if_neg hEq]
          apply hNext
          rintro ⟨-, hSelf⟩
          rw [hSelf] at hRead
          obtain ⟨r', hRead', hKey', -⟩ := hFile.readAt hData hClass o
          obtain rfl := Option.some.inj (hRead.symm.trans hRead')
          exact hEq (hKey'.trans hKey)
      · rw [hVisit]
        apply hNext
        rintro ⟨-, hSelf⟩
        exact hOther (hSelf ▸ hFile.header hData hClass)
    · rw [if_neg hUse]
      exact hNext (fun hBoth => hUse hBoth.1) o c position

end InfoHog

namespace InfoHogs

variable {K : KeyClass (InfoHogKey n)} {d : Database} {classId : Int} {h s : InfoHog n}
  (hAll : InfoHogs classId n d.object) (hData : d.Undamaged)
  (hLimit : d.fileHeader.gxdEof + d.blockHeaderSize < 2 ^ 63)
  (hClass : -2 ^ 63 ≤ classId ∧ classId < 2 ^ 63)

include hAll hData hLimit hClass

theorem find_eq (hOnly : OnlyAt classId d.object h.key s.objectaddress)
    (hFile : s.InFile classId d.object) (hKey : s.key = h.key) (position : Int) :
    ∃ r : InfoHog n,
      h.find K classId position ⟨d, none⟩ = some ⟨true, some r, ⟨d.testFileHeader, none⟩⟩ ∧
        r.objectaddress = s.objectaddress ∧ r.members = s.members := by
  obtain ⟨hTested, hRev, -, -, hObject⟩ := hData.testFileHeader
  have hSize : d.testFileHeader.blockHeaderSize = d.blockHeaderSize := by
    rw [Database.blockHeaderSize, hRev, Database.blockHeaderSize]
  have hBounds := hFile.room hData
  have hTurns : d.fileSize.toNat < InfoHog.findTurns := by
    rw [InfoHog.findTurns]
    omega
  have hEof : d.getEOF = (d.fileSize, d) := hData.getEOF
  obtain ⟨rest, hs⟩ := hFile.object
  obtain ⟨b, hb, hUse, hAt⟩ := hData.mem_scanBlocks hs (by
    rw [List.length_append, s.bytes_length, sizeOfObjectHeader]
    omega)
  have hSome : d.scanBlocks ≠ [] := List.ne_nil_of_mem hb
  rw [← hObject] at hAll hOnly hFile
  obtain ⟨r, hVisits, hRest⟩ := InfoHog.findScan_visits hTested hClass hAll hOnly hFile hKey
    (fun b hb hUse => hObject ▸ hData.object_scanBlocks hb hUse) ⟨b, hb, hUse, hAt⟩ h 0 position
  refine ⟨r, ?_, hRest⟩
  simp only [InfoHog.find, hEof]
  rw [hData.scan_eq hLimit hTurns, if_neg hSome, hVisits]
  rfl

end InfoHogs

namespace InfoHogs

variable {K : KeyClass (InfoHogKey n)} {d d₁ : Database} {classId : Int} {h s ob : InfoHog n}

/-- The same objects, in a data file whose header has been read again. -/
structure Again (d d₁ : Database) : Prop where
  undamaged : d₁.Undamaged
  object : d₁.object = d.object
  limit : d₁.fileHeader.gxdEof + d₁.blockHeaderSize < 2 ^ 63

theorem Again.test (hData : d.Undamaged) (hLimit : d.fileHeader.gxdEof + d.blockHeaderSize < 2 ^ 63) :
    Again d d.testFileHeader := by
  obtain ⟨hTested, -, -, -, hObject⟩ := hData.testFileHeader
  obtain ⟨blocks, free, hIntact⟩ := hData
  obtain ⟨-, hSize, hEof⟩ := hIntact.scanBlocks_test
  exact ⟨hTested, hObject, by rw [hSize, hEof]; exact hLimit⟩

/-- What is found again is as it was. -/
theorem load_self (hAll : InfoHogs classId n d.object) (hData : d.Undamaged)
    (hLimit : d.fileHeader.gxdEof + d.blockHeaderSize < 2 ^ 63)
    (hClass : -2 ^ 63 ≤ classId ∧ classId < 2 ^ 63) (hFile : s.InFile classId d.object)
    (hOnly : OnlyAt classId d.object s.key s.objectaddress) (hKey : h.key = s.key) (position : Int) :
    ∃ r, h.load K classId position ⟨d, none⟩ true = some ⟨true, some r, ⟨d.testFileHeader, none⟩⟩ ∧
      r.objectaddress = s.objectaddress ∧ r.members = s.members := by
  obtain ⟨o, hFind, hAddress, -⟩ := hAll.find_eq (K := K) (h := h) hData hLimit hClass (hKey ▸ hOnly) hFile
    hKey.symm position
  have hAgain := Again.test hData hLimit
  have hBytes := (hOnly s hFile).1
  rw [← hAgain.object] at hFile
  obtain ⟨r, hRead, -, hAt, hMembers⟩ := hFile.readObject hAgain.undamaged hClass hAddress position none
  refine ⟨r, ?_, hAt, hMembers (InfoHog.takes_of_bytes _ hBytes)⟩
  rw [InfoHog.load, if_pos rfl, hFind]
  simp only [Option.bind_eq_bind, Option.bind_some, if_true, hRead]

theorem readBack (hAll : InfoHogs classId n d.object) (hData : d.Undamaged)
    (hLimit : d.fileHeader.gxdEof + d.blockHeaderSize < 2 ^ 63)
    (hClass : -2 ^ 63 ≤ classId ∧ classId < 2 ^ 63) (hFile : s.InFile classId d.object)
    (hOnly : OnlyAt classId d.object s.key s.objectaddress) (position : Int) :
    ∃ r, (InfoHog.named s.key).loaded K classId position ⟨d, none⟩ true = some r ∧
      r.members = s.members := by
  obtain ⟨r, hLoad, -, hMembers⟩ := hAll.load_self (K := K) (h := InfoHog.named s.key) hData hLimit hClass
    hFile hOnly rfl position
  exact ⟨r, by rw [InfoHog.loaded, hLoad]; rfl, hMembers⟩

/-- Whatever a load finds, the objects stay. -/
theorem load_again (hData : d.Undamaged) (hLimit : d.fileHeader.gxdEof + d.blockHeaderSize < 2 ^ 63)
    {position : Int} {findObject : Bool} {o : Outcome n}
    (hLoad : h.load K classId position ⟨d, none⟩ findObject = some o) :
    ∃ d₁, o.pod = ⟨d₁, none⟩ ∧ Again d d₁ := by
  have hEof : d.getEOF = (d.fileSize, d) := hData.getEOF
  have hAgain := Again.test hData hLimit
  cases findObject with
  | false =>
    obtain rfl := Option.some.inj hLoad
    exact ⟨d, rfl, hData, rfl, hLimit⟩
  | true =>
    simp only [InfoHog.load, InfoHog.find, hEof, if_true, Option.bind_eq_bind,
      Option.bind_eq_some_iff, Option.map_eq_some_iff] at hLoad
    obtain ⟨x, ⟨r, -, rfl⟩, hLoad⟩ := hLoad
    refine ⟨d.testFileHeader, ?_, hAgain⟩
    split at hLoad
    · obtain ⟨y, -, hRead⟩ := Option.bind_eq_some_iff.mp hLoad
      obtain rfl := Option.some.inj hRead
      rw [InfoHog.readObject, InfoHog.read]
      change (⟨d.testFileHeader.getEOF.2, none⟩ : Pod n) = _
      rw [hAgain.undamaged.getEOF]
    · obtain rfl := Option.some.inj hLoad
      rfl

end InfoHogs

end DataReel
