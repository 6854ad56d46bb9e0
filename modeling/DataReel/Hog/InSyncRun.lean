import DataReel.Hog.InSync

/-! # Runs that keep the index of a POD -/

namespace DataReel

variable {n : Nat}

namespace InfoHog

variable (h : InfoHog n)

/-! ## An object that is written -/

theorem objectLength_eq (hLength : h.dataLength < 2 ^ 32) : h.objectLength = h.dataLength :=
  Nat.mod_eq_of_lt hLength

theorem flatten_members (ms : List (List UInt8)) :
    (ms.flatMap fun m => [Bytes.leBytes 8 m.length, m]).flatten.length =
      ms.length * 8 + (ms.map List.length).sum := by
  induction ms with
  | nil => rfl
  | cons m ms ih =>
    rw [List.flatMap_cons, List.flatten_append, List.length_append, ih, List.map_cons, List.sum_cons,
      List.length_cons, List.flatten_cons, List.flatten_cons, List.flatten_nil, List.append_nil,
      List.length_append, Bytes.leBytes_length]
    omega

/-- The bytes that `Write` writes. -/
def bytes (classId a : Int) : List UInt8 := (objectHeader classId a :: h.records).flatten

variable (classId a : Int)

theorem objectHeader_length : (objectHeader classId a).length = sizeOfObjectHeader := by
  rw [objectHeader, List.length_append, Bytes.leBytes_length, Bytes.leBytes_length, sizeOfObjectHeader]

theorem bytes_length : (h.bytes classId a).length = sizeOfObjectHeader + h.dataLength := by
  rw [bytes, List.flatten_cons, List.length_append, objectHeader_length, records, List.flatten_cons,
    List.length_append, Bytes.leBytes_length, flatten_members, dataLength, numMembers, members,
    List.length_cons, Nat.add_assoc 8]

theorem bytes_eq : ∃ rest, h.bytes classId a = Bytes.leBytes 8 (wordOfInt classId) ++
    (Bytes.leBytes 8 (wordOfInt a) ++ (Bytes.leBytes 8 h.numMembers ++
      (Bytes.leBytes 8 n ++ (h.key.1 ++ rest)))) := by
  refine ⟨(h.others.flatMap fun m => [Bytes.leBytes 8 m.length, m]).flatten, ?_⟩
  rw [bytes, objectHeader, records, members]
  simp only [List.flatMap_cons, List.flatten_cons, List.flatten_append, List.flatten_nil, h.key.2,
    List.append_assoc, List.append_nil]

theorem bytes_stored : StoredObject classId n (h.bytes classId a) ∧
    storedKey n (h.bytes classId a) = h.key.1 := by
  have hLength := h.bytes_length classId a
  have hRoom : keyOffset + n ≤ sizeOfObjectHeader + h.dataLength := by
    rw [dataLength, members, List.map_cons, List.sum_cons, h.key.2, numMembers, keyOffset]
    omega
  obtain ⟨rest, hBytes⟩ := h.bytes_eq classId a
  have hWord (w : Nat) (l : List UInt8) (i : Nat) : (Bytes.leBytes 8 w ++ l).drop (8 + i) = l.drop i := by
    rw [← List.drop_drop, List.drop_left' Bytes.leBytes_length]
  refine ⟨⟨hLength ▸ hRoom, ?_, ?_⟩, ?_⟩
  · rw [hBytes, List.take_left' Bytes.leBytes_length]
  · rw [hBytes, show sizeOfObjectHeader + 8 = 8 + (8 + (8 + 0)) from rfl, hWord, hWord, hWord,
      List.drop_zero, List.take_left' Bytes.leBytes_length]
  · rw [storedKey, hBytes, show keyOffset = 8 + (8 + (8 + (8 + 0))) from rfl, hWord, hWord, hWord, hWord,
      List.drop_zero, List.take_left' h.key.2]

/-! ## Members behind the key -/

variable {h} {ob : List UInt8} {index : Nat}

theorem setMember_length (hIndex : index ≠ 0)
    (hLength : ob.length = ((h.members ++ h.spare).getD index []).length) :
    (((h.setMember ob index).members ++ (h.setMember ob index).spare).getD index []).length = ob.length := by
  obtain ⟨i, rfl⟩ := Nat.exists_eq_succ_of_ne_zero hIndex
  change ((h.key.1 :: (h.others.set i ob ++ h.spare)).getD (i + 1) []).length = ob.length
  change ob.length = ((h.key.1 :: (h.others ++ h.spare)).getD (i + 1) []).length at hLength
  rw [List.getD_cons_succ] at hLength ⊢
  by_cases hi : i < h.others.length
  · have hSet : i < (h.others.set i ob).length := by rwa [List.length_set]
    rw [List.getD_eq_getElem?_getD, List.getElem?_append_left hSet, List.getElem?_set_self hi,
      Option.getD_some]
  · rw [List.set_eq_of_length_le (by omega), hLength]

theorem members_fit (ob : InfoHog n) :
    keyOffset + n + (ob.others.map fun m => 8 + m.length).sum ≤ sizeOfObjectHeader + ob.dataLength := by
  have hSum : (ob.others.map fun m => 8 + m.length).sum =
      ob.others.length * 8 + (ob.others.map List.length).sum := by
    induction ob.others with
    | nil => rfl
    | cons m ms ih =>
      rw [List.map_cons, List.sum_cons, ih, List.map_cons, List.sum_cons, List.length_cons]
      omega
  rw [hSum, dataLength, members, List.map_cons, List.sum_cons, ob.key.2, numMembers, keyOffset]
  omega

theorem memberOffset_le (hIndex : index ≠ 0) : keyOffset + n ≤ h.memberOffset index + 8 := by
  obtain ⟨i, rfl⟩ := Nat.exists_eq_succ_of_ne_zero hIndex
  rw [memberOffset, members, List.cons_append, List.take_succ_cons, List.map_cons, List.sum_cons, h.key.2,
    keyOffset]
  omega

end InfoHog

/-! ## An object that is read -/

namespace StoredObject

variable {d : Database} {classId a : Int} {l : List UInt8}

theorem header_eq (hStored : StoredObject classId n l) (hData : d.Undamaged) (hObject : d.object a = some l)
    (hClass : -2 ^ 63 ≤ classId ∧ classId < 2 ^ 63) : InfoHog.readObjectHeader d a = some classId := by
  have hPos := (hData.bounds hObject).1
  have hRoom := hStored.room
  rw [keyOffset] at hRoom
  have hRead := hData.readBytes hObject (i := 0) (k := sizeOfObjectHeader) (by omega)
  rw [show a + ((0 : Nat) : Int) = a from Int.add_zero a] at hRead
  rw [InfoHog.readObjectHeader, if_neg (by omega), hRead]
  change some (intOfWord (Bytes.leNat ((l.take sizeOfObjectHeader).take 8))) = some classId
  rw [List.take_take, show min 8 sizeOfObjectHeader = 8 from rfl, hStored.classWord,
    Bytes.leNat_leBytes (wordOfInt_lt classId), intOfWord_wordOfInt hClass.1 hClass.2]

theorem key_eq (hStored : StoredObject classId n l) (hData : d.Undamaged) (hObject : d.object a = some l) :
    (∃ word, d.readBytes (a + (sizeOfObjectHeader + 8 : Nat)) 8 = some word ∧ Bytes.leNat word.1 = n) ∧
      ∃ key, d.readBytes (a + keyOffset) n = some key ∧ key.1 = storedKey n l := by
  have hBounds := hData.bounds hObject
  have hRoom := hStored.room
  have hSize : n < 256 ^ 8 := by omega
  constructor
  · refine ⟨_, hData.readBytes hObject (by rw [keyOffset] at hRoom; omega), ?_⟩
    change Bytes.leNat ((l.drop (sizeOfObjectHeader + 8)).take 8) = n
    rw [hStored.keyLength, Bytes.leNat_leBytes hSize]
  · exact ⟨_, hData.readBytes hObject hRoom, rfl⟩

theorem memberZero_eq (hStored : StoredObject classId n l) (hData : d.Undamaged)
    (hObject : d.object a = some l) : memberZero d a = some (storedKey n l) := by
  obtain ⟨⟨word, hWord, hLength⟩, key, hKey, hBytes⟩ := hStored.key_eq hData hObject
  rw [memberZero, hWord]
  change ((d.readBytes (a + keyOffset) (Bytes.leNat word.1)).bind fun key => some key.1) = _
  rw [hLength, hKey, Option.bind_some, hBytes]

theorem readAt_key (hStored : StoredObject classId n l) (hData : d.Undamaged)
    (hObject : d.object a = some l) {h h' : InfoHog n} {eof objectAddress position : Int}
    (hRead : h.readAt classId d eof a objectAddress = some (h', position)) :
    h'.key.1 = storedKey n l ∧ h'.objectaddress = objectAddress := by
  obtain ⟨⟨word, hWord, hLength⟩, key, hKey, hBytes⟩ := hStored.key_eq hData hObject
  rw [InfoHog.readAt, InfoHog.readInto, Option.bind_eq_bind, Option.bind_eq_some_iff] at hRead
  obtain ⟨ohClass, -, hRead⟩ := hRead
  split at hRead
  · cases hRead
  · rw [Option.bind_eq_bind, Option.bind_eq_some_iff] at hRead
    obtain ⟨num, -, hRead⟩ := hRead
    dsimp only at hRead
    split at hRead
    · cases hRead
    · rw [Option.bind_eq_bind, Option.bind_eq_some_iff] at hRead
      obtain ⟨r, hMembers, hRead⟩ := hRead
      split at hRead
      · cases hRead
      · rename_i first others hFirst
        split at hRead
        · rename_i hKeyLength
          cases hRead
          refine ⟨?_, rfl⟩
          change first = storedKey n l
          generalize (h.array.alloc (Bytes.leNat num.1)).members = array at hMembers
          cases array with
          | nil =>
            rw [InfoHog.readMembers] at hMembers
            cases hMembers
            cases hFirst
          | cons m ms =>
            have hFront : a + (sizeOfObjectHeader : Int) + 8 = a + (sizeOfObjectHeader + 8 : Nat) := by
              omega
            have hBehind : a + ((sizeOfObjectHeader + 8 : Nat) : Int) + 8 = a + keyOffset := by
              rw [keyOffset]
              omega
            rw [InfoHog.readMembers, hFront, hWord, Option.bind_eq_bind, Option.bind_some] at hMembers
            dsimp only at hMembers
            rw [hLength, hBehind, hKey] at hMembers
            split at hMembers
            · cases hMembers
            · rw [Option.bind_eq_bind, Option.bind_some, Option.bind_eq_bind,
                Option.bind_eq_some_iff] at hMembers
              obtain ⟨rest, -, hRest⟩ := hMembers
              cases hRest
              obtain ⟨hEq, -⟩ := List.cons.inj hFirst
              rw [← hEq, ← hBytes]
              split
              · rfl
              · have hNone : n = 0 := by omega
                rw [if_neg (by omega)] at hEq
                subst hNone
                rw [hEq, List.length_eq_zero_iff.mp hKeyLength, List.length_eq_zero_iff.mp key.2]
        · cases hRead

end StoredObject

theorem splice_length {l bytes : List UInt8} {i k : Nat} (hRoom : i + k ≤ l.length)
    (hLength : bytes.length = k) : (l.take i ++ bytes ++ l.drop (i + bytes.length)).length = l.length := by
  rw [List.length_append, List.length_append, List.length_take, List.length_drop]
  omega

theorem splice_take {l bytes : List UInt8} {i m : Nat} (hBefore : m ≤ i) (hIn : i ≤ l.length) :
    (l.take i ++ bytes ++ l.drop (i + bytes.length)).take m = l.take m := by
  rw [List.append_assoc, List.take_append_of_le_length (by rw [List.length_take]; omega), List.take_take,
    Nat.min_eq_left hBefore]

theorem Pod.Reaches.of_update {p p' : Pod n} {a x : Int} {m : Nat} {l l' : List UInt8}
    (h : p.Reaches a m) (hl : p.data.object x = some l)
    (hObject : p'.data.object = Function.update p.data.object x (some l'))
    (hLength : l'.length = l.length) : p'.Reaches a m := by
  obtain ⟨o, ho, hm⟩ := h
  rw [Pod.Reaches, hObject]
  by_cases hx : a = x
  · subst hx
    rw [hl, Option.some_inj] at ho
    exact ⟨l', Function.update_self .., by rwa [hLength, ho]⟩
  · exact ⟨o, by rwa [Function.update_of_ne hx], hm⟩

/-- A deletion takes no room from what is written next. -/
theorem Pod.Takes.after {p p' : Pod n} {h h' : InfoHog n} (hTakes : p.Takes h)
    (hEof : p'.data.fileHeader.gxdEof = p.data.fileHeader.gxdEof) (hRev : p'.data.rev = p.data.rev)
    (hRoom : p.IndexRoom → p'.IndexRoom) (hSame : h'.dataLength = h.dataLength) : p'.Takes h' := by
  refine ⟨hSame ▸ hTakes.length, ?_, hRoom hTakes.indexRoom⟩
  rw [hEof, Database.overhead, hRev, hSame]
  exact hTakes.dataRoom

/-! ## What the calls keep -/

section Kept

variable {K : KeyClass (InfoHogKey n)} {classId : Int}

/-- An undamaged data file and an index that belong together. -/
structure Kept (K : KeyClass (InfoHogKey n)) (classId : Int) (p : Pod n) (t : Btree (InfoHogKey n))
    (A : KeySet K.comparison) : Prop where
  index : p.index = some t
  stores : t.Stores K A
  data : p.data.Undamaged
  synced : Synced classId p.data.object A

/-- A call that returns and leaves them so. -/
def Settled (K : KeyClass (InfoHogKey n)) (classId : Int) (r : Option (Outcome n)) : Prop :=
  ∃ o t A, r = some o ∧ Kept K classId o.pod t A

namespace Kept

variable {p : Pod n} {t : Btree (InfoHogKey n)} {A : KeySet K.comparison} (hP : Kept K classId p t A)
  (hK : K.StrictOrder) (hByName : K.ByName)

include hP

theorem settled {o : Outcome n} (hPod : o.pod = p) : Settled K classId (some o) :=
  ⟨o, t, A, rfl, hPod ▸ hP⟩

include hK

theorem findKey_eq (key : InfoHogKey n) : findKey K t key = (A.find key, t) := by
  rw [findKey, hP.stores.find hK]
  cases A.find key <;> rfl

theorem keyOf_eq (name : Buffer n) : p.keyOf K name = A.find ⟨name, 0, 0⟩ := by
  rw [Pod.keyOf, hP.index, Option.bind_some, hP.findKey_eq hK]

theorem find_eq (position : Int) (h : InfoHog n) :
    (p.keyOf K h.key = none ∧ h.find K classId position p = some ⟨false, some h, p⟩) ∨
      ∃ k, p.keyOf K h.key = some k ∧ k ∈ A.keys ∧
        h.find K classId position p = some ⟨true, some { h with objectaddress := k.objectId }, p⟩ := by
  obtain ⟨d, index⟩ := p
  obtain rfl : index = some t := hP.index
  rw [hP.keyOf_eq hK, InfoHog.find]
  dsimp only
  rw [hP.findKey_eq hK]
  cases hFind : A.find ⟨h.key, 0, 0⟩ with
  | none => exact .inl ⟨rfl, rfl⟩
  | some k => exact .inr ⟨k, rfl, ((A.mem_find_iff hK.strict _ k).mp hFind).1, rfl⟩

include hByName

/-- An object with a new key is written where none was. -/
theorem write_eq (position : Int) {h : InfoHog n} (hNew : p.keyOf K h.key = none) (hTakes : p.Takes h) :
    ∃ a p' t' A', h.write K classId position p = some ⟨true, some { h with objectaddress := a }, p'⟩ ∧
      Kept K classId p' t' A' ∧ p.data.object a = none ∧
      p'.data.object = Function.update p.data.object a (some (h.bytes classId a)) ∧
      ∃ k ∈ A'.keys, k.objectId = a ∧ k.objectName = h.key := by
  obtain ⟨d, index⟩ := p
  obtain rfl : index = some t := hP.index
  rw [hP.keyOf_eq hK] at hNew
  obtain ⟨hLength, hRoom, hIndex⟩ := hTakes
  obtain ⟨a, d', l, hAlloc, hUndamaged, -, hNone, hl, hObject⟩ :=
    hP.data.alloc position (sizeOfObjectHeader + h.dataLength) (by
      change d.fileHeader.gxdEof + ((sizeOfObjectHeader + h.dataLength : Nat) + d.overhead) < 2 ^ 63
      change d.fileHeader.gxdEof + (sizeOfObjectHeader + h.dataLength + d.overhead : Nat) < 2 ^ 63 at hRoom
      omega) .firstFit
  have hSelf : d'.object a = some l := by rw [hObject, Function.update_self]
  have hBytes := h.bytes_length classId a
  obtain ⟨hWritten, hObject'⟩ := hUndamaged.writeBuffers hSelf 0
    (InfoHog.objectHeader classId a :: h.records) (by
      change 0 + (h.bytes classId a).length ≤ l.length
      omega)
  have hAll : l.take 0 ++ (InfoHog.objectHeader classId a :: h.records).flatten ++
      l.drop (0 + (InfoHog.objectHeader classId a :: h.records).flatten.length) = h.bytes classId a := by
    change [] ++ h.bytes classId a ++ l.drop (0 + (h.bytes classId a).length) = _
    rw [List.drop_of_length_le (by omega), List.append_nil, List.nil_append]
  rw [hAll, hObject, Function.update_idem] at hObject'
  rw [show a + ((0 : Nat) : Int) = a from Int.add_zero a] at hWritten hObject'
  have hFind : A.find ⟨h.key, a, classId⟩ = none := by
    rw [← hNew]
    exact hByName.find_eq A rfl
  obtain ⟨t', hInsert, hStores, -⟩ := hP.stores.insert hK hFind (hIndex t rfl) 0
  have hAdd : addKey K t ⟨h.key, a, classId⟩ = (true, t') := by
    rw [addKey, hInsert]
    rfl
  have hWrite : h.write K classId position ⟨d, some t⟩ = some ⟨true, some { h with objectaddress := a },
      ⟨d'.writeBuffers a (InfoHog.objectHeader classId a :: h.records), some t'⟩⟩ := by
    rw [InfoHog.write, h.objectLength_eq hLength, hAlloc]
    dsimp only
    rw [hAdd]
    rfl
  obtain ⟨hStored, hKey⟩ := h.bytes_stored classId a
  refine ⟨a, _, t', A.insert hK.strict ⟨h.key, a, classId⟩, hWrite, ⟨rfl, hStores, hWritten, ?_⟩, hNone,
    hObject', ⟨h.key, a, classId⟩, (A.mem_insert_iff hK.strict _ hFind _).mpr (.inl rfl), rfl, rfl⟩
  change Synced classId (d'.writeBuffers a (InfoHog.objectHeader classId a :: h.records)).object _
  rw [hObject']
  exact hP.synced.add hK.strict hNone hFind hStored hKey

theorem write (position : Int) {h : InfoHog n} (hNew : p.keyOf K h.key = none) (hTakes : p.Takes h) :
    Settled K classId (h.write K classId position p) := by
  obtain ⟨a, p', t', A', hWrite, hP', -⟩ := hP.write_eq hK hByName position hNew hTakes
  exact ⟨_, t', A', hWrite, hP'⟩

theorem writeObject {position : Int} {h : InfoHog n} {find : Bool}
    (hSafe : if p.keyOf K h.key = none then p.Takes h else find = true) :
    Settled K classId (h.writeObject K classId position p find) := by
  rcases hP.find_eq hK position h with ⟨hNone, hFind⟩ | ⟨k, hSome, hk, hFind⟩
  · rw [if_pos hNone] at hSafe
    have hWrite := hP.write hK hByName position hNone hSafe
    cases find with
    | false => exact hWrite
    | true =>
      rw [InfoHog.writeObject, if_pos rfl, hFind]
      exact hWrite
  · rw [if_neg (by rw [hSome]; nofun)] at hSafe
    subst hSafe
    rw [InfoHog.writeObject, if_pos rfl, hFind]
    exact hP.settled rfl

/-- `Delete` finds no key, or takes the object of the key away with it. -/
theorem deleteObject_eq (position : Int) (h : InfoHog n) :
    (p.keyOf K h.key = none ∧ h.deleteObject K classId position p = some ⟨false, some h, p⟩) ∨
      ∃ k p' t', p.keyOf K h.key = some k ∧ k ∈ A.keys ∧ Kept K classId p' t' (A.erase k) ∧
        h.deleteObject K classId position p = some ⟨true, some { h with objectaddress := k.objectId }, p'⟩ ∧
        p'.data.fileHeader.gxdEof = p.data.fileHeader.gxdEof ∧ p'.data.rev = p.data.rev ∧
        (p.IndexRoom → p'.IndexRoom) ∧
        p'.data.object = Function.update p.data.object k.objectId none := by
  obtain ⟨d, index⟩ := p
  obtain rfl : index = some t := hP.index
  rw [hP.keyOf_eq hK, InfoHog.deleteObject]
  dsimp only
  rw [hP.findKey_eq hK]
  cases hFind : A.find ⟨h.key, 0, 0⟩ with
  | none => exact .inl ⟨rfl, rfl⟩
  | some k =>
    right
    obtain ⟨hk, hEq⟩ := (A.mem_find_iff hK.strict _ k).mp hFind
    obtain ⟨l, hl, -⟩ := hP.synced.object_of_key hk
    obtain ⟨hTrue, hUndamaged, hRev, hObject⟩ := hP.data.delete hl position
    obtain ⟨x, hHeader⟩ := Database.delete_fileHeader (d := d) position k.objectId false
    have hSelf : A.find k = some k :=
      (A.mem_find_iff hK.strict k k).mpr ⟨hk, hK.strict.eqv_refl k⟩
    obtain ⟨t', hDelete, hStores, hRoom⟩ := hP.stores.delete hK hSelf 0
    have hKeyDeleted : deleteKey K t k = (true, t') := by
      rw [deleteKey, hDelete]
      rfl
    dsimp only at hTrue ⊢
    rw [if_pos hTrue, hKeyDeleted]
    refine ⟨k, _, t', rfl, hk, ⟨rfl, hStores, hUndamaged, ?_⟩, rfl, ?_, hRev, ?_, hObject⟩
    · change Synced classId (d.delete position k.objectId false).2.object _
      rw [hObject]
      exact hP.synced.remove hK.strict hByName hk
    · change (d.delete position k.objectId false).2.fileHeader.gxdEof = _
      rw [hHeader]
    · intro hIndex u hu
      obtain rfl : t' = u := Option.some.inj hu
      exact hRoom _ (hIndex t rfl)

theorem deleteObject (position : Int) (h : InfoHog n) :
    Settled K classId (h.deleteObject K classId position p) := by
  rcases hP.deleteObject_eq hK hByName position h with ⟨-, hDelete⟩ | ⟨k, p', t', -, -, hP', hDelete, -⟩
  · rw [hDelete]
    exact hP.settled rfl
  · rw [hDelete]
    exact hP'.settled rfl

/-! ## Changes -/

omit hK hByName in
theorem readObject_eq (position : Int) {h : InfoHog n} {k : InfoHogKey n} (hk : k ∈ A.keys)
    (hAddress : h.objectaddress = k.objectId) :
    (∃ o, h.readObject classId position p = ⟨false, o, p⟩) ∨
      ∃ h', h.readObject classId position p = ⟨true, some h', p⟩ ∧ h'.key = k.objectName ∧
        h'.objectaddress = k.objectId := by
  obtain ⟨d, index⟩ := p
  obtain ⟨l, hl, hKey⟩ := hP.synced.object_of_key hk
  have hPos := (hP.data.bounds hl).1
  have hStart : Database.readPosition position h.objectaddress = k.objectId := by
    rw [hAddress, Database.readPosition_pos position hPos]
  have hEof : d.getEOF = (d.fileSize, d) := hP.data.getEOF
  rw [InfoHog.readObject, InfoHog.read]
  dsimp only
  rw [hEof, hStart]
  cases hRead : h.readAt classId d d.fileSize k.objectId h.objectaddress with
  | none => exact .inl ⟨_, rfl⟩
  | some r =>
    obtain ⟨h', position'⟩ := r
    obtain ⟨hName, hAt⟩ := (hP.synced.stored _ l hl).readAt_key hP.data hl hRead
    exact .inr ⟨h', rfl, Subtype.ext (hName.trans hKey), hAt.trans hAddress⟩

/-- The object is not found or cannot be read, or the change goes on with an object. One that was
found has its key in the index. -/
theorem load_eq (position : Int) (h : InfoHog n) (findObject : Bool) :
    (∃ o, h.load K classId position p findObject = some ⟨false, o, p⟩) ∨
      ∃ h', h.load K classId position p findObject = some ⟨true, some h', p⟩ ∧
        h' ∈ h.loaded K classId position p findObject ∧
        (findObject = true → p.keyOf K h'.key = p.keyOf K h.key ∧
          ∃ k ∈ A.keys, p.keyOf K h'.key = some k ∧ k.objectId = h'.objectaddress) := by
  cases findObject with
  | false => exact .inr ⟨h, rfl, rfl, nofun⟩
  | true =>
    rcases hP.find_eq hK position h with ⟨-, hFind⟩ | ⟨k, hSome, hk, hFind⟩
    · rw [InfoHog.load, hFind]
      exact .inl ⟨_, rfl⟩
    · rcases hP.readObject_eq position (h := { h with objectaddress := k.objectId }) hk rfl with
        ⟨o, hRead⟩ | ⟨h', hRead, hName, hAt⟩
      · refine .inl ⟨o, ?_⟩
        rw [← hRead, InfoHog.load, hFind]
        rfl
      · have hKeyOf : p.keyOf K h'.key = some k := by
          rw [hP.keyOf_eq hK, A.mem_find_iff hK.strict]
          exact ⟨hk, (hByName _ k k hName).trans (hK.strict.eqv_refl k)⟩
        have hLoad : h.load K classId position p true = some ⟨true, some h', p⟩ := by
          rw [← hRead, InfoHog.load, hFind]
          rfl
        refine .inr ⟨h', hLoad, ?_, fun _ => ⟨hKeyOf.trans hSome.symm, k, hk, hKeyOf, hAt.symm⟩⟩
        rw [InfoHog.loaded, hLoad]
        rfl

/-- The change of a key is refused before anything is changed, or leaves the lengths of the objects. -/
theorem changeKeyMember_eq {position : Int} {h : InfoHog n} {k : Buffer n} {findObject : Bool}
    (hSafe : ∀ h' ∈ h.loaded K classId position p findObject, HogCall.KeySafe K h' p k) :
    (∃ o, h.changeKeyMember K classId position p k findObject = some ⟨false, o, p⟩) ∨
      ∃ h' e p' t' A', h' ∈ h.loaded K classId position p findObject ∧
        p.keyOf K h'.key = some e ∧ e.objectId = h'.objectaddress ∧
        h.changeKeyMember K classId position p k findObject =
          some ⟨true, some { h' with key := k }, p'⟩ ∧
        Kept K classId p' t' A' ∧ (∀ a m, p.Reaches a m → p'.Reaches a m) ∧
        p'.data = p.data.writeBytes (h'.objectaddress + keyOffset) k.1 := by
  rcases hP.load_eq hK hByName position h findObject with ⟨o, hLoad⟩ | ⟨h', hLoad, hMem, -⟩
  · refine .inl ⟨o, ?_⟩
    rw [InfoHog.changeKeyMember, hLoad]
    rfl
  obtain ⟨d, index⟩ := p
  obtain rfl : index = some t := hP.index
  have hKeySafe := hSafe h' hMem
  rw [InfoHog.changeKeyMember, hLoad]
  simp only [Option.bind_eq_bind, Option.bind_some, if_true]
  have hFind : A.find ⟨h'.key, h'.objectaddress, classId⟩ = A.find ⟨h'.key, 0, 0⟩ :=
    hByName.find_eq A rfl
  cases hOld : A.find ⟨h'.key, 0, 0⟩ with
  | none =>
    have hDelete : deleteKey K t ⟨h'.key, h'.objectaddress, classId⟩ = (false, t) := by
      rw [deleteKey, hP.stores.delete_missing hK (hFind.trans hOld)]
      rfl
    rw [hDelete]
    exact .inl ⟨_, rfl⟩
  | some e =>
    have hKeyOf : (⟨d, some t⟩ : Pod n).keyOf K h'.key = some e := (hP.keyOf_eq hK _).trans hOld
    obtain ⟨hAddress, hUnused, hRoom⟩ := hKeySafe e hKeyOf
    obtain ⟨he, -⟩ := (A.mem_find_iff hK.strict _ e).mp hOld
    obtain ⟨t', hDelete, hStores, hRoomKept⟩ := hP.stores.delete hK (hFind.trans hOld) 0
    have hDeleted : deleteKey K t ⟨h'.key, h'.objectaddress, classId⟩ = (true, t') := by
      rw [deleteKey, hDelete]
      rfl
    have hNew : (A.erase e).find ⟨k, h'.objectaddress, classId⟩ = none := by
      refine (KeySet.find_eq_none_iff _ _).mpr fun x hx => ?_
      obtain ⟨hx, hApart⟩ := (A.mem_erase_iff e x).mp hx
      refine Bool.eq_false_iff.mpr fun hEq => ?_
      have hKeyOf' : (⟨d, some t⟩ : Pod n).keyOf K k = some x := by
        rw [hP.keyOf_eq hK, A.mem_find_iff hK.strict]
        exact ⟨hx, (hByName ⟨k, 0, 0⟩ ⟨k, h'.objectaddress, classId⟩ x rfl).trans hEq⟩
      rw [hUnused e hKeyOf x hKeyOf', hK.strict.eqv_refl e] at hApart
      cases hApart
    obtain ⟨t'', hInsert, hStores', -⟩ := hStores.insert hK hNew (hRoomKept _ (hRoom t rfl)) 0
    have hAdded : addKey K t' ⟨k, h'.objectaddress, classId⟩ = (true, t'') := by
      rw [addKey, hInsert]
      rfl
    obtain ⟨l, hl, -⟩ := hP.synced.object_of_key he
    rw [hAddress] at hl
    have hPos := (hP.data.bounds hl).1
    have hStored := hP.synced.stored _ l hl
    have hStart : Database.readPosition position (h'.objectaddress + sizeOfObjectHeader + 8 * 2) =
        h'.objectaddress + keyOffset := by
      rw [Database.readPosition_pos position (by omega), keyOffset]
      omega
    obtain ⟨hWritten, hObject⟩ := hP.data.writeBytes hl keyOffset k.1
      (by rw [k.2]; exact hStored.room)
    rw [hDeleted]
    dsimp only
    rw [if_pos rfl, hAdded, if_pos rfl, hStart, if_neg (by omega)]
    refine .inr ⟨h', e, _, t'', _, hMem, hKeyOf, hAddress, rfl, ⟨rfl, hStores', hWritten, ?_⟩, ?_, rfl⟩
    · change Synced classId (d.writeBytes (h'.objectaddress + keyOffset) k.1).object _
      obtain ⟨hNewStored, hNewKey⟩ := hStored.setKey k
      rw [hObject, k.2, ← hAddress]
      exact hP.synced.rekey hK.strict hByName he rfl (hAddress ▸ hNew) hNewStored hNewKey
    · exact fun a m hReach => hReach.of_update hl hObject (splice_length hStored.room k.2)

omit hK hByName in
theorem writeBehind {a : Int} {m : Nat} (hReach : p.Reaches a m) (i : Nat) (bytes : List UInt8)
    (hBehind : keyOffset + n ≤ i) (hIn : i + bytes.length ≤ m) :
    Kept K classId { p with data := p.data.writeBytes (a + i) bytes } t A ∧
      ∀ x k, p.Reaches x k →
        ({ p with data := p.data.writeBytes (a + i) bytes } : Pod n).Reaches x k := by
  obtain ⟨l, hl, hm⟩ := hReach
  obtain ⟨hWritten, hObject⟩ := hP.data.writeBytes hl i bytes (by omega)
  have hLength := splice_length (l := l) (i := i) (k := bytes.length) (by omega) rfl
  obtain ⟨hStored, hKey⟩ := (hP.synced.stored a l hl).of_front hLength
    (splice_take hBehind (by omega))
  refine ⟨⟨hP.index, hP.stores, hWritten, ?_⟩, fun x k hReach => hReach.of_update hl hObject hLength⟩
  change Synced classId (p.data.writeBytes (a + i) bytes).object A
  rw [hObject]
  exact hP.synced.setBytes hl hStored hKey

theorem changeOther {position : Int} {h : InfoHog n} {ob : List UInt8} {index : Nat} {findObject : Bool}
    (hIndex : index ≠ 0)
    (hSafe : ∀ h' ∈ h.loaded K classId position p findObject, HogCall.OtherSafe h' p ob index) :
    Settled K classId (h.changeOther K classId position p ob index findObject) := by
  rw [InfoHog.changeOther]
  rcases hP.load_eq hK hByName position h findObject with ⟨o, hLoad⟩ | ⟨h', hLoad, hMem, -⟩
  · rw [hLoad]
    exact hP.settled rfl
  rw [hLoad]
  simp only [Option.bind_eq_bind, Option.bind_some, if_true]
  have hOtherSafe := hSafe h' hMem
  rw [HogCall.OtherSafe] at hOtherSafe
  split
  · rename_i hLength
    rw [if_pos hLength] at hOtherSafe
    rcases hP.deleteObject_eq hK hByName position h' with
      ⟨-, hDelete⟩ | ⟨k, p', t', -, -, hP', hDelete, hEof, hRev, hRoom, -⟩
    · rw [hDelete]
      exact hP.settled rfl
    · rw [hDelete]
      simp only [Option.bind_some, if_true]
      refine hP'.writeObject hK hByName ?_
      split
      · exact hOtherSafe.after hEof hRev hRoom rfl
      · rfl
  · rename_i hLength
    rw [if_neg hLength] at hOtherSafe
    split
    · exact hP.settled rfl
    · split
      · exact hP.settled rfl
      · rename_i hLow hSome
        have hReach := hOtherSafe.resolve_left hSome
        have hMember := InfoHog.setMember_length hIndex (not_not.mp hLength)
        have hBehind := InfoHog.memberOffset_le (h := h') hIndex
        obtain ⟨hWritten, -⟩ := hP.writeBehind hReach (h'.memberOffset index + 8) _ hBehind
          (Nat.le_of_eq (congrArg _ hMember))
        rw [show h'.objectaddress + ((h'.memberOffset index + 8 : Nat) : Int) =
          h'.objectaddress + h'.memberOffset index + 8 by omega] at hWritten
        exact hWritten.settled (o := ⟨_, _, _⟩) rfl

theorem changeKeyMember {position : Int} {h : InfoHog n} {k : Buffer n} {findObject : Bool}
    (hSafe : ∀ h' ∈ h.loaded K classId position p findObject, HogCall.KeySafe K h' p k) :
    Settled K classId (h.changeKeyMember K classId position p k findObject) := by
  rcases hP.changeKeyMember_eq hK hByName hSafe with
    ⟨o, hChange⟩ | ⟨h', e, p', t', A', -, -, -, hChange, hP', -⟩
  · rw [hChange]
    exact hP.settled rfl
  · rw [hChange]
    exact hP'.settled rfl

theorem changeMember {position : Int} {h : InfoHog n} {ob : List UInt8} {index : Nat} {findObject : Bool}
    (hSafe : (HogCall.changeMember ob index findObject).Safe K classId position h p) :
    Settled K classId (h.changeMember K classId position p ob index findObject) := by
  rw [HogCall.Safe] at hSafe
  rw [InfoHog.changeMember]
  by_cases hIndex : index = 0
  · rw [if_pos hIndex] at hSafe ⊢
    obtain ⟨hLength, hSafe⟩ := hSafe
    rw [dif_pos hLength]
    exact hP.changeKeyMember hK hByName hSafe
  · rw [if_neg hIndex] at hSafe ⊢
    exact hP.changeOther hK hByName hIndex hSafe

omit hK hByName in
/-- The members that `ChangeObject` writes stay in the room of the new ones. -/
theorem changeMembers {a : Int} {m : Nat} (hReach : p.Reaches a m) (i : Nat) (ms ms' : List (List UInt8))
    (hBehind : keyOffset + n ≤ i) (hIn : i + (ms'.map fun m => 8 + m.length).sum ≤ m) :
    Kept K classId { p with data := (InfoHog.changeMembers p.data (a + i) ms ms').1 } t A := by
  induction ms generalizing p i ms' with
  | nil => exact hP
  | cons x ms ih =>
    cases ms' with
    | nil => exact hP
    | cons y ms' =>
      rw [List.map_cons, List.sum_cons] at hIn
      rw [InfoHog.changeMembers]
      split
      · obtain ⟨hWritten, hKept⟩ := hP.writeBehind hReach (i + 8) y (by omega) (by omega)
        have hRest := ih hWritten (hKept a m hReach) (i + 8 + y.length) ms' (by omega) (by omega)
        dsimp only at hRest ⊢
        rwa [show a + ((i + 8 : Nat) : Int) = a + i + 8 by omega,
          show a + ((i + 8 + y.length : Nat) : Int) = a + i + 8 + y.length by omega] at hRest
      · have hRest := ih hP hReach (i + 8) ms' (by omega) (by omega)
        dsimp only
        rwa [show a + ((i + 8 : Nat) : Int) = a + i + 8 by omega] at hRest

theorem changeObject {position : Int} {h ob : InfoHog n} {findObject : Bool}
    (hSafe : ∀ h' ∈ h.loaded K classId position p findObject, HogCall.ObjectSafe K h' p ob) :
    Settled K classId (h.changeObject K classId position p ob findObject) := by
  rw [InfoHog.changeObject]
  rcases hP.load_eq hK hByName position h findObject with ⟨o, hLoad⟩ | ⟨h', hLoad, hMem, -⟩
  · rw [hLoad]
    exact hP.settled rfl
  rw [hLoad]
  simp only [Option.bind_eq_bind, Option.bind_some, if_true]
  have hObjectSafe := hSafe h' hMem
  rw [HogCall.ObjectSafe] at hObjectSafe
  split
  · exact hP.settled rfl
  rename_i hMembers
  rw [if_neg hMembers] at hObjectSafe
  split
  · rename_i hLength
    rw [if_pos hLength] at hObjectSafe
    rcases hP.deleteObject_eq hK hByName position h' with
      ⟨-, hDelete⟩ | ⟨k, p', t', -, -, hP', hDelete, hEof, hRev, hRoom, -⟩
    · rw [hDelete]
      exact hP.settled rfl
    · rw [hDelete]
      simp only [Option.bind_some, if_true]
      refine hP'.writeObject hK hByName ?_
      split
      · exact hObjectSafe.after hEof hRev hRoom rfl
      · rfl
  · rename_i hLength
    rw [if_neg hLength] at hObjectSafe
    have hFinish {p' : Pod n} {t' : Btree (InfoHogKey n)} {A' : KeySet K.comparison} {h'' : InfoHog n}
        (hP' : Kept K classId p' t' A')
        (hReach : p'.Reaches h''.objectaddress (sizeOfObjectHeader + ob.dataLength)) :
        Settled K classId
          (let address := h''.objectaddress + sizeOfObjectHeader + 8 * 2 + n
          if address < gxCurrAddress then some ⟨false, some h'', p'⟩
          else
            let r := InfoHog.changeMembers p'.data address h''.others ob.others
            some ⟨true, some { h'' with others := r.2 }, { p' with data := r.1 }⟩) := by
      dsimp only
      split
      · exact hP'.settled rfl
      · have hWritten := hP'.changeMembers hReach (keyOffset + n) h''.others ob.others
          (Nat.le_refl _) ob.members_fit
        rw [show h''.objectaddress + ((keyOffset + n : Nat) : Int) =
          h''.objectaddress + sizeOfObjectHeader + 8 * 2 + n by rw [keyOffset]; omega] at hWritten
        exact hWritten.settled (o := ⟨_, _, _⟩) rfl
    by_cases hKey : h'.key = ob.key
    · rw [if_pos hKey] at hObjectSafe ⊢
      exact hFinish hP hObjectSafe
    · rw [if_neg hKey] at hObjectSafe ⊢
      have hKeySafe : ∀ g ∈ h'.loaded K classId position p true, HogCall.KeySafe K g p ob.key := by
        intro g hg
        rcases hP.load_eq hK hByName position h' true with ⟨o, hLoad'⟩ | ⟨g', -, hMem', hFound⟩
        · rw [InfoHog.loaded, hLoad'] at hg
          cases hg
        · obtain rfl := Option.mem_unique hg hMem'
          obtain ⟨hSame, k, hk, hKeyOf, hAddress⟩ := hFound rfl
          intro e he
          obtain rfl := Option.mem_unique he hKeyOf
          rw [hSame] at he
          obtain ⟨hUnused, hRoom⟩ := (hObjectSafe e he).1
          exact ⟨hAddress, fun e he => hUnused e (hSame ▸ he), hRoom⟩
      rcases hP.changeKeyMember_eq hK hByName hKeySafe with
        ⟨o, hChange⟩ | ⟨g, e, p', t', A', hg, hKeyOf, hAddress, hChange, hP', hReach, -⟩
      · rw [hChange]
        exact hP.settled rfl
      · rw [hChange]
        simp only [Option.bind_some, if_true]
        refine @hFinish p' t' A' { g with key := ob.key } hP' (hReach _ _ ?_)
        dsimp only
        rcases hP.load_eq hK hByName position h' true with ⟨o, hLoad'⟩ | ⟨g', -, hMem', hFound⟩
        · rw [InfoHog.loaded, hLoad'] at hg
          cases hg
        · obtain rfl := Option.mem_unique hg hMem'
          rw [← hAddress]
          exact (hObjectSafe e ((hFound rfl).1 ▸ hKeyOf)).2

/-- A safe call returns and keeps the index. -/
theorem perform {position : Int} {h : InfoHog n} {c : HogCall n} (hSafe : c.Safe K classId position h p) :
    Settled K classId (c.perform K classId position h p) := by
  cases c with
  | writeObject find => exact hP.writeObject hK hByName hSafe
  | findObject =>
    rcases hP.find_eq hK position h with ⟨-, hFind⟩ | ⟨k, -, -, hFind⟩
    all_goals
      rw [HogCall.perform, hFind]
      exact hP.settled rfl
  | readObject =>
    refine hP.settled ?_
    change (⟨p.data.getEOF.2, p.index⟩ : Pod n) = p
    rw [hP.data.getEOF]
  | deleteObject => exact hP.deleteObject hK hByName position h
  | changeMember ob index findObject => exact hP.changeMember hK hByName hSafe
  | changeKeyMember k findObject => exact hP.changeKeyMember hK hByName hSafe
  | changeObject ob findObject => exact hP.changeObject hK hByName hSafe

omit hK in
theorem inSync (hC : K.comparison.Strict) (hClass : -2 ^ 63 ≤ classId ∧ classId < 2 ^ 63) :
    InSync classId p := by
  obtain ⟨blocks, free, hIntact⟩ := hP.data
  have hMem (a : Int) : a ∈ p.data.objects ↔ ∃ k ∈ A.keys, k.objectId = a := by
    rw [hIntact.holds.mem_objects_iff, Option.isSome_iff_exists]
    constructor
    · rintro ⟨l, hl⟩
      obtain ⟨k, hk, hAddress, -⟩ := hP.synced.key_of_object hl
      exact ⟨k, hk, hAddress⟩
    · rintro ⟨k, hk, rfl⟩
      obtain ⟨l, hl, -⟩ := hP.synced.object_of_key hk
      exact ⟨l, hl⟩
  have hLive : liveObjects classId p.data = p.data.objects := by
    refine List.filter_eq_self.mpr fun a ha => decide_eq_true ?_
    obtain ⟨k, hk, rfl⟩ := (hMem a).mp ha
    obtain ⟨l, hl, -⟩ := hP.synced.object_of_key hk
    exact (hP.synced.stored _ l hl).header_eq hP.data hl hClass
  have hKeys : (A.keys.map InfoHogKey.objectId).Nodup := by
    refine List.Nodup.map_on (fun j hj k hk hSame => hP.synced.unique hC hByName hj hk hSame) ?_
    refine A.sorted.imp fun {j k} hLt hEq => ?_
    rw [hEq, hC.lt_irrefl] at hLt
    cases hLt
  refine ⟨t, hP.index, ?_, fun k hk => ?_⟩
  · rw [hP.stores.keys, hLive]
    refine (List.perm_ext_iff_of_nodup hKeys hIntact.holds.objects_nodup).mpr fun a => ?_
    rw [hMem, List.mem_map]
  · rw [hP.stores.keys] at hk
    obtain ⟨l, hl, hKey⟩ := hP.synced.object_of_key hk
    rw [(hP.synced.stored _ l hl).memberZero_eq hP.data hl, hKey]

end Kept

end Kept

/-! ## Runs -/

/-- A POD with a new data file and a new index. -/
inductive Pod.New : Pod n → Prop
  | created {rev : Revision} {staticSize : Nat} (hStatic : staticSize + rev.fileHeaderSize < 2 ^ 63)
      {L : FileLayout} {order keySize numTrees : Int} {allocsLeft : Option Nat}
      {t : Btree (InfoHogKey n)} (hOrder : 5 ≤ order) (hTrees : 1 ≤ numTrees)
      (hCreate : Btree.create L order keySize numTrees allocsLeft = .ok () t) :
      Pod.New ⟨Database.create rev staticSize, some t⟩

theorem Pod.New.kept {p : Pod n} (hNew : p.New) (K : KeyClass (InfoHogKey n)) (classId : Int) :
    ∃ t, Kept K classId p t KeySet.empty := by
  cases hNew with
  | @created rev staticSize hStatic L order keySize numTrees allocsLeft t hOrder hTrees hCreate =>
    have hIntact := Database.create_intact rev hStatic
    have hNone (a : Int) : (Database.create rev staticSize).object a = none :=
      hIntact.holds.object_eq_none_iff.mpr fun b hb => absurd hb List.not_mem_nil
    refine ⟨t, rfl, Btree.create_stores hOrder hTrees hCreate, ⟨_, _, hIntact⟩, ?_, fun a name => ?_⟩
    · intro a l hl
      rw [hNone] at hl
      cases hl
    · rw [hNone]
      constructor
      · rintro ⟨l, hl, -⟩
        cases hl
      · rintro ⟨k, hk, -⟩
        exact absurd hk List.not_mem_nil

/-- Keys of one byte. -/
def byteKey : KeyType 1 where
  greater a b := decide ((b.1.headD 0).toNat < (a.1.headD 0).toNat)
  equal a b := decide ((a.1.headD 0).toNat = (b.1.headD 0).toNat)

/-- An object that has its key only. -/
def byteHog (b : UInt8) : InfoHog 1 := ⟨⟨[b], rfl⟩, [], [], 0⟩

def byteTree : Btree (InfoHogKey 1) :=
  match Btree.create (.ofRevision .E 11 24) 11 24 1 none with
  | .ok _ t | .error _ t => t

def bytePod : Pod 1 := ⟨Database.create .E 0, some byteTree⟩

theorem byteKey_strict : byteKey.comparison.Strict := by
  constructor <;> simp [KeyType.comparison, byteKey] <;> omega

end DataReel
