import DataReel.Hog.InSyncRun

/-! # Objects that are read as they were written

An object is stored as the number of its members and each of them with its
length. `Read` leaves a member of the array that it reads into as it is, if the
one in the file has no bytes.
-/

namespace DataReel

namespace Database

/-- The file has these bytes at a position. -/
structure Stores (d : Database) (position : Int) (l : List UInt8) : Prop where
  bytes : d.file.get position l.length = l
  size : position + l.length ≤ d.fileSize

variable {d d' : Database} {position : Int} {l l' : List UInt8}

theorem Stores.append (h : d.Stores position (l ++ l')) :
    d.Stores position l ∧ d.Stores (position + l.length) l' := by
  obtain ⟨hBytes, hSize⟩ := h
  rw [List.length_append, Bytes.get_add] at hBytes
  rw [List.length_append] at hSize
  obtain ⟨hFirst, hRest⟩ := List.append_inj hBytes Bytes.get_length
  exact ⟨⟨hFirst, by omega⟩, ⟨hRest, by omega⟩⟩

theorem Stores.readBytes (h : d.Stores position l) {n : Nat} (hn : l.length = n) :
    ∃ b, d.readBytes position n = some b ∧ b.1 = l := by
  subst hn
  exact ⟨⟨l, rfl⟩, readBytes_eq_some_iff.mpr ⟨.inr h.size, h.bytes⟩, rfl⟩

theorem Stores.of_same (h : d.Stores position l) (hFile : d'.file = d.file)
    (hSize : d'.fileSize = d.fileSize) : d'.Stores position l :=
  ⟨hFile ▸ h.bytes, hSize ▸ h.size⟩

theorem le_writeBuffers (ls : List (List UInt8)) (h : position ≤ d.fileSize) :
    position + ls.flatten.length ≤ (d.writeBuffers position ls).fileSize := by
  induction ls generalizing d position with
  | nil => simpa [writeBuffers] using h
  | cons l ls ih =>
    have hSize : position + l.length ≤ (d.writeBytes position l).fileSize := Int.le_max_right _ _
    have hRest := ih hSize
    rw [writeBuffers, List.flatten_cons, List.length_append]
    omega

theorem writeBuffers_stores (d : Database) (position : Int) (l : List UInt8)
    (ls : List (List UInt8)) :
    (d.writeBuffers position (l :: ls)).Stores position (l :: ls).flatten := by
  constructor
  · rw [writeBuffers_file]
    exact Bytes.get_put_self
  · have hSize : position + l.length ≤ (d.writeBytes position l).fileSize := Int.le_max_right _ _
    have hRest := le_writeBuffers ls hSize
    rw [writeBuffers, List.flatten_cons, List.length_append]
    omega

theorem readFileHdr_file (d : Database) :
    d.readFileHdr.2.file = d.file ∧ d.readFileHdr.2.fileSize = d.fileSize := by
  rw [readFileHdr]
  dsimp only
  split
  · exact ⟨rfl, rfl⟩
  · split <;> exact ⟨rfl, rfl⟩

theorem getEOF_file (d : Database) :
    d.getEOF.2.file = d.file ∧ d.getEOF.2.fileSize = d.fileSize := by
  rw [getEOF]
  generalize FileHeader.ofWords _ = fh
  split
  · exact ⟨rfl, rfl⟩
  · exact d.readFileHdr_file

end Database

variable {n : Nat}

/-- Members as they are stored. -/
def memberRecords (ms : List (List UInt8)) : List UInt8 :=
  (ms.flatMap fun m => [Bytes.leBytes 8 m.length, m]).flatten

theorem memberRecords_cons (m : List UInt8) (ms : List (List UInt8)) :
    memberRecords (m :: ms) = Bytes.leBytes 8 m.length ++ (m ++ memberRecords ms) := by
  simp [memberRecords]

/-- What `Read` makes of a member of the array and the one in the file. -/
def readMember (m old : List UInt8) : List UInt8 := if 0 < m.length then m else old

theorem readMember_eq_iff {m old : List UInt8} : readMember m old = m ↔ (m = [] → old = []) := by
  rw [readMember]
  split
  · rename_i hBytes
    exact iff_of_true rfl fun hNone => absurd hNone (List.length_pos_iff.mp hBytes)
  · rename_i hNone
    obtain rfl : m = [] := List.length_eq_zero_iff.mp (by omega)
    simp

namespace InfoHog

theorem readMembers_eq {d : Database} (eof : Int) {position : Int} {ms olds : List (List UInt8)}
    (hLength : olds.length = ms.length) (hFits : ∀ m ∈ ms, m.length < 2 ^ 64)
    (hStores : d.Stores position (memberRecords ms)) :
    (readMembers d eof position olds).map Prod.fst =
      if ∀ m ∈ ms, (m.length : Int) ≤ eof then some (List.zipWith readMember ms olds) else none := by
  induction ms generalizing olds position with
  | nil =>
    obtain rfl := List.length_eq_zero_iff.mp hLength
    rw [if_pos nofun]
    rfl
  | cons m ms ih =>
    obtain ⟨old, olds, rfl⟩ := List.exists_cons_of_length_eq_add_one hLength
    obtain ⟨hFit, hFits⟩ := List.forall_mem_cons.mp hFits
    rw [memberRecords_cons] at hStores
    obtain ⟨hWord, hStores⟩ := hStores.append
    obtain ⟨hMember, hRest⟩ := hStores.append
    rw [Bytes.leBytes_length] at hMember hRest
    obtain ⟨word, hReadWord, hWordBytes⟩ := hWord.readBytes Bytes.leBytes_length
    obtain ⟨bytes, hReadBytes, hBytes⟩ := hMember.readBytes rfl
    have hLen : Bytes.leNat word.1 = m.length := by
      rw [hWordBytes]
      exact Bytes.leNat_leBytes hFit
    have hNext := ih (Nat.succ.inj hLength) hFits hRest
    have hEight : ((8 : Nat) : Int) = 8 := rfl
    rw [hEight] at hReadBytes hNext
    rw [readMembers, hReadWord, Option.bind_eq_bind, Option.bind_some]
    dsimp only
    rw [hLen, List.zipWith_cons_cons]
    by_cases hLong : eof < 0 ∨ eof < m.length
    · rw [if_pos hLong, if_neg fun hAll => by
        have hFirst := hAll m List.mem_cons_self
        omega]
      rfl
    · rw [if_neg hLong, hReadBytes, Option.bind_eq_bind, Option.bind_some, hBytes]
      have hAll : (∀ k ∈ m :: ms, (k.length : Int) ≤ eof) ↔ ∀ k ∈ ms, (k.length : Int) ≤ eof :=
        List.forall_mem_cons.trans ⟨And.right, fun h => ⟨by omega, h⟩⟩
      rw [if_congr hAll rfl rfl]
      cases hTail : readMembers d eof (position + 8 + m.length) olds with
      | none =>
        rw [hTail, Option.map_none] at hNext
        split at hNext
        · cases hNext
        · rename_i hNot
          rw [if_neg hNot]
          rfl
      | some rest =>
        rw [hTail, Option.map_some] at hNext
        split at hNext
        · rename_i hFits
          rw [if_pos hFits, ← Option.some.inj hNext]
          rfl
        · cases hNext

variable (classId : Int)

/-- `Read` into an array, from an address. -/
def readFrom (v : MemberArray) (position objectAddress : Int) (p : Pod n) : Option (InfoHog n) :=
  (readInto v classId p.data.getEOF.2 p.data.getEOF.1 (Database.readPosition position objectAddress)
    objectAddress).map Prod.fst

/-- What an array must have for the members of an object. -/
def Takes (v : MemberArray) (ms : List (List UInt8)) : Prop :=
  ms.length ≤ v.members.length → ∀ i : Nat, ms[i]? = some [] → v.members[i]? = some []

theorem zipWith_readMember_eq_iff {ms olds : List (List UInt8)} (hLength : olds.length = ms.length) :
    List.zipWith readMember ms olds = ms ↔ ∀ i : Nat, ms[i]? = some [] → olds[i]? = some [] := by
  induction ms generalizing olds with
  | nil => exact iff_of_true rfl nofun
  | cons m ms ih =>
    obtain ⟨old, olds, rfl⟩ := List.exists_cons_of_length_eq_add_one hLength
    rw [List.zipWith_cons_cons, List.cons.injEq, readMember_eq_iff, ih (Nat.succ.inj hLength)]
    constructor
    · rintro ⟨hFirst, hRest⟩ (_ | i) hNone
      · exact congrArg some (hFirst (Option.some.inj hNone))
      · exact hRest i hNone
    · intro hAll
      exact ⟨fun hNone => Option.some.inj (hAll 0 (congrArg some hNone)), fun i => hAll (i + 1)⟩

theorem alloc_length {v : MemberArray} {num : Nat} : (v.alloc num).members.length = num := by
  rw [MemberArray.alloc]
  split
  · exact List.length_take_of_le ‹_›
  · exact List.length_replicate

theorem takes_iff (v : MemberArray) (ms : List (List UInt8)) :
    List.zipWith readMember ms (v.alloc ms.length).members = ms ↔ Takes v ms := by
  rw [zipWith_readMember_eq_iff alloc_length, MemberArray.alloc, Takes]
  split
  · rename_i hLarge
    constructor
    · intro hAll _ i hNone
      have hOld := hAll i hNone
      rwa [List.getElem?_take_of_lt (List.getElem?_eq_some_iff.mp hNone).1] at hOld
    · intro hAll i hNone
      rw [List.getElem?_take_of_lt (List.getElem?_eq_some_iff.mp hNone).1]
      exact hAll hLarge i hNone
  · rename_i hSmall
    refine iff_of_true (fun i hNone => ?_) fun hLarge => absurd hLarge hSmall
    exact List.getElem?_replicate_of_lt (List.getElem?_eq_some_iff.mp hNone).1

theorem bytes_eq_memberRecords (h : InfoHog n) (a : Int) :
    h.bytes classId a = objectHeader classId a ++ (Bytes.leBytes 8 h.members.length ++
      memberRecords h.members) := by
  rw [bytes, records, List.flatten_cons, List.flatten_cons]
  rfl

theorem readObjectHeader_eq {d : Database} {a objectId : Int} (ha : 0 ≤ a)
    (hClass : -2 ^ 63 ≤ classId ∧ classId < 2 ^ 63)
    (hStores : d.Stores a (objectHeader classId objectId)) : readObjectHeader d a = some classId := by
  obtain ⟨oh, hRead, hBytes⟩ := hStores.readBytes (objectHeader_length classId objectId)
  have hWord : oh.1.take 8 = Bytes.leBytes 8 (wordOfInt classId) := by
    rw [hBytes, objectHeader]
    exact List.take_left' Bytes.leBytes_length
  rw [readObjectHeader, if_neg (by omega), hRead]
  dsimp only [Option.bind_eq_bind, Option.bind_some, pure]
  rw [hWord, Bytes.leNat_leBytes (wordOfInt_lt classId), intOfWord_wordOfInt hClass.1 hClass.2]

/-- What `Read` makes of the members that it has read. -/
def ofMembers (array : MemberArray) (objectAddress : Int) (r : List (List UInt8) × Int) :
    Option (InfoHog n × Int) :=
  match r.1 with
  | [] => none
  | key :: others =>
    if hKey : key.length = n then some (⟨⟨key, hKey⟩, others, array.spare, objectAddress⟩, r.2) else none

theorem readInto_members {h : InfoHog n} {d : Database} {a : Int} (eof : Int) (v : MemberArray) (ha : 0 ≤ a)
    (hClass : -2 ^ 63 ≤ classId ∧ classId < 2 ^ 63) (hCount : h.numMembers ≤ infoHogMaxMembers)
    (hStores : d.Stores a (h.bytes classId a)) :
    readInto v classId d eof a a =
        (readMembers d eof (a + sizeOfObjectHeader + 8) (v.alloc h.numMembers).members).bind
          (ofMembers (v.alloc h.numMembers) a : _ → Option (InfoHog n × Int)) ∧
      d.Stores (a + sizeOfObjectHeader + 8) (memberRecords h.members) := by
  rw [bytes_eq_memberRecords] at hStores
  obtain ⟨hHeader, hStores⟩ := hStores.append
  obtain ⟨hNumber, hMembers⟩ := hStores.append
  rw [objectHeader_length] at hNumber hMembers
  rw [Bytes.leBytes_length] at hMembers
  refine ⟨?_, hMembers⟩
  obtain ⟨word, hReadWord, hWordBytes⟩ := hNumber.readBytes Bytes.leBytes_length
  have hLength : h.members.length = h.numMembers := rfl
  have hNum : Bytes.leNat word.1 = h.numMembers := by
    rw [hWordBytes, hLength]
    refine Bytes.leNat_leBytes (hCount.trans_lt ?_)
    decide
  rw [readInto, readObjectHeader_eq classId ha hClass hHeader]
  dsimp only [Option.bind_eq_bind, Option.bind_some]
  rw [if_neg (not_not_intro rfl), hReadWord]
  dsimp only [Option.bind_some]
  rw [hNum, if_neg (by rw [numMembers] at *; omega)]
  rfl

theorem readInto_eq {h : InfoHog n} {d : Database} {a : Int} (eof : Int) (v : MemberArray) (ha : 0 ≤ a)
    (hClass : -2 ^ 63 ≤ classId ∧ classId < 2 ^ 63) (hCount : h.numMembers ≤ infoHogMaxMembers)
    (hFits : ∀ m ∈ h.members, m.length < 2 ^ 64) (hStores : d.Stores a (h.bytes classId a)) :
    (∃ r, (readInto v classId d eof a a : Option (InfoHog n × Int)) = some r ∧
      r.1.members = h.members) ↔
      (∀ m ∈ h.members, (m.length : Int) ≤ eof) ∧ Takes v h.members := by
  obtain ⟨hInto, hMembers⟩ := readInto_members classId eof v ha hClass hCount hStores
  have hRead := readMembers_eq eof (alloc_length (v := v)) hFits hMembers
  have hTakes := takes_iff v h.members
  rw [show h.members.length = h.numMembers from rfl] at hRead hTakes
  rw [hInto]
  cases hTail : readMembers d eof (a + sizeOfObjectHeader + 8) (v.alloc h.numMembers).members with
  | none =>
    have hRead : none = ite _ _ none := (congrArg (Option.map Prod.fst) hTail).symm.trans hRead
    refine iff_of_false (by rintro ⟨r, hNone, -⟩; cases hNone) fun hBoth => ?_
    rw [if_pos hBoth.1] at hRead
    cases hRead
  | some r =>
    have hRead : some r.1 = ite _ _ none := (congrArg (Option.map Prod.fst) hTail).symm.trans hRead
    split at hRead
    · rename_i hAll
      have hMembers := Option.some.inj hRead
      rw [and_iff_right hAll, ← hTakes, ← hMembers]
      dsimp only [Option.bind_some, ofMembers]
      constructor
      · rintro ⟨o, hObject, hSame⟩
        cases hRest : r.1 with
        | nil => simp only [hRest] at hObject; cases hObject
        | cons key others =>
          simp only [hRest] at hObject
          split at hObject
          · obtain rfl := Option.some.inj hObject
            exact hSame
          · cases hObject
      · intro hSame
        have hParts : r.1 = h.key.1 :: h.others := hSame
        simp only [hParts]
        rw [dif_pos h.key.2]
        exact ⟨_, rfl, rfl⟩
    · cases hRead

/-- Whatever object it is read into, an object is read with its key. -/
theorem readAt_stored (o : InfoHog n) {h : InfoHog n} {d : Database} {a eof : Int} (ha : 0 ≤ a)
    (hClass : -2 ^ 63 ≤ classId ∧ classId < 2 ^ 63) (hCount : h.numMembers ≤ infoHogMaxMembers)
    (hFits : ∀ m ∈ h.members, m.length < 2 ^ 64) (hAll : ∀ m ∈ h.members, (m.length : Int) ≤ eof)
    (hStores : d.Stores a (h.bytes classId a)) :
    ∃ r, o.readAt classId d eof a a = some r ∧ r.1.key = h.key ∧ r.1.objectaddress = a ∧
      (Takes o.array h.members → r.1.members = h.members) := by
  obtain ⟨hInto, hMembers⟩ := readInto_members classId eof o.array ha hClass hCount hStores
  have hRead := readMembers_eq eof (alloc_length (v := o.array)) hFits hMembers
  have hTakes := takes_iff o.array h.members
  rw [show h.members.length = h.numMembers from rfl] at hRead hTakes
  rw [if_pos hAll, Option.map_eq_some_iff] at hRead
  obtain ⟨r, hTail, hr⟩ := hRead
  rw [readAt, hInto, hTail, Option.bind_some, ofMembers, hr]
  rw [← hTakes]
  obtain ⟨old, olds, hOlds⟩ : ∃ old olds, (o.array.alloc h.numMembers).members = old :: olds := by
    apply List.exists_cons_of_length_pos
    rw [alloc_length]
    exact Nat.succ_pos _
  have hOld : old.length = n ∨ old = [] := by
    rw [MemberArray.alloc] at hOlds
    split at hOlds
    · left
      obtain ⟨hFirst, -⟩ := List.cons.inj hOlds
      rw [← hFirst]
      exact o.key.2
    · right
      obtain ⟨hFirst, -⟩ := List.cons.inj hOlds
      exact hFirst.symm
  have hKey : readMember h.key.1 old = h.key.1 := by
    apply readMember_eq_iff.mpr
    intro hNone
    have hZero : n = 0 := by rw [← h.key.2, hNone]; rfl
    rcases hOld with hLength | hOld
    · exact List.length_eq_zero_iff.mp (hLength.trans hZero)
    · exact hOld
  rw [hOlds, members, List.zipWith_cons_cons, hKey]
  dsimp only
  rw [dif_pos h.key.2]
  exact ⟨_, rfl, rfl, rfl, id⟩

theorem read_object (h : InfoHog n) (position : Int) (p : Pod n) :
    (h.read classId position p).object = readFrom classId h.array position h.objectaddress p := rfl

/-- An object that is written is read into an array as it was, exactly if no member is longer than the
end of the file, and the array is too small or has no bytes where the object has none. -/
theorem readFrom_write_iff (K : KeyClass (InfoHogKey n)) {classId : Int}
    (hClass : -2 ^ 63 ≤ classId ∧ classId < 2 ^ 63) {position : Int} {h written : InfoHog n} {p : Pod n}
    {o : Outcome n} (hCount : h.numMembers ≤ infoHogMaxMembers) (hFits : ∀ m ∈ h.members, m.length < 2 ^ 64)
    (hWrite : h.write K classId position p = some o) (hObject : o.object = some written)
    (hAddress : 0 < written.objectaddress) (v : MemberArray) (position' : Int) :
    (∃ r, readFrom classId v position' written.objectaddress o.pod = some r ∧ r.members = h.members) ↔
      (∀ m ∈ h.members, (m.length : Int) ≤ o.pod.data.getEOF.1) ∧ Takes v h.members := by
  have hStores : o.pod.data.Stores written.objectaddress (h.bytes classId written.objectaddress) := by
    rw [write] at hWrite
    split at hWrite
    · cases hWrite
    · rename_i a d hAlloc
      have hStores := d.writeBuffers_stores a (objectHeader classId a) h.records
      split at hWrite
      · obtain rfl := Option.some.inj hWrite
        obtain rfl := Option.some.inj hObject
        exact hStores
      · obtain rfl := Option.some.inj hWrite
        obtain rfl := Option.some.inj hObject
        exact hStores
  have hSame := o.pod.data.getEOF_file
  have hRead := readInto_eq classId o.pod.data.getEOF.1 v (by omega) hClass hCount hFits
    (hStores.of_same hSame.1 hSame.2)
  rw [← hRead, readFrom, Database.readPosition, if_neg (by rw [gxCurrAddress]; omega)]
  constructor
  · rintro ⟨r, hSome, hMembers⟩
    obtain ⟨both, hBoth, rfl⟩ := Option.map_eq_some_iff.mp hSome
    exact ⟨both, hBoth, hMembers⟩
  · rintro ⟨both, hBoth, hMembers⟩
    exact ⟨both.1, Option.map_eq_some_iff.mpr ⟨both, hBoth, rfl⟩, hMembers⟩

/-- An object with an empty member is read into an array whose member has no bytes either. -/
theorem readFrom_write_iff_bytes :
    (∃ r, readFrom 1 ⟨[[2], []], []⟩ 0 136
      (((⟨⟨[1], rfl⟩, [[]], [], 0⟩ : InfoHog 1).write (byteKey.keyClass true true) 1 0 bytePod).get
        (by decide)).pod = some r ∧ r.members = [[1], []]) ↔
      (∀ m ∈ ([[1], []] : List (List UInt8)), (m.length : Int) ≤
        ((((⟨⟨[1], rfl⟩, [[]], [], 0⟩ : InfoHog 1).write (byteKey.keyClass true true) 1 0 bytePod).get
          (by decide)).pod).data.getEOF.1) ∧ Takes ⟨[[2], []], []⟩ [[1], []] :=
  @readFrom_write_iff 1 (byteKey.keyClass true true) 1 (by decide) 0 ⟨⟨[1], rfl⟩, [[]], [], 0⟩
    ⟨⟨[1], rfl⟩, [[]], [], 136⟩ bytePod _ (by decide) (by decide) (Option.some_get _).symm (by decide)
    (by decide) ⟨[[2], []], []⟩ 0

/-- The bytes of the array stay in the place of an empty member. -/
theorem readFrom_write_keeps :
    ((⟨⟨[1], rfl⟩, [[]], [], 0⟩ : InfoHog 1).write (byteKey.keyClass true true) 1 0 bytePod).bind
      (fun o => if o.result then
        o.object.bind fun h => (readFrom 1 ⟨[[2], [7]], []⟩ 0 h.objectaddress o.pod).map fun r => r.members
        else none) = some [[1], [7]] := by
  decide

end InfoHog

end DataReel
