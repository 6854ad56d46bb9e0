import DataReel.Database.ScanRun
import DataReel.Hog.ReadWrite
import DataReel.Library.Moves

/-! # Comparing an index with its data file

`CompareIndex` reads every object of the class and looks its key up, and
`RebuildIndexFile` puts the keys into a new index. Both read the objects into
one that they keep, whose members stay where a read fails or a member has no
bytes.
-/

namespace DataReel

variable {n : Nat}

namespace Database

variable (d : Database)

/-- What a read into a buffer leaves in it: the bytes up to the end of the file. -/
def readPart (start : Int) (old : List UInt8) : List UInt8 :=
  let available := min old.length (d.fileSize - start).toNat
  d.file.get start available ++ old.drop available

theorem readPart_length (start : Int) (old : List UInt8) : (d.readPart start old).length = old.length := by
  rw [readPart, List.length_append, List.length_drop, Bytes.get_length]
  omega

theorem readPart_all {start : Int} {old : List UInt8} (hSize : start + old.length ≤ d.fileSize) :
    d.readPart start old = d.file.get start old.length := by
  rw [readPart, min_eq_left (by omega), List.drop_length, List.append_nil]

variable {d} {d' : Database}

theorem readBytes_congr (hFile : d'.file = d.file) (hSize : d'.fileSize = d.fileSize) (position : Int)
    (k : Nat) : d'.readBytes position k = d.readBytes position k := by
  simp only [readBytes, hFile, hSize]

end Database

/-! ## The object that is read into -/

/-- An `InfoHog` object and the object header of a scan, with the file position. -/
structure Reader where
  array : MemberArray
  header : Buffer sizeOfObjectHeader
  position : Int

/-- A new object. -/
instance : Inhabited Reader := ⟨⟨[], []⟩, ⟨List.replicate sizeOfObjectHeader 0, List.length_replicate⟩, 0⟩

namespace Reader

/-- The members after a read, with whether it succeeds and where it ends. -/
def fillMembers (d : Database) (eof : Int) :
    Int → List (List UInt8) → Bool × Int × List (List UInt8)
  | position, [] => (true, position, [])
  | position, m :: ms =>
    match d.readBytes position 8 with
    | none => (false, d.readEnd position 8, m :: ms)
    | some word =>
      let len := Bytes.leNat word.1
      if eof < 0 ∨ eof < len then (false, position + 8, m :: ms)
      else if len = 0 then
        let r := fillMembers d eof (position + 8) ms
        (r.1, r.2.1, m :: r.2.2)
      else
        match d.readBytes (position + 8) len with
        | none => (false, d.readEnd (position + 8) len, d.readPart (position + 8) (resize 0 m len) :: ms)
        | some bytes =>
          let r := fillMembers d eof (position + 8 + len) ms
          (r.1, r.2.1, bytes.1 :: r.2.2)

variable (classId : Int) (n : Nat) (d : Database)

/-- `ReadObjectHeader` into the header of the scan. -/
def readObjectHeader (a : Int) (o : Reader) : Bool × Reader :=
  let start := Database.readPosition o.position a
  if start < 0 then (false, o)
  else (start + sizeOfObjectHeader ≤ d.fileSize,
    { o with
      header := ⟨d.readPart start o.header.1, (d.readPart_length start _).trans o.header.2⟩
      position := d.readEnd start sizeOfObjectHeader })

def ohClass (o : Reader) : Int := intOfWord (Bytes.leNat (o.header.1.take 8))

/-- `Read`, which has an object header of its own. -/
def read (a : Int) (o : Reader) : Bool × Reader :=
  let start := Database.readPosition d.eofPosition a
  match InfoHog.readObjectHeader d start with
  | none => (false, { o with position := d.readEnd start sizeOfObjectHeader })
  | some ohClass =>
    if ohClass ≠ classId then (false, { o with position := start + sizeOfObjectHeader })
    else
      match d.readBytes (start + sizeOfObjectHeader) 8 with
      | none => (false, { o with position := d.readEnd (start + sizeOfObjectHeader) 8 })
      | some word =>
        let num := Bytes.leNat word.1
        if num = 0 ∨ infoHogMaxMembers < num then
          (false, { o with position := start + sizeOfObjectHeader + 8 })
        else
          let array := o.array.alloc num
          let r := fillMembers d d.getEOF.1 (start + sizeOfObjectHeader + 8) array.members
          (r.1 && (r.2.2.headD []).length = n,
            { o with array := ⟨r.2.2, array.spare⟩, position := r.2.1 })

/-- Member 0 as a key. -/
def name (o : Reader) : Buffer n :=
  let key := o.array.members.headD []
  ⟨resize 0 key n, resize_length 0⟩

def reads : ObjectReads Reader where
  readObjectHeader d a o := readObjectHeader d a o
  sameClass o := o.ohClass = classId
  read d a o := read classId n d a o
  position := position

end Reader

section Calls

variable (K : KeyClass (InfoHogKey n)) (classId : Int) (m : Nat) (d : Database) (position : Int) (o : Reader)

/-- `CompareIndex` of an index; the loop takes at most `m` turns. -/
def InfoHog.compareIndex (t : Btree (InfoHogKey n)) : Option Bool :=
  DataReel.compareIndex (Reader.reads classId n)
    (fun a o => (findKey K t ⟨o.name n, a, o.ohClass⟩).1.isSome) m d position o

/-- `Insert` of a key, if it succeeds. -/
def tryAddKey (t : Btree (InfoHogKey n)) (key : InfoHogKey n) : Option (Btree (InfoHogKey n)) :=
  let r := addKey K t key
  if r.1 then some r.2 else none

/-- `RebuildIndexFile` with a new index. -/
def InfoHog.rebuildIndexFile (t : Btree (InfoHogKey n)) : Option (Bool × Btree (InfoHogKey n)) :=
  DataReel.rebuildIndexFile (Reader.reads classId n)
    (fun t a o => tryAddKey K t ⟨o.name n, a, o.ohClass⟩) m d position o t

end Calls

/-! ## Reading an object -/

namespace Reader

variable {d : Database} {eof position a : Int} {m m' : List UInt8} {ms ms' : List (List UInt8)}
  {classId : Int} {o : Reader}

theorem fillMembers_isSome (d : Database) (eof position : Int) (hLength : ms.length = ms'.length) :
    (fillMembers d eof position ms).1 = (InfoHog.readMembers d eof position ms').isSome := by
  induction ms generalizing ms' position with
  | nil =>
    obtain rfl := List.length_eq_zero_iff.mp hLength.symm
    rfl
  | cons m ms ih =>
    obtain ⟨m', ms', rfl⟩ := List.exists_cons_of_length_eq_add_one hLength.symm
    have hRest := Nat.succ.inj hLength
    rw [fillMembers, InfoHog.readMembers, Option.bind_eq_bind]
    cases d.readBytes position 8 with
    | none => rfl
    | some word =>
      dsimp only [Option.bind_some]
      split
      · rfl
      · split
        · rename_i hNone
          have hZero : d.readBytes (position + 8) (Bytes.leNat word.1) =
              some ⟨d.file.get (position + 8) (Bytes.leNat word.1), Bytes.get_length⟩ :=
            if_pos (.inl hNone)
          rw [hZero, Option.bind_eq_bind, Option.bind_some, hNone]
          have hNext := ih (position + 8) hRest
          rw [Int.natCast_zero, Int.add_zero]
          cases hRun : InfoHog.readMembers d eof (position + 8) ms' with
          | none => rwa [hRun] at hNext
          | some r => rwa [hRun] at hNext
        · cases d.readBytes (position + 8) (Bytes.leNat word.1) with
          | none => rfl
          | some bytes =>
            have hNext := ih (position + 8 + Bytes.leNat word.1) hRest
            rw [Option.bind_eq_bind, Option.bind_some]
            cases hRun : InfoHog.readMembers d eof (position + 8 + Bytes.leNat word.1) ms' with
            | none => rwa [hRun] at hNext
            | some r => rwa [hRun] at hNext

theorem fillMembers_first (m : List UInt8) (ms : List (List UInt8))
    (hSome : ∀ word, d.readBytes position 8 = some word → Bytes.leNat word.1 ≠ 0) {r : List (List UInt8) × Int} (hRun : InfoHog.readMembers d eof position (m' :: ms') = some r) :
    ∃ key others rest, r.1 = key :: others ∧
      (fillMembers d eof position (m :: ms)).2.2 = key :: rest := by
  rw [InfoHog.readMembers, Option.bind_eq_bind, Option.bind_eq_some_iff] at hRun
  obtain ⟨word, hWord, hRun⟩ := hRun
  have hLen := hSome word hWord
  rw [fillMembers, hWord]
  dsimp only at hRun ⊢
  split at hRun
  · cases hRun
  · rename_i hFits
    rw [Option.bind_eq_bind, Option.bind_eq_some_iff] at hRun
    obtain ⟨bytes, hBytes, hRun⟩ := hRun
    rw [Option.bind_eq_bind, Option.bind_eq_some_iff] at hRun
    obtain ⟨rest, -, hRest⟩ := hRun
    cases hRest
    rw [if_neg hFits, if_neg hLen, hBytes, if_pos (Nat.pos_of_ne_zero hLen)]
    exact ⟨_, _, _, rfl, rfl⟩

end Reader

/-- The key that a new object reads at an address. -/
def InfoHog.keyAt (classId : Int) (d : Database) (a : Int) : Option (Buffer n) :=
  (InfoHog.readInto ⟨[], []⟩ classId d d.getEOF.1 a a).map fun r => r.1.key

/-- An object of the class has bytes of a key. -/
def InfoHog.Keyed (classId : Int) (d : Database) (a : Int) : Prop :=
  InfoHog.readObjectHeader d a = some classId →
    ∀ word, d.readBytes (a + sizeOfObjectHeader + 8) 8 = some word → Bytes.leNat word.1 ≠ 0

namespace Reader

/-- Whether an object can be read, and its key, do not depend on what is read into. -/
theorem read_eq {d : Database} {classId a : Int} {o : Reader} (ha : 0 < a)
    (hKeyed : InfoHog.Keyed classId d a) :
    (∃ key : Buffer n, InfoHog.keyAt classId d a = some key ∧ (read classId n d a o).1 = true ∧
        (read classId n d a o).2.name n = key) ∨
      (InfoHog.keyAt classId d a : Option (Buffer n)) = none ∧ (read classId n d a o).1 = false := by
  rw [InfoHog.keyAt, InfoHog.readInto, read, Database.readPosition_pos _ ha, Option.bind_eq_bind]
  cases hHeader : InfoHog.readObjectHeader d a with
  | none => exact .inr ⟨rfl, rfl⟩
  | some ohClass =>
    dsimp only [Option.bind_some]
    by_cases hClass : ohClass ≠ classId
    · rw [if_pos hClass, if_pos hClass]
      exact .inr ⟨rfl, rfl⟩
    · rw [if_neg hClass, if_neg hClass]
      rw [not_not] at hClass
      subst hClass
      cases d.readBytes (a + sizeOfObjectHeader) 8 with
      | none => exact .inr ⟨rfl, rfl⟩
      | some count =>
        dsimp only [Option.bind_eq_bind, Option.bind_some]
        by_cases hCount : Bytes.leNat count.1 = 0 ∨ infoHogMaxMembers < Bytes.leNat count.1
        · rw [if_pos hCount, if_pos hCount]
          exact .inr ⟨rfl, rfl⟩
        · rw [if_neg hCount, if_neg hCount]
          have hArray : (o.array.alloc (Bytes.leNat count.1)).members.length = Bytes.leNat count.1 :=
            InfoHog.alloc_length
          have hNew : ((⟨[], []⟩ : MemberArray).alloc (Bytes.leNat count.1)).members.length =
            Bytes.leNat count.1 := InfoHog.alloc_length
          generalize o.array.alloc (Bytes.leNat count.1) = v at hArray ⊢
          generalize (⟨[], []⟩ : MemberArray).alloc (Bytes.leNat count.1) = v' at hNew ⊢
          have hSucc := fillMembers_isSome d d.getEOF.1 (a + sizeOfObjectHeader + 8)
            (hArray.trans hNew.symm)
          cases hRun : InfoHog.readMembers d d.getEOF.1 (a + sizeOfObjectHeader + 8) v'.members with
          | none =>
            rw [hRun] at hSucc
            right
            rw [hSucc]
            exact ⟨rfl, rfl⟩
          | some r =>
            rw [hRun] at hSucc
            obtain ⟨m, ms, hm⟩ := List.exists_cons_of_length_pos (l := v.members) (by omega)
            obtain ⟨m', ms', hm'⟩ := List.exists_cons_of_length_pos (l := v'.members) (by omega)
            rw [hm'] at hRun
            obtain ⟨key, others, rest, hFirst, hFilled⟩ :=
              fillMembers_first m ms (hKeyed hHeader) hRun
            rw [hm] at hSucc ⊢
            rw [hSucc, hFilled]
            simp only [Option.bind_some, hFirst]
            by_cases hLength : key.length = n
            · left
              rw [dif_pos hLength]
              refine ⟨⟨key, hLength⟩, rfl, by simp [hLength], Subtype.ext ?_⟩
              rw [name]
              simp [resize, ← hLength]
            · right
              rw [dif_neg hLength]
              simp [hLength]

theorem readObjectHeader_eq {d : Database} {a c : Int} (o : Reader) (ha : 0 < a)
    (hHeader : InfoHog.readObjectHeader d a = some c) :
    (readObjectHeader d a o).2.ohClass = c := by
  rw [InfoHog.readObjectHeader, if_neg (by omega), Option.bind_eq_bind,
    Option.bind_eq_some_iff] at hHeader
  obtain ⟨oh, hRead, hClass⟩ := hHeader
  obtain ⟨hSize, hGet⟩ := Database.readBytes_eq_some_iff.mp hRead
  have hLength := o.header.2
  have hFits : a + o.header.1.length ≤ d.fileSize := by
    rw [hLength]
    exact hSize.resolve_left (by decide)
  simp only [readObjectHeader, Database.readPosition_pos _ ha]
  rw [if_neg (by omega), ohClass]
  dsimp only
  rw [d.readPart_all hFits, hLength, hGet]
  exact Option.some.inj hClass

theorem read_header (d : Database) (classId a : Int) (o : Reader) :
    (read classId n d a o).2.header = o.header := by
  rw [read]
  dsimp only
  split
  · rfl
  · split
    · rfl
    · split
      · rfl
      · split <;> rfl

theorem keyAt_class {d : Database} {classId a : Int} {key : Buffer n}
    (hKey : InfoHog.keyAt classId d a = some key) : InfoHog.readObjectHeader d a = some classId := by
  rw [InfoHog.keyAt, Option.map_eq_some_iff] at hKey
  obtain ⟨r, hRead, -⟩ := hKey
  rw [InfoHog.readInto, Option.bind_eq_bind, Option.bind_eq_some_iff] at hRead
  obtain ⟨c, hHeader, hRead⟩ := hRead
  split at hRead
  · cases hRead
  · rename_i hSame
    rw [hHeader, not_not.mp hSame]

/-- A scan reads the objects of the class that a new object can read. -/
theorem visit_eq {d : Database} {classId a : Int} {o : Reader} (ha : 0 < a)
    (hKeyed : InfoHog.Keyed classId d a) :
    (∃ (key : Buffer n) (o' : Reader), InfoHog.keyAt classId d a = some key ∧
        (readObjectHeader d a o).2.ohClass = classId ∧
        read classId n d a (readObjectHeader d a o).2 = (true, o') ∧ o'.name n = key ∧
        o'.ohClass = classId) ∨
      (InfoHog.keyAt classId d a : Option (Buffer n)) = none ∧
        ((readObjectHeader d a o).2.ohClass = classId →
          (read classId n d a (readObjectHeader d a o).2).1 = false) := by
  rcases read_eq (n := n) (o := (readObjectHeader d a o).2) ha hKeyed with
    ⟨key, hKey, hRead, hName⟩ | ⟨hNone, hFail⟩
  · left
    have hClass := readObjectHeader_eq o ha (keyAt_class hKey)
    refine ⟨key, (read classId n d a (readObjectHeader d a o).2).2, hKey, hClass, ?_, hName, ?_⟩
    · exact Prod.ext hRead rfl
    · rw [ohClass, read_header]
      exact hClass
  · exact .inr ⟨hNone, fun _ => hFail⟩

end Reader

/-! ## What the scans make of the objects -/

section Visits

variable {d : Database} {classId : Int} {size : Nat} {bs : List (Int × BlockHeader)} {o : Reader}

/-- The scan comes to blocks in use whose objects, if they are of the class, have bytes of a key. -/
def InfoHog.Scannable (classId : Int) (d : Database) (size : Nat) (bs : List (Int × BlockHeader)) : Prop :=
  ∀ b ∈ bs, 0 < b.1 ∧ (b.2.status = gxNormalBlock → InfoHog.Keyed classId d (b.1 + size))

theorem compare_visit {findKey : Int → Reader → Bool} (found : Int → Buffer n → Bool)
    (hFind : ∀ a o, o.ohClass = classId → findKey a o = found a (o.name n)) {a : Int} (ha : 0 < a)
    (hKeyed : InfoHog.Keyed classId d a) (position : Int) (o : Reader) (objects matched : Nat) :
    ∃ position' o', (compareIndexScan (Reader.reads classId n) d findKey).visit a
        (position, o, objects, matched) =
      match (InfoHog.keyAt classId d a : Option (Buffer n)) with
      | some key => .inr (position', o', objects + 1, if found a key then matched + 1 else matched)
      | none => .inr (position', o', objects, matched) := by
  rcases Reader.visit_eq (n := n) (o := o) ha hKeyed with
    ⟨key, o', hKey, hClass, hRead, hName, hClass'⟩ | ⟨hNone, hFail⟩
  · rw [hKey]
    exact ⟨o'.position, o', by
      simp [compareIndexScan, Reader.reads, hClass, hRead, hFind _ _ hClass', hName]⟩
  · rw [hNone]
    by_cases hClass : (Reader.readObjectHeader d a o).2.ohClass = classId
    · exact ⟨_, _, by simp [compareIndexScan, Reader.reads, hClass, hFail hClass]; exact ⟨rfl, rfl⟩⟩
    · exact ⟨_, _, by simp [compareIndexScan, Reader.reads, hClass]; exact ⟨rfl, rfl⟩⟩

theorem compare_visits {findKey : Int → Reader → Bool} (found : Int → Buffer n → Bool)
    (hFind : ∀ a o, o.ohClass = classId → findKey a o = found a (o.name n))
    (hScan : InfoHog.Scannable classId d size bs) {objects matched : Nat} (hLe : matched ≤ objects) :
    (compareIndexScan (Reader.reads classId n) d findKey).visits size bs (o, objects, matched) = true ↔
      objects = matched ∧ ∀ b ∈ bs, b.2.status = gxNormalBlock →
        ∀ key, InfoHog.keyAt classId d (b.1 + size) = some key → found (b.1 + size) key = true := by
  induction bs generalizing o objects matched with
  | nil =>
    change decide (objects = matched) = true ↔ _
    simp
  | cons b bs ih =>
    obtain ⟨⟨hPos, hKeyed⟩, hScan⟩ := List.forall_mem_cons.mp hScan
    rw [List.forall_mem_cons, ObjectScan.visits]
    by_cases hUse : b.2.status = gxNormalBlock
    · rw [if_pos hUse]
      have ha : 0 < b.1 + (size : Int) := by omega
      obtain ⟨position', o', hVisit⟩ := compare_visit found hFind ha (hKeyed hUse) (b.1 + sizeOfBlockHeader)
        o objects matched
      rw [hVisit]
      cases hKey : (InfoHog.keyAt classId d (b.1 + size) : Option (Buffer n)) with
      | none =>
        dsimp only
        rw [ih hScan hLe]
        simp
      | some key =>
        dsimp only
        by_cases hFound : found (b.1 + size) key = true
        · rw [if_pos hFound, ih hScan (Nat.succ_le_succ hLe)]
          simp [hUse, hFound]
        · rw [if_neg hFound, ih hScan (Nat.le_succ_of_le hLe)]
          have hMore : objects + 1 ≠ matched := by omega
          simp [hUse, hFound, hMore]
    · rw [if_neg hUse, ih hScan hLe]
      simp [hUse]

theorem rebuild_visit {ι : Type} {insert : ι → Int → Reader → Option ι}
    (add : ι → Int → Buffer n → Option ι)
    (hInsert : ∀ t a o, o.ohClass = classId → insert t a o = add t a (o.name n)) {a : Int} (ha : 0 < a)
    (hKeyed : InfoHog.Keyed classId d a) (position : Int) (o : Reader) (t : ι) (objects inserts : Nat) :
    ∃ position' o', (rebuildIndexFileScan (Reader.reads classId n) d insert).visit a
        (position, o, t, objects, inserts) =
      match (InfoHog.keyAt classId d a : Option (Buffer n)) with
      | some key =>
        match add t a key with
        | none => .inl (false, t)
        | some t => .inr (position', o', t, objects + 1, inserts + 1)
      | none => .inr (position', o', t, objects, inserts) := by
  rcases Reader.visit_eq (n := n) (o := o) ha hKeyed with
    ⟨key, o', hKey, hClass, hRead, hName, hClass'⟩ | ⟨hNone, hFail⟩
  · rw [hKey]
    refine ⟨o'.position, o', ?_⟩
    simp only [rebuildIndexFileScan, Reader.reads, hClass, hRead, hInsert _ _ _ hClass', hName]
    cases add t a key <;> simp
  · rw [hNone]
    by_cases hClass : (Reader.readObjectHeader d a o).2.ohClass = classId
    · exact ⟨_, _, by simp [rebuildIndexFileScan, Reader.reads, hClass, hFail hClass]; exact ⟨rfl, rfl⟩⟩
    · exact ⟨_, _, by simp [rebuildIndexFileScan, Reader.reads, hClass]; exact ⟨rfl, rfl⟩⟩

theorem tryAddKey_cases {K : KeyClass (InfoHogKey n)} (hK : K.StrictOrder) {t : Btree (InfoHogKey n)}
    {A : KeySet K.comparison} (hStores : t.Stores K A) {m : Nat} (hRoom : t.f.Room (maxLevels + m))
    (key : InfoHogKey n) :
    tryAddKey K t key = none ∨ ∃ t', A.find key = none ∧ tryAddKey K t key = some t' ∧
      t'.Stores K (A.insert hK.strict key) ∧ t'.f.Room m := by
  rw [tryAddKey, addKey]
  cases hFind : A.find key with
  | none =>
    obtain ⟨t', hInsert, hStores', hMore⟩ :=
      hStores.insert hK hFind (hRoom.mono (Nat.le_add_right _ _)) 0
    rw [hInsert]
    exact .inr ⟨t', rfl, rfl, hStores', hMore m hRoom⟩
  | some k =>
    rw [hStores.insert_refused hK hFind 0]
    exact .inl rfl

/-- An index that is rebuilt to the end has the keys of the objects, besides those it had. -/
theorem rebuild_visits {K : KeyClass (InfoHogKey n)} (hK : K.StrictOrder)
    (hScan : InfoHog.Scannable classId d size bs) {t t' : Btree (InfoHogKey n)} {A : KeySet K.comparison}
    (hStores : t.Stores K A) (hRoom : t.f.Room (maxLevels * bs.length)) {objects inserts : Nat}
    (hRebuilt : (rebuildIndexFileScan (Reader.reads classId n) d fun t a o =>
      tryAddKey K t ⟨o.name n, a, o.ohClass⟩).visits size bs (o, t, objects, inserts) = (true, t')) :
    ∃ A' : KeySet K.comparison, t'.Stores K A' ∧ ∀ k, k ∈ A'.keys ↔ k ∈ A.keys ∨
      ∃ b ∈ bs, b.2.status = gxNormalBlock ∧ InfoHog.keyAt classId d (b.1 + size) = some k.objectName ∧
        k.objectId = b.1 + size ∧ k.classId = classId := by
  induction bs generalizing o t A objects inserts with
  | nil =>
    change (decide (objects = inserts), t) = (true, t') at hRebuilt
    obtain rfl := (Prod.mk.inj hRebuilt).2
    exact ⟨A, hStores, fun k => by simp⟩
  | cons b bs ih =>
    obtain ⟨⟨hPos, hKeyed⟩, hScan⟩ := List.forall_mem_cons.mp hScan
    rw [List.length_cons, Nat.mul_succ, Nat.add_comm] at hRoom
    have hRest : t.f.Room (maxLevels * bs.length) := hRoom.mono (Nat.le_add_left _ _)
    rw [ObjectScan.visits] at hRebuilt
    by_cases hUse : b.2.status = gxNormalBlock
    · rw [if_pos hUse] at hRebuilt
      have ha : 0 < b.1 + (size : Int) := by omega
      have hSame (t : Btree (InfoHogKey n)) (a : Int) (o : Reader) (hClass : o.ohClass = classId) :
          tryAddKey K t ⟨o.name n, a, o.ohClass⟩ = tryAddKey K t ⟨o.name n, a, classId⟩ := by
        rw [hClass]
      obtain ⟨position', o', hVisit⟩ := rebuild_visit (n := n)
        (fun t a key => tryAddKey K t ⟨key, a, classId⟩) hSame ha (hKeyed hUse)
        (b.1 + sizeOfBlockHeader) o t objects inserts
      rw [hVisit] at hRebuilt
      cases hKey : (InfoHog.keyAt classId d (b.1 + size) : Option (Buffer n)) with
      | none =>
        rw [hKey] at hRebuilt
        obtain ⟨A', hStores', hKeys⟩ := ih hScan hStores hRest hRebuilt
        refine ⟨A', hStores', fun k => ?_⟩
        simp [hKeys, hKey]
      | some key =>
        rw [hKey] at hRebuilt
        dsimp only at hRebuilt
        rcases tryAddKey_cases hK hStores hRoom ⟨key, b.1 + size, classId⟩ with
          hRefused | ⟨t₁, hNew, hAdded, hStores₁, hRoom₁⟩
        · rw [hRefused] at hRebuilt
          cases hRebuilt
        · rw [hAdded] at hRebuilt
          obtain ⟨A', hStores', hKeys⟩ := ih hScan hStores₁ hRoom₁ hRebuilt
          refine ⟨A', hStores', fun k => ?_⟩
          rw [hKeys, A.mem_insert_iff hK.strict _ hNew, List.exists_mem_cons_iff, hKey, or_assoc,
            or_left_comm]
          have hFirst : k = ⟨key, b.1 + size, classId⟩ ↔ b.2.status = gxNormalBlock ∧
              some key = some k.objectName ∧ k.objectId = b.1 + size ∧ k.classId = classId := by
            obtain ⟨name, id, c⟩ := k
            simp [hUse, eq_comm]
          rw [hFirst]
    · rw [if_neg hUse] at hRebuilt
      obtain ⟨A', hStores', hKeys⟩ := ih hScan hStores hRest hRebuilt
      refine ⟨A', hStores', fun k => ?_⟩
      simp [hKeys, hUse]

end Visits

namespace InfoHog

variable {d d' : Database} {classId : Int} {a : Int} {K : KeyClass (InfoHogKey n)}

/-! ## The file that the scans read -/

theorem readMembers_congr (hFile : d'.file = d.file) (hSize : d'.fileSize = d.fileSize) (eof : Int)
    (position : Int) (ms : List (List UInt8)) :
    readMembers d' eof position ms = readMembers d eof position ms := by
  have hRead := fun position k => Database.readBytes_congr hFile hSize position k
  induction ms generalizing position with
  | nil => rfl
  | cons m ms ih => simp only [readMembers, hRead, ih]

/-- A scan tests the file header first, and the objects stay what they are. -/
theorem keyAt_test (h : d.Undamaged) :
    (keyAt classId d.testFileHeader a : Option (Buffer n)) = keyAt classId d a := by
  obtain ⟨hTested, -, hFile, hSize, -⟩ := h.testFileHeader
  have hRead := fun position k => Database.readBytes_congr hFile hSize position k
  rw [keyAt, keyAt, hTested.getEOF, h.getEOF, hSize]
  simp only [readInto, InfoHog.readObjectHeader, hRead, readMembers_congr hFile hSize]

theorem keyed_test (h : d.Undamaged) : Keyed classId d.testFileHeader a ↔ Keyed classId d a := by
  obtain ⟨-, -, hFile, hSize, -⟩ := h.testFileHeader
  simp only [Keyed, InfoHog.readObjectHeader, Database.readBytes_congr hFile hSize]

/-- A live object of the class, with its key. -/
def Live (classId : Int) (d : Database) (a : Int) (name : Buffer n) : Prop :=
  a ∈ d.objects ∧ keyAt classId d a = some name

theorem live_iff (h : d.Undamaged) {name : Buffer n} :
    Live classId d a name ↔ ∃ b ∈ d.scanBlocks, b.2.status = gxNormalBlock ∧
      b.1 + d.blockHeaderSize = a ∧ keyAt classId d a = some name := by
  obtain ⟨blocks, free, hIntact⟩ := h
  rw [Live, Database.objects, Database.scanBlocks]
  simp only [List.mem_map, List.mem_filter, decide_eq_true_eq]
  constructor
  · rintro ⟨⟨b, ⟨hb, hUse⟩, rfl⟩, hKey⟩
    refine ⟨b, ⟨hb, ?_⟩, hUse, rfl, hKey⟩
    have hHeader := Reader.keyAt_class hKey
    rw [readObjectHeader, Option.ite_none_left_eq_some, Option.bind_eq_bind,
      Option.bind_eq_some_iff] at hHeader
    obtain ⟨-, oh, hRead, -⟩ := hHeader
    have hBytes := (Database.readBytes_eq_some_iff.mp hRead).1.resolve_left (by decide)
    rw [hIntact.holds.fileSize, sizeOfObjectHeader] at hBytes
    omega
  · rintro ⟨b, ⟨hb, -⟩, hUse, rfl, hKey⟩
    exact ⟨⟨b, ⟨hb, hUse⟩, rfl⟩, hKey⟩

variable {t : Btree (InfoHogKey n)} {A : KeySet K.comparison} {m : Nat}

theorem scannable (h : d.Undamaged) (hKeyed : ∀ a ∈ d.objects, Keyed classId d a) :
    Scannable classId d.testFileHeader d.blockHeaderSize d.scanBlocks := by
  intro b hb
  obtain ⟨hBlock, -⟩ := List.mem_filter.mp hb
  constructor
  · obtain ⟨blocks, free, hIntact⟩ := h
    rw [hIntact.holds.blocks_eq] at hBlock
    exact (hIntact.holds.bounds hBlock).1
  · intro hUse
    apply (keyed_test h).mpr
    apply hKeyed
    exact List.mem_map.mpr ⟨b, List.mem_filter.mpr ⟨hBlock, decide_eq_true hUse⟩, rfl⟩

/-- `CompareIndex` looks for the names of the live objects, and for nothing else. -/
theorem compareIndex_iff (hK : K.StrictOrder) (h : d.Undamaged)
    (hLimit : d.fileHeader.gxdEof + d.blockHeaderSize < 2 ^ 63)
    (hKeyed : ∀ a ∈ d.objects, Keyed classId d a) (hStores : t.Stores K A)
    (hm : d.fileSize.toNat < m) (position : Int) (o : Reader) :
    compareIndex K classId m d position o t = some true ↔ d.scanBlocks ≠ [] ∧
      ∀ a name, Live classId d a name → (A.find ⟨name, a, classId⟩).isSome := by
  rw [compareIndex, DataReel.compareIndex, h.getEOF, h.scan_eq hLimit hm, Option.some_inj]
  by_cases hNone : d.scanBlocks = []
  · rw [if_pos hNone]
    simp [hNone]
  · rw [if_neg hNone, and_iff_right hNone]
    have hFind (a : Int) (o : Reader) (hClass : o.ohClass = classId) :
        (findKey K t ⟨o.name n, a, o.ohClass⟩).1.isSome = (A.find ⟨o.name n, a, classId⟩).isSome := by
      rw [hClass, findKey, hStores.find hK]
      cases A.find ⟨o.name n, a, classId⟩ <;> rfl
    have hVisits := compare_visits (o := o) (fun a name => (A.find ⟨name, a, classId⟩).isSome) hFind
      (scannable h hKeyed) (Nat.le_refl 0)
    dsimp only
    rw [hVisits, and_iff_right rfl]
    simp only [keyAt_test h, live_iff h]
    constructor
    · rintro hAll a name ⟨b, hb, hUse, rfl, hKey⟩
      exact hAll b hb hUse name hKey
    · intro hAll b hb hUse name hKey
      exact hAll _ name ⟨b, hb, hUse, rfl, hKey⟩

/-- `RebuildIndexFile` gives each live object its key. -/
theorem rebuildIndexFile_keys (hK : K.StrictOrder) (h : d.Undamaged)
    (hLimit : d.fileHeader.gxdEof + d.blockHeaderSize < 2 ^ 63)
    (hKeyed : ∀ a ∈ d.objects, Keyed classId d a) (hStores : t.Stores K KeySet.empty)
    (hRoom : t.f.Room (maxLevels * d.scanBlocks.length)) (hm : d.fileSize.toNat < m) {position : Int}
    {o : Reader} {t' : Btree (InfoHogKey n)}
    (hRebuilt : rebuildIndexFile K classId m d position o t = some (true, t')) :
    ∃ A' : KeySet K.comparison, t'.Stores K A' ∧ ∀ k, k ∈ A'.keys ↔
      Live classId d k.objectId k.objectName ∧ k.classId = classId := by
  rw [rebuildIndexFile, DataReel.rebuildIndexFile, h.getEOF, h.scan_eq hLimit hm, Option.some_inj] at hRebuilt
  by_cases hNone : d.scanBlocks = []
  · rw [if_pos hNone] at hRebuilt
    cases hRebuilt
  · rw [if_neg hNone] at hRebuilt
    obtain ⟨A', hStores', hKeys⟩ := rebuild_visits hK (scannable h hKeyed) hStores hRoom hRebuilt
    refine ⟨A', hStores', fun k => ?_⟩
    rw [hKeys, live_iff h]
    simp only [keyAt_test h, KeySet.empty, List.not_mem_nil, false_or]
    constructor
    · rintro ⟨b, hb, hUse, hKey, hId, hClass⟩
      exact ⟨⟨b, hb, hUse, hId.symm, hId ▸ hKey⟩, hClass⟩
    · rintro ⟨⟨b, hb, hUse, hId, hKey⟩, hClass⟩
      exact ⟨b, hb, hUse, hId ▸ hKey, hId.symm, hClass⟩

/-- The index has a key of each live object of the class, with its address, and no other key. -/
structure Matches (T : KeyType n) (classId : Int) (d : Database) (keys : List (InfoHogKey n)) : Prop where
  found : ∀ a name, Live classId d a name →
    ∃ k ∈ keys, T.equal name k.objectName = true ∧ k.objectId = a
  others : ∀ k ∈ keys, ∃ name, Live classId d k.objectId name ∧ T.equal name k.objectName = true

end InfoHog

end DataReel
