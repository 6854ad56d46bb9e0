import DataReel.Hog.InFile

/-! # Objects that are changed in place

`ChangeObject` and `OverWriteObject` go over the members of a stored object and
write some of them. `ChangeObject` goes on behind a member only if it has written
it, and `OverWriteObject` ends before the last one.
-/

namespace DataReel

variable {n : Nat}

namespace InfoHog

/-- The loop of `OverWriteObject`. -/
def overWriteMembers : Database → Int → List (List UInt8) → Database
  | d, _, [] => d
  | d, address, m :: ms =>
    let d := if 0 < m.length then d.writeBytes (address + 8) m else d
    overWriteMembers d (address + 8 + m.length) ms

/-- `OverWriteObject`; the loop runs while `i < num_members-1`. -/
def overWriteObject (h : InfoHog n) (objectAddress : Int) (p : Pod n) : Bool × Pod n :=
  let address := objectAddress + sizeOfObjectHeader + 8 * 2 + n
  if address < gxCurrAddress then (false, p)
  else (true, { p with data := overWriteMembers p.data address h.others.dropLast })

/-- Corresponding members have one length, and behind a member that is the same and has bytes all are
the same. -/
def InPlace : List (List UInt8) → List (List UInt8) → Prop
  | m :: ms, m' :: ms' => m.length = m'.length ∧ (m = m' → m = [] ∨ ms = ms') ∧ InPlace ms ms'
  | [], [] => True
  | _, _ => False

end InfoHog

/-! ## Bytes of an object that are replaced -/

section Bytes

variable {d : Database} {a : Int} {x y y' z : List UInt8} {ms ms' : List (List UInt8)}

theorem Database.Undamaged.overwrite (h : d.Undamaged) (hObject : d.object a = some (x ++ (y ++ z)))
    (y' : List UInt8) (hLength : y'.length = y.length) :
    (d.writeBytes (a + x.length) y').Undamaged ∧
      (d.writeBytes (a + x.length) y').object =
        Function.update d.object a (some (x ++ (y' ++ z))) := by
  obtain ⟨hWritten, hNew⟩ := h.writeBytes hObject x.length y' (by simp [hLength])
  refine ⟨hWritten, ?_⟩
  rw [hNew, ← List.drop_drop, List.drop_left, List.take_left, hLength, List.drop_left,
    List.append_assoc]

namespace InfoHog

theorem changeMembers_header (d : Database) (address : Int) (ms ms' : List (List UInt8)) :
    (changeMembers d address ms ms').1.fileHeader = d.fileHeader ∧
      (changeMembers d address ms ms').1.rev = d.rev := by
  induction ms generalizing d address ms' with
  | nil => exact ⟨rfl, rfl⟩
  | cons m ms ih =>
    cases ms' with
    | nil => exact ⟨rfl, rfl⟩
    | cons m' ms' =>
      rw [changeMembers]
      split
      · exact ih _ _ ms'
      · exact ih _ _ ms'

theorem changeMembers_self (d : Database) (address : Int) (ms : List (List UInt8)) :
    changeMembers d address ms ms = (d, ms) := by
  induction ms generalizing address with
  | nil => rfl
  | cons m ms ih => simp [changeMembers, ih]

/-- Members that can be changed in place are written where they belong. -/
theorem changeMembers_eq (h : d.Undamaged) (hObject : d.object a = some (x ++ (memberRecords ms ++ z)))
    (hPlace : InPlace ms ms') :
    (changeMembers d (a + x.length) ms ms').1.Undamaged ∧
      (changeMembers d (a + x.length) ms ms').1.object =
        Function.update d.object a (some (x ++ (memberRecords ms' ++ z))) := by
  induction ms generalizing d x ms' with
  | nil =>
    cases ms' with
    | nil =>
      rw [← hObject, Function.update_eq_self]
      exact ⟨h, rfl⟩
    | cons m' ms' => exact hPlace.elim
  | cons m ms ih =>
    cases ms' with
    | nil => exact hPlace.elim
    | cons m' ms' =>
      obtain ⟨hLength, hSame, hRest⟩ := hPlace
      have hParts : x ++ (memberRecords (m :: ms) ++ z) =
          (x ++ Bytes.leBytes 8 m.length) ++ (m ++ (memberRecords ms ++ z)) := by
        simp [memberRecords_cons]
      rw [hParts] at hObject
      have hEight : a + ((x ++ Bytes.leBytes 8 m.length).length : Nat) = a + x.length + 8 := by
        rw [List.length_append, Bytes.leBytes_length]
        omega
      by_cases hChanged : 0 < m'.length ∧ m ≠ m'
      · rw [changeMembers, if_pos hChanged]
        obtain ⟨hWritten, hNew⟩ := h.overwrite hObject m' hLength.symm
        rw [hEight] at hWritten hNew
        have hObject' : (d.writeBytes (a + x.length + 8) m').object a =
            some ((x ++ Bytes.leBytes 8 m'.length ++ m') ++ (memberRecords ms ++ z)) := by
          rw [hNew, Function.update_self, hLength]
          simp
        obtain ⟨hAll, hLast⟩ := ih hWritten hObject' hRest
        have hBehind : a + ((x ++ Bytes.leBytes 8 m'.length ++ m').length : Nat) =
            a + x.length + 8 + m'.length := by
          rw [List.length_append, List.length_append, Bytes.leBytes_length]
          omega
        rw [hBehind] at hAll hLast
        refine ⟨hAll, hLast.trans ?_⟩
        rw [hNew, Function.update_idem, memberRecords_cons]
        simp
      · rw [changeMembers, if_neg hChanged]
        have hEq : m = m' := by
          by_contra hNe
          have hNot : ¬ 0 < m'.length := fun hBytes => hChanged ⟨hBytes, hNe⟩
          have hNone : m' = [] := List.length_eq_zero_iff.mp (by omega)
          rw [hNone, List.length_nil, List.length_eq_zero_iff] at hLength
          exact hNe (hLength.trans hNone.symm)
        subst hEq
        rcases hSame rfl with rfl | rfl
        · have hNext := ih h (x := x ++ Bytes.leBytes 8 0) (by simpa using hObject) hRest
          have hBehind : a + ((x ++ Bytes.leBytes 8 0).length : Nat) = a + x.length + 8 := by
            rw [List.length_append, Bytes.leBytes_length]
            omega
          rw [hBehind] at hNext
          simpa [memberRecords_cons] using hNext
        · dsimp only
          rw [changeMembers_self, hParts, ← hObject, Function.update_eq_self]
          exact ⟨h, rfl⟩

theorem overWriteMembers_eq (h : d.Undamaged) (hObject : d.object a = some (x ++ (memberRecords ms ++ z)))
    (hLengths : ms'.map List.length = ms.map List.length) :
    (overWriteMembers d (a + x.length) ms').Undamaged ∧
      (overWriteMembers d (a + x.length) ms').object =
        Function.update d.object a (some (x ++ (memberRecords ms' ++ z))) := by
  induction ms generalizing d x ms' with
  | nil =>
    obtain rfl := List.map_eq_nil_iff.mp hLengths
    rw [← hObject, Function.update_eq_self]
    exact ⟨h, rfl⟩
  | cons m ms ih =>
    obtain ⟨m', ms', rfl, hLength, hRest⟩ := List.map_eq_cons_iff.mp hLengths
    have hParts : x ++ (memberRecords (m :: ms) ++ z) =
        (x ++ Bytes.leBytes 8 m.length) ++ (m ++ (memberRecords ms ++ z)) := by
      simp [memberRecords_cons]
    rw [hParts] at hObject
    have hEight : a + ((x ++ Bytes.leBytes 8 m.length).length : Nat) = a + x.length + 8 := by
      rw [List.length_append, Bytes.leBytes_length]
      omega
    obtain ⟨hWritten, hNew⟩ := h.overwrite hObject m' hLength
    rw [hEight] at hWritten hNew
    have hDone : (if 0 < m'.length then d.writeBytes (a + x.length + 8) m' else d).Undamaged ∧
        (if 0 < m'.length then d.writeBytes (a + x.length + 8) m' else d).object =
          Function.update d.object a (some ((x ++ Bytes.leBytes 8 m'.length ++ m') ++
            (memberRecords ms ++ z))) := by
      rw [hLength]
      split
      · exact ⟨hWritten, by simpa using hNew⟩
      · rename_i hNone
        obtain rfl : m = [] := List.length_eq_zero_iff.mp (by omega)
        obtain rfl : m' = [] := List.length_eq_zero_iff.mp hLength
        refine ⟨h, ?_⟩
        rw [← Function.update_eq_self a d.object, hObject]
        simp
    obtain ⟨hAll, hLast⟩ := ih hDone.1 (by rw [hDone.2, Function.update_self]) hRest
    have hBehind : a + ((x ++ Bytes.leBytes 8 m'.length ++ m').length : Nat) =
        a + x.length + 8 + m'.length := by
      rw [List.length_append, List.length_append, Bytes.leBytes_length]
      omega
    rw [hBehind] at hAll hLast
    rw [overWriteMembers]
    refine ⟨hAll, hLast.trans ?_⟩
    rw [hDone.2, Function.update_idem, memberRecords_cons]
    simp

end InfoHog

end Bytes

namespace InfoHog

variable {d : Database} {classId : Int} {h ob : InfoHog n}

/-- The object after a change in place. -/
theorem InFile.change (hFile : h.InFile classId d.object) (hData : d.Undamaged)
    (hCount : h.numMembers = ob.numMembers) (hPlace : InPlace h.others ob.others) {d₁ : Database}
    (hKey : d₁ = if h.key = ob.key then d else d.writeBytes (h.objectaddress + keyOffset) ob.key.1) :
    ∃ l rest, d₁.object = Function.update d.object h.objectaddress (some l) ∧ storedKey n l = ob.key.1 ∧
      (changeMembers d₁ (h.objectaddress + (keyOffset + n : Nat)) h.others ob.others).1.Undamaged ∧
      (changeMembers d₁ (h.objectaddress + (keyOffset + n : Nat)) h.others ob.others).1.object =
        Function.update d₁.object h.objectaddress (some (ob.bytes classId h.objectaddress ++ rest)) := by
  obtain ⟨rest, hObject⟩ := hFile.object
  rw [bytes_eq_front, List.append_assoc, List.append_assoc] at hObject
  have hFront := front_length classId h.objectaddress h.numMembers n
  obtain ⟨hWritten, hNew⟩ := hData.overwrite hObject ob.key.1 (ob.key.2.trans h.key.2.symm)
  rw [hFront] at hWritten hNew
  have hDone : d₁.Undamaged ∧ d₁.object = Function.update d.object h.objectaddress
      (some (front classId h.objectaddress h.numMembers n ++ (ob.key.1 ++ (memberRecords h.others ++ rest)))) := by
    rw [hKey]
    split
    · rename_i hSame
      rw [← hSame, ← hObject, Function.update_eq_self]
      exact ⟨hData, rfl⟩
    · exact ⟨hWritten, hNew⟩
  have hObject' : d₁.object h.objectaddress =
      some ((front classId h.objectaddress h.numMembers n ++ ob.key.1) ++ (memberRecords h.others ++ rest)) := by
    rw [hDone.2, Function.update_self, List.append_assoc]
  obtain ⟨hAll, hLast⟩ := changeMembers_eq hDone.1 hObject' hPlace
  rw [List.length_append, hFront, ob.key.2] at hAll hLast
  refine ⟨_, rest, hDone.2, ?_, hAll, ?_⟩
  · rw [storedKey, List.drop_left' hFront, List.take_left' ob.key.2]
  · rw [hLast, bytes_eq_front, ← hCount]
    simp

end InfoHog

/-! ## The changes -/

section Changes

variable (K : KeyClass (InfoHogKey n)) (classId : Int)

/-- An index and a data file that belong together, or a data file of objects alone. -/
def Pod.Sound (p : Pod n) : Prop :=
  match p.index with
  | some t => ∃ A, Kept K classId p t A
  | none => p.data.Undamaged ∧ InfoHogs classId n p.data.object ∧
      p.data.fileHeader.gxdEof + p.data.blockHeaderSize < 2 ^ 63

/-- A new object with the key of `ob` is read with its members, and the objects besides the one at `a`
are as they were. -/
def Changed (p p' : Pod n) (a : Int) (ob : InfoHog n) : Prop :=
  (∀ position, ∃ r, (InfoHog.named ob.key).loaded K classId position p' true = some r ∧
    r.members = ob.members) ∧ ∀ x l, x ≠ a → p.data.object x = some l → p'.data.object x = some l

/-- What `ChangeObject` goes by: the members can be changed in place, or the object moves and no other
has its key, and without an index nothing else disturbs the scans. -/
structure Changeable (p : Pod n) (s ob : InfoHog n) : Prop where
  inPlace : s.objectLength = ob.objectLength → s.numMembers = ob.numMembers →
    InfoHog.InPlace s.others ob.others
  moved : s.objectLength ≠ ob.objectLength ∨ s.numMembers ≠ ob.numMembers →
    ∀ e ∈ p.keyOf K ob.key, e.objectId ≠ s.objectaddress → ∃ s' : InfoHog n,
      s'.InFile classId p.data.object ∧ s'.objectaddress = e.objectId ∧ s'.members = ob.members
  scanned : p.index = none → (∀ m ∈ ob.members, m ≠ []) ∧
    OnlyAt classId p.data.object s.key s.objectaddress ∧ OnlyAt classId p.data.object ob.key s.objectaddress

end Changes

theorem StoredObject.append {classId : Int} {l : List UInt8} (h : StoredObject classId n l)
    (rest : List UInt8) : StoredObject classId n (l ++ rest) := by
  have hRoom := h.room
  rw [keyOffset, sizeOfObjectHeader] at hRoom
  constructor
  · rw [List.length_append]
    exact Nat.le_add_right_of_le h.room
  · rw [List.take_append_of_le_length (by omega), h.classWord]
  · rw [List.drop_append_of_le_length (by rw [sizeOfObjectHeader]; omega),
      List.take_append_of_le_length (by rw [List.length_drop, sizeOfObjectHeader]; omega), h.keyLength]

namespace Kept

variable {K : KeyClass (InfoHogKey n)} {classId : Int} {p : Pod n} {t : Btree (InfoHogKey n)}
  {A : KeySet K.comparison} {s ob : InfoHog n} (hP : Kept K classId p t A) (hK : K.StrictOrder)
  (hByName : K.ByName)

include hP

theorem setBytes {d' : Database} {a : Int} {l l' : List UInt8} (hObject : p.data.object a = some l)
    (hData : d'.Undamaged) (hNew : d'.object = Function.update p.data.object a (some l'))
    (hStored : StoredObject classId n l') (hKey : storedKey n l' = storedKey n l) :
    Kept K classId ⟨d', p.index⟩ t A := by
  refine ⟨hP.index, hP.stores, hData, ?_⟩
  change Synced classId d'.object A
  rw [hNew]
  exact hP.synced.setBytes hObject hStored hKey

include hK hByName

/-- The key of another object is refused. -/
theorem changeKeyMember_used {h : InfoHog n} {position : Int} {name : Buffer n} {findObject : Bool}
    (hLoaded : h.loaded K classId position p findObject = some s) {k e : InfoHogKey n}
    (hOld : p.keyOf K s.key = some k) (hUsed : p.keyOf K name = some e) (hOther : e ≠ k) :
    ∃ r, h.changeKeyMember K classId position p name findObject = some r ∧ r.result = false := by
  rcases hP.load_eq hK hByName position h findObject with ⟨o, hLoad⟩ | ⟨h', hLoad, hMem, -⟩
  · rw [InfoHog.loaded, hLoad] at hLoaded
    cases hLoaded
  obtain rfl : h' = s := Option.mem_unique hMem hLoaded
  obtain ⟨d, index⟩ := p
  obtain rfl : index = some t := hP.index
  rw [hP.keyOf_eq hK] at hOld hUsed
  have hFind : A.find ⟨h'.key, h'.objectaddress, classId⟩ = some k := by
    rw [← hOld]
    exact hByName.find_eq A rfl
  obtain ⟨t', hDelete, hStores, -⟩ := hP.stores.delete hK hFind 0
  have hDeleted : deleteKey K t ⟨h'.key, h'.objectaddress, classId⟩ = (true, t') := by
    rw [deleteKey, hDelete]
    rfl
  obtain ⟨hk, -⟩ := (A.mem_find_iff hK.strict _ k).mp hOld
  obtain ⟨he, hEq⟩ := (A.mem_find_iff hK.strict _ e).mp hUsed
  have hApart : K.comparison.eqv k e = false := by
    apply Bool.eq_false_iff.mpr
    intro hSame
    exact hOther (Comparison.Sorted.eq_of_eqv hK.strict A.sorted hk he hSame).symm
  have hStill : (A.erase k).find ⟨name, h'.objectaddress, classId⟩ = some e := by
    apply ((A.erase k).mem_find_iff hK.strict _ e).mpr
    exact ⟨(A.mem_erase_iff k e).mpr ⟨he, hApart⟩, 
      (hByName ⟨name, h'.objectaddress, classId⟩ ⟨name, 0, 0⟩ e rfl).trans hEq⟩
  have hRefused : addKey K t' ⟨name, h'.objectaddress, classId⟩ = (false, t') := by
    rw [addKey, hStores.insert_refused hK hStill 0]
    rfl
  rw [InfoHog.changeKeyMember, hLoad]
  simp only [Option.bind_eq_bind, Option.bind_some, if_true, hDeleted, hRefused]
  exact ⟨_, rfl, rfl⟩

/-- `ChangeMember` writes the new key, unless it returns an error. -/
theorem changeKeyMember_data {position : Int} {h : InfoHog n} {name : Buffer n} {o : Outcome n}
    (hRoom : p.IndexRoom) (hFile : s.InFile classId p.data.object) {findObject : Bool}
    (hLoaded : h.loaded K classId position p findObject = some s)
    (hChange : h.changeKeyMember K classId position p name findObject = some o) (hTrue : o.result = true) :
    ∃ p' t' A', o = ⟨true, some { s with key := name }, p'⟩ ∧ Kept K classId p' t' A' ∧
      p'.data = p.data.writeBytes (s.objectaddress + keyOffset) name.1 := by
  obtain ⟨k, -, hAddress, -, hKey⟩ := hP.keyOf_inFile hK hByName hFile
  by_cases hUsed : ∀ e ∈ p.keyOf K name, e = k
  · have hSafe : ∀ h' ∈ h.loaded K classId position p findObject, HogCall.KeySafe K h' p name := by
      intro h' hMem
      obtain rfl := Option.mem_unique hMem hLoaded
      intro e he
      obtain rfl := Option.mem_unique hKey he
      refine ⟨hAddress, fun e' he' x hx => ?_, hRoom⟩
      rw [hUsed x hx]
      exact Option.mem_unique hKey he'
    rcases hP.changeKeyMember_eq hK hByName hSafe with
      ⟨x, hFail⟩ | ⟨h', e, p', t', A', hMem, -, -, hDone, hP', -, hData⟩
    · rw [hFail] at hChange
      obtain rfl := Option.some.inj hChange
      cases hTrue
    · obtain rfl := Option.mem_unique hMem hLoaded
      rw [hDone] at hChange
      exact ⟨p', t', A', (Option.some.inj hChange).symm, hP', hData⟩
  · push Not at hUsed
    obtain ⟨e, he, hOther⟩ := hUsed
    obtain ⟨r, hFail, hFalse⟩ := hP.changeKeyMember_used hK hByName hLoaded hKey he hOther
    rw [hFail] at hChange
    obtain rfl := Option.some.inj hChange
    rw [hFalse] at hTrue
    cases hTrue

/-- The object after a change in place, with an index. -/
theorem changed_inPlace (hClass : -2 ^ 63 ≤ classId ∧ classId < 2 ^ 63)
    (hFile : s.InFile classId p.data.object) (hCount : s.numMembers = ob.numMembers)
    (hPlace : InfoHog.InPlace s.others ob.others) {p₁ : Pod n} {t₁ : Btree (InfoHogKey n)}
    {A₁ : KeySet K.comparison} (hP₁ : Kept K classId p₁ t₁ A₁)
    (hKey : p₁.data = if s.key = ob.key then p.data else
      p.data.writeBytes (s.objectaddress + keyOffset) ob.key.1) :
    Changed K classId p ⟨(InfoHog.changeMembers p₁.data (s.objectaddress + (keyOffset + n : Nat)) s.others
      ob.others).1, p₁.index⟩ s.objectaddress ob := by
  obtain ⟨l, rest, hOld, hName, hData, hNew⟩ := hFile.change hP.data hCount hPlace hKey
  obtain ⟨hStored, hStoredKey⟩ := ob.bytes_stored classId s.objectaddress
  have hSelf : p₁.data.object s.objectaddress = some l := by rw [hOld, Function.update_self]
  have hKept := hP₁.setBytes hSelf hData hNew (hStored.append rest)
    ((ob.storedKey_bytes classId s.objectaddress rest).trans hName.symm)
  have hObject : Function.update p₁.data.object s.objectaddress
      (some (ob.bytes classId s.objectaddress ++ rest)) s.objectaddress =
      some (ob.bytes classId s.objectaddress ++ rest) := Function.update_self ..
  have hFile' : ({ ob with objectaddress := s.objectaddress } : InfoHog n).InFile classId
      (InfoHog.changeMembers p₁.data (s.objectaddress + (keyOffset + n : Nat)) s.others
        ob.others).1.object := by
    rw [hNew]
    exact ⟨⟨rest, hObject⟩, hCount ▸ hFile.count⟩
  obtain ⟨k, -, hAddress, -, hKeyOf⟩ := hKept.keyOf_inFile hK hByName hFile'
  constructor
  · intro position
    exact hKept.readBack hK hClass hKeyOf hFile' hAddress position
  · intro x l hx hl
    change (InfoHog.changeMembers _ _ _ _).1.object x = some l
    rw [hNew, Function.update_of_ne hx, hOld, Function.update_of_ne hx, hl]

/-- An object that moves, with an index. -/
theorem changed_moved (hClass : -2 ^ 63 ≤ classId ∧ classId < 2 ^ 63)
    (hFile : s.InFile classId p.data.object) (hCount : ob.numMembers ≤ infoHogMaxMembers)
    (hRoom : p.Takes ob) (hMoved : ∀ e ∈ p.keyOf K ob.key, e.objectId ≠ s.objectaddress →
      ∃ s' : InfoHog n, s'.InFile classId p.data.object ∧ s'.objectaddress = e.objectId ∧
        s'.members = ob.members) (position : Int) {o : Outcome n}
    (hChange : ((s.deleteObject K classId position p).bind fun o =>
      if o.result then o.object.bind fun h =>
        ({ h.copyMembers ob with objectaddress := ob.objectaddress } : InfoHog n).writeObject K classId
          position o.pod true
      else some o) = some o) (hTrue : o.result = true) :
    Changed K classId p o.pod s.objectaddress ob := by
  obtain ⟨k, hk, hAddress, -, hKeyOf⟩ := hP.keyOf_inFile hK hByName hFile
  rcases hP.deleteObject_eq hK hByName position s with
    ⟨hNone, -⟩ | ⟨k', p', t', hSome, -, hP', hDelete, hEof, hRev, hIndexRoom, hGone⟩
  · rw [hKeyOf] at hNone
    cases hNone
  obtain rfl : k = k' := Option.some.inj (hKeyOf.symm.trans hSome)
  rw [hAddress] at hGone
  have hOthers {x : Int} {l : List UInt8} (hx : x ≠ s.objectaddress) (hl : p.data.object x = some l) :
      p'.data.object x = some l := by
    rw [hGone, Function.update_of_ne hx, hl]
  rw [hDelete, Option.bind_some] at hChange
  dsimp only at hChange
  rw [if_pos rfl, Option.bind_some] at hChange
  generalize hCopy : ({ (({ s with objectaddress := k.objectId } : InfoHog n).copyMembers ob) with
    objectaddress := ob.objectaddress } : InfoHog n) = copy at hChange
  have hCopyKey : copy.key = ob.key := by rw [← hCopy]; rfl
  have hMembers : copy.members = ob.members := by rw [← hCopy]; rfl
  have hCopyOthers : copy.others = ob.others := by rw [← hCopy]; rfl
  rw [InfoHog.writeObject, if_pos rfl] at hChange
  rcases hP'.find_eq hK position copy with ⟨hNew, hFind⟩ | ⟨e, he, hMem, hFind⟩
  · rw [hFind, Option.bind_eq_bind, Option.bind_some] at hChange
    dsimp only at hChange
    rw [if_neg Bool.false_ne_true, Option.bind_eq_bind, Option.bind_some] at hChange
    have hTakes : p'.Takes copy := by
      apply hRoom.after hEof hRev hIndexRoom
      rw [InfoHog.dataLength, InfoHog.dataLength, hMembers, InfoHog.numMembers, InfoHog.numMembers,
        hCopyOthers]
    obtain ⟨a, p₂, t₂, A₂, hWrite, hP₂, hFree, hObject, e, he, -, hName⟩ :=
      hP'.write_eq hK hByName position hNew hTakes
    rw [hWrite] at hChange
    obtain rfl := Option.some.inj hChange
    have hFile' : ({ copy with objectaddress := a } : InfoHog n).InFile classId p₂.data.object := by
      refine ⟨⟨[], ?_⟩, ?_⟩
      · rw [hObject, List.append_nil]
        exact Function.update_self ..
      · change copy.others.length + 1 ≤ _
        rw [hCopyOthers]
        exact hCount
    obtain ⟨e', -, hAt, -, hKeyOf'⟩ := hP₂.keyOf_inFile hK hByName hFile'
    constructor
    · intro position
      rw [← hMembers]
      exact hP₂.readBack hK hClass (hCopyKey ▸ hKeyOf') hFile' hAt position
    · intro x l hx hl
      have hStill := hOthers hx hl
      change p₂.data.object x = some l
      rw [hObject, Function.update_of_ne, hStill]
      rintro rfl
      rw [hFree] at hStill
      cases hStill
  · rw [hFind, Option.bind_eq_bind, Option.bind_some] at hChange
    dsimp only at hChange
    rw [if_pos rfl] at hChange
    obtain rfl := Option.some.inj hChange
    obtain ⟨hStill, hApart⟩ := (A.mem_erase_iff k e).mp hMem
    have hOld : p.keyOf K ob.key = some e := by
      rw [hP.keyOf_eq hK, A.mem_find_iff hK.strict]
      rw [hP'.keyOf_eq hK, (A.erase k).mem_find_iff hK.strict, hCopyKey] at he
      exact ⟨hStill, he.2⟩
    have hOther : e.objectId ≠ s.objectaddress := by
      intro hSame
      rw [hP.synced.unique hK.strict hByName hStill hk (hSame.trans hAddress.symm),
        hK.strict.eqv_refl k] at hApart
      cases hApart
    obtain ⟨s', ⟨⟨rest, hObject⟩, hCount'⟩, hAt, hSame⟩ := hMoved e hOld hOther
    have hFile' : s'.InFile classId p'.data.object :=
      ⟨⟨rest, hOthers (hAt ▸ hOther) hObject⟩, hCount'⟩
    constructor
    · intro position
      rw [← hSame]
      exact hP'.readBack hK hClass (hCopyKey ▸ he) hFile' hAt.symm position
    · intro x l hx hl
      exact hOthers hx hl

omit hByName in
/-- An object that is found again is as it was. -/
theorem loaded_self (hByName : K.ByName) (hClass : -2 ^ 63 ≤ classId ∧ classId < 2 ^ 63)
    (hFile : s.InFile classId p.data.object) (position : Int) :
    ∃ s₂, s.loaded K classId position p true = some s₂ ∧ s₂.objectaddress = s.objectaddress ∧
      s₂.members = s.members := by
  obtain ⟨k, -, hAddress, -, hKeyOf⟩ := hP.keyOf_inFile hK hByName hFile
  rcases hP.find_eq hK position s with ⟨hNone, -⟩ | ⟨k', hSome, -, hFind⟩
  · rw [hKeyOf] at hNone
    cases hNone
  · obtain rfl : k = k' := Option.some.inj (hKeyOf.symm.trans hSome)
    obtain ⟨r, hRead, -, hAt, hMembers⟩ := hFile.readObject hP.data hClass
      (o := { s with objectaddress := k.objectId }) hAddress position p.index
    refine ⟨r, ?_, hAt, hMembers s.takes_self⟩
    rw [InfoHog.loaded, InfoHog.load, if_pos rfl, hFind]
    simp only [Option.bind_eq_bind, Option.bind_some, if_true, hRead]

/-- `ChangeObject` with an index. -/
theorem changeObject_changed (hClass : -2 ^ 63 ≤ classId ∧ classId < 2 ^ 63)
    (hFile : s.InFile classId p.data.object) (hCount : ob.numMembers ≤ infoHogMaxMembers)
    (hRoom : p.Takes ob) (hSafe : Changeable K classId p s ob) {position : Int} {h : InfoHog n}
    {findObject : Bool} (hLoaded : h.loaded K classId position p findObject = some s) {o : Outcome n}
    (hChange : h.changeObject K classId position p ob findObject = some o) (hTrue : o.result = true) :
    Changed K classId p o.pod s.objectaddress ob := by
  rcases hP.load_eq hK hByName position h findObject with ⟨x, hLoad⟩ | ⟨h', hLoad, hMem, -⟩
  · rw [InfoHog.loaded, hLoad] at hLoaded
    cases hLoaded
  obtain rfl : h' = s := Option.mem_unique hMem hLoaded
  have hPos := (hFile.room hP.data).1
  have hAt : h'.objectaddress + sizeOfObjectHeader + 8 * 2 + n =
      h'.objectaddress + (keyOffset + n : Nat) := by
    rw [keyOffset]
    omega
  rw [InfoHog.changeObject, hLoad] at hChange
  simp only [Option.bind_eq_bind, Option.bind_some, if_true, hAt] at hChange
  split at hChange
  · rename_i hSame
    obtain rfl := Option.some.inj hChange
    obtain ⟨k, -, hAddress, -, hKeyOf⟩ := hP.keyOf_inFile hK hByName hFile
    have hKey : h'.key = ob.key := Subtype.ext (List.cons.inj hSame).1
    exact ⟨fun position => hSame ▸ hP.readBack hK hClass (hKey ▸ hKeyOf) hFile hAddress position,
      fun x l _ hl => hl⟩
  · split at hChange
    · rename_i hMove
      exact hP.changed_moved hK hByName hClass hFile hCount hRoom (hSafe.moved hMove) position hChange
        hTrue
    · rename_i hStay
      rw [not_or, not_not, not_not] at hStay
      have hPlace := hSafe.inPlace hStay.1 hStay.2
      have hLow {a : Int} (ha : a = h'.objectaddress) : ¬ a + ((keyOffset + n : Nat) : Int) < gxCurrAddress := by
        rw [gxCurrAddress, ha]
        omega
      by_cases hKey : h'.key = ob.key
      · rw [if_pos hKey] at hChange
        rw [if_neg (hLow rfl)] at hChange
        obtain rfl := Option.some.inj hChange
        exact hP.changed_inPlace hK hByName hClass hFile hStay.2 hPlace hP (if_pos hKey).symm
      · rw [if_neg hKey] at hChange
        cases hStep : h'.changeKeyMember K classId position p ob.key true with
        | none =>
          rw [hStep] at hChange
          cases hChange
        | some r =>
          rw [hStep, Option.bind_some] at hChange
          by_cases hDone : r.result = true
          · obtain ⟨s₂, hAgain, hAddress, hMembers⟩ := hP.loaded_self hK hByName hClass hFile position
            have hOthers : s₂.others = h'.others := (List.cons.inj hMembers).2
            have hFile₂ := hFile.of_members hAddress hMembers
            obtain ⟨p₁, t₁, A₁, rfl, hP₁, hData⟩ := hP.changeKeyMember_data hK hByName hRoom.indexRoom hFile₂
              hAgain hStep hDone
            dsimp only at hChange
            rw [if_pos rfl, Option.bind_some, hAddress, hAt, if_neg (hLow rfl), hOthers] at hChange
            obtain rfl := Option.some.inj hChange
            rw [hAddress] at hData
            exact hP.changed_inPlace hK hByName hClass hFile hStay.2 hPlace hP₁ (by rw [if_neg hKey, hData])
          · rw [if_neg hDone] at hChange
            obtain rfl := Option.some.inj hChange
            exact absurd hTrue hDone

end Kept

namespace InfoHogs

variable {K : KeyClass (InfoHogKey n)} {d d₁ : Database} {classId : Int} {s ob : InfoHog n}

/-- The objects after one has been replaced. -/
theorem replace (hAll : InfoHogs classId n d.object) {rest : List UInt8} {a : Int}
    (hCount : ob.numMembers ≤ infoHogMaxMembers)
    (hNew : d₁.object = Function.update d.object a (some (ob.bytes classId a ++ rest))) :
    InfoHogs classId n d₁.object ∧
      ({ ob with objectaddress := a } : InfoHog n).InFile classId d₁.object := by
  have hFile : ({ ob with objectaddress := a } : InfoHog n).InFile classId d₁.object := by
    rw [hNew]
    exact ⟨⟨rest, Function.update_self ..⟩, hCount⟩
  refine ⟨fun x l hl => ?_, hFile⟩
  by_cases hx : x = a
  · subst hx
    rw [hNew, Function.update_self, Option.some_inj] at hl
    subst hl
    constructor
    · rw [List.length_append, ob.bytes_length]
      omega
    · exact fun _ => ⟨_, rfl, hFile⟩
  · rw [hNew, Function.update_of_ne hx] at hl
    obtain ⟨hRoom, hHog⟩ := hAll x l hl
    refine ⟨hRoom, fun hClass => ?_⟩
    obtain ⟨s, hAt, ⟨rest', hObject⟩, hCount'⟩ := hHog hClass
    refine ⟨s, hAt, ⟨rest', ?_⟩, hCount'⟩
    rw [hNew, Function.update_of_ne (hAt ▸ hx), hObject]

/-- An object in a file is read as one with these members. -/
theorem members_unique {s s' : InfoHog n} (hData : d.Undamaged)
    (hClass : -2 ^ 63 ≤ classId ∧ classId < 2 ^ 63) (hFile : s.InFile classId d.object)
    (hFile' : s'.InFile classId d.object) (hSame : s'.objectaddress = s.objectaddress) :
    s'.members = s.members := by
  have hNew (m : Buffer n) (h : InfoHog n) : InfoHog.Takes (InfoHog.named m).array h.members :=
    InfoHog.takes_named m 0 h
  obtain ⟨r, hRead, -, -, hMembers⟩ := hFile.readAt hData hClass (InfoHog.named s.key)
  obtain ⟨r', hRead', -, -, hMembers'⟩ := hFile'.readAt hData hClass (InfoHog.named s.key)
  rw [hSame, hRead] at hRead'
  obtain rfl := Option.some.inj hRead'
  rw [← hMembers (hNew _ _), hMembers' (hNew _ _)]

theorem onlyAt_replace (hData : d₁.Undamaged) (hClass : -2 ^ 63 ≤ classId ∧ classId < 2 ^ 63)
    {rest : List UInt8} {a : Int} (hCount : ob.numMembers ≤ infoHogMaxMembers)
    (hNew : d₁.object = Function.update d.object a (some (ob.bytes classId a ++ rest)))
    (hBytes : ∀ m ∈ ob.members, m ≠ []) (hOnly : OnlyAt classId d.object ob.key a) :
    OnlyAt classId d₁.object ob.key a := by
  intro s hFile
  by_cases hs : s.objectaddress = a
  · have hSelf : ({ ob with objectaddress := a } : InfoHog n).InFile classId d₁.object := by
      rw [hNew]
      exact ⟨⟨rest, Function.update_self ..⟩, hCount⟩
    rw [members_unique hData hClass hSelf hFile hs]
    exact ⟨hBytes, fun _ => hs⟩
  · obtain ⟨⟨rest', hObject⟩, hCount'⟩ := hFile
    rw [hNew, Function.update_of_ne hs] at hObject
    exact hOnly s ⟨⟨rest', hObject⟩, hCount'⟩

/-- The object after a change in place, without an index. -/
theorem changed_inPlace (hAll : InfoHogs classId n d.object)
    (hClass : -2 ^ 63 ≤ classId ∧ classId < 2 ^ 63) (hFile : s.InFile classId d.object)
    (hSafe : (∀ m ∈ ob.members, m ≠ []) ∧ OnlyAt classId d.object ob.key s.objectaddress)
    (hCount : s.numMembers = ob.numMembers) (hPlace : InfoHog.InPlace s.others ob.others)
    {d₂ : Database} (hAgain : Again d d₁) (hKey : d₂ = if s.key = ob.key then d₁ else
      d₁.writeBytes (s.objectaddress + keyOffset) ob.key.1) :
    Changed K classId ⟨d, none⟩ ⟨(InfoHog.changeMembers d₂ (s.objectaddress + (keyOffset + n : Nat)) s.others
      ob.others).1, none⟩ s.objectaddress ob := by
  rw [← hAgain.object] at hFile
  obtain ⟨l, rest, hOld, -, hData, hNew⟩ := hFile.change hAgain.undamaged hCount hPlace hKey
  rw [hOld, hAgain.object, Function.update_idem] at hNew
  have hHeader : d₂.fileHeader = d₁.fileHeader ∧ d₂.rev = d₁.rev := by
    rw [hKey]
    split <;> exact ⟨rfl, rfl⟩
  obtain ⟨hEof, hRev⟩ := InfoHog.changeMembers_header d₂ (s.objectaddress + (keyOffset + n : Nat)) s.others
    ob.others
  have hCount' : ob.numMembers ≤ infoHogMaxMembers := hCount ▸ hFile.count
  obtain ⟨hAll', hFile'⟩ := hAll.replace hCount' hNew
  have hOnly := onlyAt_replace hData hClass hCount' hNew hSafe.1 hSafe.2
  have hLimit := hAgain.limit
  constructor
  · intro position
    apply hAll'.readBack hData _ hClass hFile' hOnly position
    rw [hEof, hHeader.1, Database.blockHeaderSize, hRev, hHeader.2]
    exact hLimit
  · intro x l hx hl
    change (InfoHog.changeMembers _ _ _ _).1.object x = some l
    rw [hNew, Function.update_of_ne hx]
    exact hl

/-- `ChangeObject` without an index. -/
theorem changeObject_changed (hAll : InfoHogs classId n d.object) (hData : d.Undamaged)
    (hLimit : d.fileHeader.gxdEof + d.blockHeaderSize < 2 ^ 63)
    (hClass : -2 ^ 63 ≤ classId ∧ classId < 2 ^ 63) (hFile : s.InFile classId d.object)
    (hSafe : Changeable K classId ⟨d, none⟩ s ob) {position : Int} {h : InfoHog n} {findObject : Bool}
    (hLoaded : h.loaded K classId position ⟨d, none⟩ findObject = some s) {o : Outcome n}
    (hChange : h.changeObject K classId position ⟨d, none⟩ ob findObject = some o) (hTrue : o.result = true) :
    Changed K classId ⟨d, none⟩ o.pod s.objectaddress ob := by
  rw [InfoHog.loaded, Option.bind_eq_some_iff] at hLoaded
  obtain ⟨⟨result, object, pod⟩, hLoad, hLoaded⟩ := hLoaded
  rw [Option.ite_none_right_eq_some] at hLoaded
  obtain ⟨rfl, rfl⟩ := hLoaded
  obtain ⟨d₁, rfl, hAgain⟩ := load_again hData hLimit hLoad
  obtain ⟨hBytes, hOnly, hOnly'⟩ := hSafe.scanned rfl
  have hPos := (hFile.room hData).1
  have hAt : s.objectaddress + sizeOfObjectHeader + 8 * 2 + n = s.objectaddress + (keyOffset + n : Nat) := by
    rw [keyOffset]
    omega
  have hLow : ¬ s.objectaddress + ((keyOffset + n : Nat) : Int) < gxCurrAddress := by
    rw [gxCurrAddress]
    omega
  have hAll₁ := hAll
  have hFile₁ := hFile
  have hOnly₁ := hOnly
  rw [← hAgain.object] at hAll₁ hFile₁ hOnly₁
  rw [InfoHog.changeObject, hLoad] at hChange
  simp only [Option.bind_eq_bind, Option.bind_some, if_true, hAt] at hChange
  split at hChange
  · rename_i hSame
    obtain rfl := Option.some.inj hChange
    have hKey : s.key = ob.key := Subtype.ext (List.cons.inj hSame).1
    rw [Changed, ← hKey, ← hSame]
    exact ⟨hAll₁.readBack hAgain.undamaged hAgain.limit hClass hFile₁ hOnly₁,
      fun x l _ hl => hAgain.object ▸ hl⟩
  · split at hChange
    · -- The deletion succeeds, which this path takes for a failure.
      obtain ⟨r, hFind, hAddress, -⟩ := hAll₁.find_eq (K := K) hAgain.undamaged hAgain.limit hClass hOnly₁
        hFile₁ rfl position
      obtain ⟨rest, hObject⟩ := hFile₁.object
      have hTested := Again.test hAgain.undamaged hAgain.limit
      rw [← hTested.object, ← hAddress] at hObject
      have hDeleted := (hTested.undamaged.delete hObject position).1
      rw [InfoHog.deleteObject] at hChange
      simp only [hFind, Option.bind_eq_bind, Option.bind_some, if_true, hDeleted, Bool.not_true,
        Bool.false_eq_true, if_false] at hChange
      obtain rfl := Option.some.inj hChange
      cases hTrue
    · rename_i hStay
      rw [not_or, not_not, not_not] at hStay
      have hPlace := hSafe.inPlace hStay.1 hStay.2
      by_cases hKey : s.key = ob.key
      · rw [if_pos hKey] at hChange
        obtain rfl := Option.some.inj hChange
        exact hAll.changed_inPlace hClass hFile ⟨hBytes, hOnly'⟩ hStay.2 hPlace hAgain (if_pos hKey).symm
      · have hTested := Again.test hAgain.undamaged hAgain.limit
        obtain ⟨r, hLoad', hAddress, hMembers⟩ := hAll₁.load_self (K := K) hAgain.undamaged hAgain.limit
          hClass hFile₁ hOnly₁ rfl position
        have hOthers : r.others = s.others := (List.cons.inj hMembers).2
        have hStart : Database.readPosition position (r.objectaddress + sizeOfObjectHeader + 8 * 2) =
            s.objectaddress + keyOffset := by
          rw [hAddress, Database.readPosition_pos position (by omega), keyOffset]
          omega
        rw [if_neg hKey, InfoHog.changeKeyMember, hLoad'] at hChange
        simp only [Option.bind_eq_bind, Option.bind_some, if_true, hStart] at hChange
        rw [if_neg (by omega)] at hChange
        simp only [Option.bind_some, if_true, hAddress, hAt, hOthers] at hChange
        rw [if_neg hLow] at hChange
        obtain rfl := Option.some.inj hChange
        exact hAll.changed_inPlace hClass hFile ⟨hBytes, hOnly'⟩ hStay.2 hPlace
          ⟨hTested.undamaged, hTested.object.trans hAgain.object, hTested.limit⟩ (by rw [if_neg hKey])

end InfoHogs

/-! ## Objects that are written over -/

theorem memberRecords_append (ms ms' : List (List UInt8)) :
    memberRecords (ms ++ ms') = memberRecords ms ++ memberRecords ms' := by
  simp [memberRecords]

namespace InfoHog

variable {classId : Int} {s h : InfoHog n} {p : Pod n}

/-- `OverWriteObject` leaves the last member as it was stored. -/
theorem InFile.overWrite (hFile : s.InFile classId p.data.object) (hData : p.data.Undamaged)
    (hLengths : h.others.map List.length = s.others.map List.length) :
    (overWriteObject h s.objectaddress p).1 = true ∧
      (overWriteObject h s.objectaddress p).2.data.Undamaged ∧
      ({ s with others := h.others.dropLast ++ s.others.getLast?.toList } : InfoHog n).InFile classId
        (overWriteObject h s.objectaddress p).2.data.object := by
  have hPos := (hFile.room hData).1
  have hAt : s.objectaddress + sizeOfObjectHeader + 8 * 2 + n = s.objectaddress + (keyOffset + n : Nat) := by
    rw [keyOffset]
    omega
  have hLow : ¬ s.objectaddress + ((keyOffset + n : Nat) : Int) < gxCurrAddress := by
    rw [gxCurrAddress]
    omega
  have hCount := hFile.count
  obtain ⟨rest, hObject⟩ := hFile.object
  have hLast : s.others = s.others.dropLast ++ s.others.getLast?.toList := by
    cases hNone : s.others.getLast? with
    | none => simp [List.getLast?_eq_none_iff.mp hNone]
    | some m => simp [List.dropLast_append_getLast? m hNone]
  rw [bytes_eq_front, hLast, memberRecords_append] at hObject
  have hObject' : p.data.object s.objectaddress =
      some ((front classId s.objectaddress s.numMembers n ++ s.key.1) ++
        (memberRecords s.others.dropLast ++ (memberRecords s.others.getLast?.toList ++ rest))) := by
    rw [hObject]
    simp
  have hShort : h.others.dropLast.map List.length = s.others.dropLast.map List.length := by
    rw [List.map_dropLast, List.map_dropLast, hLengths]
  obtain ⟨hWritten, hNew⟩ := overWriteMembers_eq hData hObject' hShort
  rw [List.length_append, front_length, s.key.2] at hWritten hNew
  have hNumber : (h.others.dropLast ++ s.others.getLast?.toList).length = s.others.length := by
    conv_rhs => rw [hLast]
    have hSame := congrArg List.length hShort
    rw [List.length_map, List.length_map] at hSame
    rw [List.length_append, List.length_append, hSame]
  rw [overWriteObject, hAt, if_neg hLow]
  refine ⟨rfl, hWritten, ⟨rest, ?_⟩, ?_⟩
  · change (overWriteMembers p.data (s.objectaddress + (keyOffset + n : Nat))
      h.others.dropLast).object s.objectaddress = _
    have hNum : ({ s with others := h.others.dropLast ++ s.others.getLast?.toList } : InfoHog n).numMembers =
        s.numMembers := congrArg Nat.succ hNumber
    rw [hNew, Function.update_self, bytes_eq_front, memberRecords_append, hNum]
    simp
  · change (h.others.dropLast ++ s.others.getLast?.toList).length + 1 ≤ _
    rw [hNumber]
    exact hCount

theorem dropLast_append_iff {α : Type} {l l' : List α} (hLength : l.length = l'.length) :
    l.dropLast ++ l'.getLast?.toList = l ↔ l.getLast? = l'.getLast? := by
  rcases List.eq_nil_or_concat l with rfl | ⟨k, x, rfl⟩
  · obtain rfl := List.length_eq_zero_iff.mp hLength.symm
    simp
  · rcases List.eq_nil_or_concat l' with rfl | ⟨k', x', rfl⟩
    · simp at hLength
    · simp [eq_comm]

/-- `OverWriteObject` does what it says if the last member is the stored one. -/
theorem overWriteObject_iff (hFile : s.InFile classId p.data.object) (hData : p.data.Undamaged)
    (hClass : -2 ^ 63 ≤ classId ∧ classId < 2 ^ 63)
    (hLengths : h.others.map List.length = s.others.map List.length) :
    (overWriteObject h s.objectaddress p).1 = true ∧
      ((∀ position, ∃ r : InfoHog n, readFrom classId (named s.key).array position s.objectaddress
          (overWriteObject h s.objectaddress p).2 = some r ∧ r.members = s.key.1 :: h.others) ↔
        h.others.getLast? = s.others.getLast?) := by
  obtain ⟨hTrue, hData', hFile'⟩ := hFile.overWrite hData hLengths
  refine ⟨hTrue, ?_⟩
  have hLength : h.others.length = s.others.length := by
    rw [← List.length_map, hLengths, List.length_map]
  obtain ⟨r, hRead, -, -, hMembers⟩ := hFile'.readAt hData' hClass (named s.key)
  have hFrom (position : Int) : readFrom classId (named s.key).array position s.objectaddress
      (overWriteObject h s.objectaddress p).2 = some r.1 := by
    rw [readFrom, hData'.getEOF, Database.readPosition_pos position (hFile.room hData).1]
    exact congrArg (Option.map Prod.fst) hRead
  rw [← dropLast_append_iff hLength]
  have hSame : r.1.members = s.key.1 :: (h.others.dropLast ++ s.others.getLast?.toList) :=
    hMembers (takes_named s.key 0 _)
  simp only [hFrom, Option.some_inj, exists_eq_left', hSame, List.cons.injEq, true_and, forall_const]

end InfoHog

/-- An object with two members behind its key. -/
def byteMembers (b c : UInt8) : InfoHog 1 := ⟨⟨[1], rfl⟩, [[b], [c]], [], 0⟩

/-- A POD with such an object. -/
def memberPod : Pod 1 :=
  ((hogCalls (byteKey.keyClass true true) 1).step (0, byteMembers 2 3, .writeObject false) bytePod).2

end DataReel
