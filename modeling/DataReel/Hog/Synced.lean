import DataReel.Btree.Contents
import DataReel.Hog.InfoHog
import DataReel.Database.Contents

/-! # Objects and keys that belong together

The objects of a data file as bytes by their addresses, beside the set of keys
of the index. The four changes that keep the two together are an object with a
new key, an object taken away with its key, other bytes behind the key, and
another key of an object.
-/

namespace DataReel

variable {n : Nat}

/-! ## The order of the keys -/

theorem KeyType.keyClass_strictOrder {T : KeyType n} (hT : T.comparison.Strict)
    (useBinarySearch useSingleCompare : Bool) :
    (T.keyClass useBinarySearch useSingleCompare).StrictOrder where
  strict := ⟨hT.lt_trans, hT.eqv_symm, hT.eqv_trans, fun a b => hT.total a.objectName b.objectName,
    hT.lt_not_eqv, hT.lt_not_gt⟩
  compareKey_pos a b := by
    change 0 < (if T.equal a.objectName b.objectName then (0 : Int)
      else if T.greater a.objectName b.objectName then 1 else -1) ↔ T.greater a.objectName b.objectName
    split
    · rename_i hEq
      have hNot := hT.eqv_not_gt hEq
      change T.greater a.objectName b.objectName = false at hNot
      simp [hNot]
    · split <;> simp [*]
  compareKey_zero a b := by
    change (if T.equal a.objectName b.objectName then (0 : Int)
      else if T.greater a.objectName b.objectName then 1 else -1) = 0 ↔ T.equal a.objectName b.objectName
    split
    · simp [*]
    · split <;> simp [*]

/-- Keys compare equal by their names alone. -/
def KeyClass.ByName (K : KeyClass (InfoHogKey n)) : Prop :=
  ∀ j j' k, j.objectName = j'.objectName → K.comparison.eqv j k = K.comparison.eqv j' k

theorem KeyType.keyClass_byName (T : KeyType n) (useBinarySearch useSingleCompare : Bool) :
    (T.keyClass useBinarySearch useSingleCompare).ByName :=
  fun _ _ k hName => congrArg (T.equal · k.objectName) hName

theorem KeyClass.ByName.find_eq {K : KeyClass (InfoHogKey n)} (hName : K.ByName)
    (A : KeySet K.comparison) {j k : InfoHogKey n} (hSame : j.objectName = k.objectName) :
    A.find j = A.find k := by
  rw [KeySet.find, KeySet.find, show (fun a => K.comparison.eqv j a) = fun a => K.comparison.eqv k a from
    funext fun a => hName j k a hSame]

/-! ## Objects as bytes -/

/-- Where the bytes of member 0 are in an object: behind the object header, the number of members and
a length. -/
def keyOffset : Nat := sizeOfObjectHeader + 8 * 2

/-- The bytes of an object of the class with a key of `n` bytes. -/
structure StoredObject (classId : Int) (n : Nat) (l : List UInt8) : Prop where
  room : keyOffset + n ≤ l.length
  classWord : l.take 8 = Bytes.leBytes 8 (wordOfInt classId)
  keyLength : (l.drop (sizeOfObjectHeader + 8)).take 8 = Bytes.leBytes 8 n

/-- The key in the bytes of an object. -/
def storedKey (n : Nat) (l : List UInt8) : List UInt8 := (l.drop keyOffset).take n

variable {classId : Int} {l l' : List UInt8}

theorem take_drop_congr {α : Type} {l l' : List α} {m : Nat} (hSame : l'.take m = l.take m) {i k : Nat}
    (hIn : i + k ≤ m) : (l'.drop i).take k = (l.drop i).take k := by
  have hFront := congrArg (List.take (i + k)) hSame
  rw [List.take_take, List.take_take, Nat.min_eq_left hIn] at hFront
  rw [List.take_drop, List.take_drop, hFront]

theorem StoredObject.of_front (h : StoredObject classId n l) (hLength : l'.length = l.length)
    (hSame : l'.take (keyOffset + n) = l.take (keyOffset + n)) :
    StoredObject classId n l' ∧ storedKey n l' = storedKey n l := by
  have hWord : 0 + 8 ≤ keyOffset + n := by
    rw [keyOffset, sizeOfObjectHeader]
    omega
  refine ⟨⟨hLength ▸ h.room, ?_, ?_⟩, take_drop_congr hSame (Nat.le_refl _)⟩
  · exact (take_drop_congr hSame hWord).trans h.classWord
  · exact (take_drop_congr hSame (by rw [keyOffset]; omega)).trans h.keyLength

theorem StoredObject.setKey (h : StoredObject classId n l) (k : Buffer n) :
    StoredObject classId n (l.take keyOffset ++ k.1 ++ l.drop (keyOffset + n)) ∧
      storedKey n (l.take keyOffset ++ k.1 ++ l.drop (keyOffset + n)) = k.1 := by
  obtain ⟨k, hk⟩ := k
  have hRoom := h.room
  have hTake : (l.take keyOffset).length = keyOffset := by
    rw [List.length_take]
    omega
  have hSame : (l.take keyOffset ++ k ++ l.drop (keyOffset + n)).take keyOffset = l.take keyOffset := by
    rw [List.append_assoc, List.take_left' hTake]
  refine ⟨⟨?_, ?_, ?_⟩, ?_⟩
  · change keyOffset + n ≤ (l.take keyOffset ++ k ++ l.drop (keyOffset + n)).length
    rw [List.length_append, List.length_append, hTake, List.length_drop]
    omega
  · exact (take_drop_congr (i := 0) hSame (by decide)).trans h.classWord
  · exact (take_drop_congr hSame (by decide)).trans h.keyLength
  · rw [storedKey, List.append_assoc, List.drop_left' hTake, List.take_left' hk]

/-! ## The changes -/

/-- Each object is stored with its key, and the keys are those of the objects. -/
structure Synced {C : Comparison (InfoHogKey n)} (classId : Int) (objects : Int → Option (List UInt8))
    (A : KeySet C) : Prop where
  stored : ∀ a l, objects a = some l → StoredObject classId n l
  keys : ∀ a name, (∃ l, objects a = some l ∧ storedKey n l = name.1) ↔
    ∃ k ∈ A.keys, k.objectId = a ∧ k.objectName = name

namespace Synced

variable {K : KeyClass (InfoHogKey n)} {objects : Int → Option (List UInt8)} {A : KeySet K.comparison}
  {k : InfoHogKey n} {a : Int} (h : Synced classId objects A)

include h

theorem object_of_key (hk : k ∈ A.keys) :
    ∃ l, objects k.objectId = some l ∧ storedKey n l = k.objectName.1 :=
  (h.keys k.objectId k.objectName).mpr ⟨k, hk, rfl, rfl⟩

theorem key_of_object (hObject : objects a = some l) :
    ∃ k ∈ A.keys, k.objectId = a ∧ k.objectName.1 = storedKey n l := by
  have hRoom := (h.stored a l hObject).room
  have hLength : (storedKey n l).length = n := by
    rw [storedKey, List.length_take, List.length_drop]
    omega
  obtain ⟨k, hk, hAddress, hName⟩ := (h.keys a ⟨storedKey n l, hLength⟩).mp ⟨l, hObject, rfl⟩
  exact ⟨k, hk, hAddress, congrArg Subtype.val hName⟩

theorem setBytes (hObject : objects a = some l) (hStored : StoredObject classId n l')
    (hKey : storedKey n l' = storedKey n l) : Synced classId (Function.update objects a (some l')) A := by
  constructor
  · intro x m hm
    by_cases hx : x = a
    · rw [hx, Function.update_self, Option.some_inj] at hm
      exact hm ▸ hStored
    · rw [Function.update_of_ne hx] at hm
      exact h.stored x m hm
  · intro x name
    rw [← h.keys x name]
    by_cases hx : x = a
    · rw [hx, Function.update_self, hObject]
      constructor
      · rintro ⟨m, hm, hName⟩
        rw [Option.some_inj] at hm
        exact ⟨l, rfl, by rw [← hKey, hm, hName]⟩
      · rintro ⟨m, hm, hName⟩
        rw [Option.some_inj] at hm
        exact ⟨l', rfl, by rw [hKey, hm, hName]⟩
    · rw [Function.update_of_ne hx]

variable (hC : K.comparison.Strict) (hByName : K.ByName)

include hC hByName

theorem unique {j : InfoHogKey n} (hj : j ∈ A.keys) (hk : k ∈ A.keys)
    (hSame : j.objectId = k.objectId) : j = k := by
  obtain ⟨l, hl, hName⟩ := h.object_of_key hj
  obtain ⟨m, hm, hName'⟩ := h.object_of_key hk
  rw [hSame, hm, Option.some_inj] at hl
  have hNames : j.objectName = k.objectName := Subtype.ext (by rw [← hName, ← hName', hl])
  refine Comparison.Sorted.eq_of_eqv hC A.sorted hj hk ?_
  rw [hByName j k k hNames, hC.eqv_refl k]

omit hByName in
theorem add (hNone : objects k.objectId = none) (hNew : A.find k = none)
    (hStored : StoredObject classId n l) (hKey : storedKey n l = k.objectName.1) :
    Synced classId (Function.update objects k.objectId (some l)) (A.insert hC k) := by
  constructor
  · intro x m hm
    by_cases hx : x = k.objectId
    · rw [hx, Function.update_self, Option.some_inj] at hm
      exact hm ▸ hStored
    · rw [Function.update_of_ne hx] at hm
      exact h.stored x m hm
  · intro x name
    simp only [A.mem_insert_iff hC k hNew]
    by_cases hx : x = k.objectId
    · subst hx
      rw [Function.update_self]
      constructor
      · rintro ⟨m, hm, hName⟩
        rw [Option.some_inj] at hm
        exact ⟨k, .inl rfl, rfl, Subtype.ext (by rw [← hKey, hm, hName])⟩
      · rintro ⟨j, rfl | hj, hAddress, rfl⟩
        · exact ⟨l, rfl, hKey⟩
        · obtain ⟨m, hm, -⟩ := h.object_of_key hj
          rw [hAddress, hNone] at hm
          cases hm
    · rw [Function.update_of_ne hx, h.keys x name]
      constructor
      · rintro ⟨j, hj, hAddress, hName⟩
        exact ⟨j, .inr hj, hAddress, hName⟩
      · rintro ⟨j, rfl | hj, hAddress, hName⟩
        · exact absurd hAddress.symm hx
        · exact ⟨j, hj, hAddress, hName⟩

theorem remove (hk : k ∈ A.keys) : Synced classId (Function.update objects k.objectId none) (A.erase k) := by
  constructor
  · intro x m hm
    by_cases hx : x = k.objectId
    · rw [hx, Function.update_self] at hm
      cases hm
    · rw [Function.update_of_ne hx] at hm
      exact h.stored x m hm
  · intro x name
    simp only [A.mem_erase_iff]
    by_cases hx : x = k.objectId
    · subst hx
      rw [Function.update_self]
      constructor
      · rintro ⟨m, hm, -⟩
        cases hm
      · rintro ⟨j, ⟨hj, hApart⟩, hAddress, -⟩
        rw [h.unique hC hByName hj hk hAddress, hC.eqv_refl k] at hApart
        cases hApart
    · rw [Function.update_of_ne hx, h.keys x name]
      constructor
      · rintro ⟨j, hj, hAddress, hName⟩
        refine ⟨j, ⟨hj, Bool.eq_false_iff.mpr fun hEq => hx ?_⟩, hAddress, hName⟩
        rw [← hAddress, Comparison.Sorted.eq_of_eqv hC A.sorted hk hj hEq]
      · rintro ⟨j, ⟨hj, -⟩, hAddress, hName⟩
        exact ⟨j, hj, hAddress, hName⟩

theorem rekey (hk : k ∈ A.keys) {j : InfoHogKey n} (hAddress : j.objectId = k.objectId)
    (hNew : (A.erase k).find j = none) (hStored : StoredObject classId n l)
    (hKey : storedKey n l = j.objectName.1) :
    Synced classId (Function.update objects k.objectId (some l)) ((A.erase k).insert hC j) := by
  have hNone : Function.update objects k.objectId none j.objectId = none := by
    rw [hAddress, Function.update_self]
  have hAdded := (h.remove hC hByName hk).add hC hNone hNew hStored hKey
  rwa [hAddress, Function.update_idem] at hAdded

end Synced

end DataReel
