import DataReel.Hog.Synced

/-! # The index of a POD and its data file

Calls on a POD with an index keep the objects and the keys together, as long as
no key is added that is already there and no member is written outside its
object.
-/

namespace DataReel

variable {n : Nat}

/-! ## Calls -/

inductive HogCall (n : Nat)
  | writeObject (find : Bool)
  | findObject
  | readObject
  | deleteObject
  | changeMember (ob : List UInt8) (index : Nat) (findObject : Bool)
  | changeKeyMember (k : Buffer n) (findObject : Bool)
  | changeObject (ob : InfoHog n) (findObject : Bool)

section Perform

variable (K : KeyClass (InfoHogKey n)) (classId position : Int) (h : InfoHog n) (p : Pod n)

def HogCall.perform : HogCall n → Option (Outcome n)
  | .writeObject find => h.writeObject K classId position p find
  | .findObject => h.find K classId position p
  | .readObject => some (h.readObject classId position p)
  | .deleteObject => h.deleteObject K classId position p
  | .changeMember ob index loads => h.changeMember K classId position p ob index loads
  | .changeKeyMember k loads => h.changeKeyMember K classId position p k loads
  | .changeObject ob loads => h.changeObject K classId position p ob loads

end Perform

/-- A call comes with the file position and the object it is made on. It replies what it returns and
leaves of the object, if it returns. -/
def hogCalls (K : KeyClass (InfoHogKey n)) (classId : Int) :
    Machine (Int × InfoHog n × HogCall n) (Option (Bool × Option (InfoHog n))) (Pod n) where
  step c p :=
    match c.2.2.perform K classId c.1 c.2.1 p with
    | none => (none, p)
    | some o => (some (o.result, o.object), o.pod)

/-! ## Agreement -/

/-- The live objects of a class. -/
def liveObjects (classId : Int) (d : Database) : List Int :=
  d.objects.filter fun a => InfoHog.readObjectHeader d a = some classId

/-- Member 0 of the object at an address. -/
def memberZero (d : Database) (a : Int) : Option (List UInt8) := do
  let word ← d.readBytes (a + (sizeOfObjectHeader + 8 : Nat)) 8
  let key ← d.readBytes (a + keyOffset) (Bytes.leNat word.1)
  return key.1

/-- Each live object of the class has one key, which is its member 0 with its address, and each key
points to a live object of the class. -/
def InSync (classId : Int) (p : Pod n) : Prop :=
  ∃ t, p.index = some t ∧ (t.keys.map InfoHogKey.objectId).Perm (liveObjects classId p.data) ∧
    ∀ k ∈ t.keys, memberZero p.data k.objectId = some k.objectName.1

/-! ## When a call keeps it -/

namespace InfoHog

/-- The bytes of an object behind its header. -/
def dataLength (h : InfoHog n) : Nat := 8 + h.numMembers * 8 + (h.members.map List.length).sum

/-- The object that a change works on: the one at hand, or the one that was found and read. -/
def loaded (K : KeyClass (InfoHogKey n)) (classId position : Int) (h : InfoHog n) (p : Pod n)
    (findObject : Bool) : Option (InfoHog n) :=
  (h.load K classId position p findObject).bind fun o => if o.result then o.object else none

end InfoHog

namespace Pod

variable (K : KeyClass (InfoHogKey n)) (p : Pod n)

/-- The key of the index that `FindKey` finds. -/
def keyOf (name : Buffer n) : Option (InfoHogKey n) :=
  p.index.bind fun t => (findKey K t ⟨name, 0, 0⟩).1

/-- The index file has room for another key. -/
def IndexRoom : Prop := ∀ t ∈ p.index, t.f.Room maxLevels

/-- The object is shorter than 4 GB, and both files have room for it. -/
structure Takes (h : InfoHog n) : Prop where
  length : h.dataLength < 2 ^ 32
  dataRoom : p.data.fileHeader.gxdEof + (sizeOfObjectHeader + h.dataLength + p.data.overhead : Nat) < 2 ^ 63
  indexRoom : p.IndexRoom

/-- The object at an address has the bytes up to an offset. -/
def Reaches (a : Int) (offset : Nat) : Prop := ∃ l, p.data.object a = some l ∧ offset ≤ l.length

/-- The key `old` may give way to `new`: no other entry has it. -/
structure Rekeys (old new : Buffer n) : Prop where
  unused : ∀ e ∈ p.keyOf K old, ∀ e' ∈ p.keyOf K new, e' = e
  indexRoom : p.IndexRoom

end Pod

namespace HogCall

variable (K : KeyClass (InfoHogKey n)) (classId position : Int) (h : InfoHog n) (p : Pod n)

def KeySafe (k : Buffer n) : Prop :=
  ∀ e ∈ p.keyOf K h.key, e.objectId = h.objectaddress ∧ p.Rekeys K h.key k

def OtherSafe (ob : List UInt8) (index : Nat) : Prop :=
  if ob.length ≠ ((h.members ++ h.spare).getD index []).length then p.Takes (h.setMember ob index)
  else ob.length = 0 ∨ p.Reaches h.objectaddress (h.memberOffset index + 8 + ob.length)

def ObjectSafe (ob : InfoHog n) : Prop :=
  if h.members = ob.members then True
  else if h.objectLength ≠ ob.objectLength ∨ h.numMembers ≠ ob.numMembers then p.Takes ob
  else if h.key = ob.key then p.Reaches h.objectaddress (sizeOfObjectHeader + ob.dataLength)
  else ∀ e ∈ p.keyOf K h.key, p.Rekeys K h.key ob.key ∧
    p.Reaches e.objectId (sizeOfObjectHeader + ob.dataLength)

/-- The call adds no key that another entry has, finds room for what it adds, and writes the members
of an object inside it. -/
def Safe : HogCall n → Prop
  | .writeObject find => if p.keyOf K h.key = none then p.Takes h else find = true
  | .findObject | .readObject | .deleteObject => True
  | .changeMember ob index loads =>
    if index = 0 then
      ∃ hLength : n ≤ ob.length, ∀ h' ∈ h.loaded K classId position p loads,
        KeySafe K h' p ⟨ob.take n, List.length_take_of_le hLength⟩
    else ∀ h' ∈ h.loaded K classId position p loads, OtherSafe h' p ob index
  | .changeKeyMember k loads =>
    ∀ h' ∈ h.loaded K classId position p loads, KeySafe K h' p k
  | .changeObject ob loads =>
    ∀ h' ∈ h.loaded K classId position p loads, ObjectSafe K h' p ob

end HogCall

end DataReel
