import DataReel.Btree.Create
import DataReel.Btree.Delete
import DataReel.Btree.Insert
import DataReel.Btree.Search
import DataReel.Library.Machine

/-! # The public calls and what they mean

The calls of a `gxBtree` without a cache, in their plain form: the optional
`flushdb` argument is any value, `test_tree` is its default. Beside them
stands the finite set of keys that a tree is to behave like.
-/

namespace DataReel

variable {κ : Type}

inductive Call (κ : Type)
  | insert (key : DatabaseKey κ) (flushdb : Bool)
  | delete (key : DatabaseKey κ) (flushdb : Bool)
  | fastDelete (key : DatabaseKey κ) (flushdb : Bool)
  | find (key : κ)
  | findFirst
  | findLast
  | findNext (key : κ)
  | findPrev (key : κ)

/-- What a caller sees: 1, 1 with a key that was passed back, 0, or a call that used an entry which
its node does not have. -/
inductive Reply (κ : Type)
  | done
  | found (key : κ)
  | zero
  | undefined
  deriving DecidableEq, Repr

/-- The reply that a run of a call gives, with the state after it. -/
def reply {α : Type} (one : α → Reply κ) : EStateM.Result Halt (Btree κ) α → Reply κ × Btree κ
  | .ok a t => (one a, t)
  | .error (.error _) t => (.zero, t)
  | .error .badEntry t => (.undefined, t)

/-- `if(flushdb) Flush();` after a call that succeeded. -/
def flushed {α : Type} (flushdb : Bool) (x : BtreeM κ α) : BtreeM κ α := do
  let a ← x
  if flushdb then
    modify Btree.flush
    pure a
  else pure a

def searched (x : BtreeM κ (DatabaseKey κ × CurrNode κ)) (t : Btree κ) : Reply κ × Btree κ :=
  reply (fun r => .found r.1.dbKey) (x t)

def updated (flushdb : Bool) (x : BtreeM κ (DatabaseKey κ)) (t : Btree κ) : Reply κ × Btree κ :=
  reply (fun _ => .done) (flushed flushdb x t)

def gxBtree (K : KeyClass κ) : Machine (Call κ) (Reply κ) (Btree κ) where
  step
    | .insert key flushdb => updated flushdb (insertDatabaseKey K key)
    | .delete key flushdb => updated flushdb (deleteDatabaseKey K key)
    | .fastDelete key flushdb => updated flushdb (fastDeleteDatabaseKey K key)
    | .find key => searched (find K key CurrNode.new)
    | .findFirst => searched findFirst
    | .findLast => searched findLast
    | .findNext key => searched (findNext K key CurrNode.new)
    | .findPrev key => searched (findPrev K key CurrNode.new)

namespace KeySet

variable {C : Comparison κ}

def answer : Option κ → Reply κ
  | none => .zero
  | some k => .found k

def insertKey (hC : C.Strict) (k : κ) (A : KeySet C) : Reply κ × KeySet C :=
  match A.find k with
  | none => (.done, A.insert hC k)
  | some _ => (.zero, A)

def deleteKey (k : κ) (A : KeySet C) : Reply κ × KeySet C :=
  match A.find k with
  | none => (.zero, A)
  | some _ => (.done, A.erase k)

/-- A finite set of keys under the same calls. -/
def machine (hC : C.Strict) : Machine (Call κ) (Reply κ) (KeySet C) where
  step
    | .insert key _ => insertKey hC key.dbKey
    | .delete key _ => deleteKey key.dbKey
    | .fastDelete key _ => deleteKey key.dbKey
    | .find key => fun A => (answer (A.find key), A)
    | .findFirst => fun A => (answer A.first, A)
    | .findLast => fun A => (answer A.last, A)
    | .findNext key => fun A => (answer (A.following key), A)
    | .findPrev key => fun A => (answer (A.preceding key), A)

end KeySet

end DataReel
