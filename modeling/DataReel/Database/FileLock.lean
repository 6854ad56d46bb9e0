import DataReel.Database.Error
import DataReel.Database.Layout
import DataReel.Library.Machine
import Mathlib.Data.Finset.Card
import Mathlib.Data.Fintype.Basic

/-! # The file lock

`LockFile` and `UnlockFile` read the lock header, test it and write back the
protect word, one lock word and the protect word again. Several clients do so
on one file, in any order of these accesses.
-/

namespace DataReel

inductive DatabaseLockType
  | read | write
  deriving DecidableEq, Repr

structure FileLockHeader where
  fileLockProtect : Nat
  fileReadLock : Nat
  fileWriteLock : Nat
  deriving DecidableEq, Repr

def FileLockHeader.init : FileLockHeader := ⟨0, 0, 0⟩

inductive LockCall
  | lockFile (l : DatabaseLockType)
  | unlockFile (l : DatabaseLockType)
  deriving DecidableEq, Repr

namespace LockCall

def lockType : LockCall → DatabaseLockType
  | lockFile l | unlockFile l => l

/-- The `switch` of a call on its lock type: an error, 0 at once, or the header to write back. -/
def change (hdr : FileLockHeader) : LockCall → Except DatabaseError (Option FileLockHeader)
  | lockFile .write =>
    if hdr.fileReadLock ≠ 0 ∨ hdr.fileWriteLock ≠ 0 then .error .filelockError
    else .ok (some { hdr with fileWriteLock := 1 })
  | lockFile .read =>
    if hdr.fileWriteLock = 1 then .error .filelockError
    else if hdr.fileReadLock < 0xFFFFFFFF then
      .ok (some { hdr with fileReadLock := hdr.fileReadLock + 1 })
    else .error .filelockError
  | unlockFile .write =>
    if hdr.fileWriteLock = 0 then .ok none else .ok (some { hdr with fileWriteLock := 0 })
  | unlockFile .read =>
    if hdr.fileReadLock = 0 then .ok none
    else .ok (some { hdr with fileReadLock := hdr.fileReadLock - 1 })

/-- What a call does with the header it has read. -/
def test (hdr : FileLockHeader) (c : LockCall) : Except DatabaseError (Option FileLockHeader) :=
  if hdr.fileLockProtect ≠ 0 then .error .filelockAccessError else c.change hdr

/-- The call goes on to write. -/
def Passes (hdr : FileLockHeader) (c : LockCall) : Bool :=
  match c.test hdr with
  | .ok (some _) => true
  | _ => false

/-- The second write of a call, of the word of its lock type alone. -/
def store (c : LockCall) (new hdr : FileLockHeader) : FileLockHeader :=
  match c.lockType with
  | .read => { hdr with fileReadLock := new.fileReadLock }
  | .write => { hdr with fileWriteLock := new.fileWriteLock }

end LockCall

/-- The last access to the file that a client has made in its call. -/
inductive LockPhase
  | idle
  | tested (c : LockCall) (hdr : FileLockHeader)
  | protecting (c : LockCall) (hdr : FileLockHeader)
  | changed (c : LockCall)
  deriving DecidableEq

/-- The lock header of a file with its clients, and those to which `LockFile` has returned 0 and
`UnlockFile` has not. -/
structure FileLock (ι : Type) where
  header : FileLockHeader
  phase : ι → LockPhase
  holders : DatabaseLockType → Finset ι

/-- A new file. -/
def FileLock.new (ι : Type) : FileLock ι := ⟨.init, fun _ => .idle, fun _ => ∅⟩

/-- A client calls and reads the header, or makes the next access of its call. -/
inductive LockEvent (ι : Type)
  | call (i : ι) (c : LockCall)
  | next (i : ι)

variable {ι : Type} [DecidableEq ι]

namespace FileLock

variable (s : FileLock ι) (i : ι)

def protect (word : Nat) : FileLock ι :=
  { s with header := { s.header with fileLockProtect := word } }

def setPhase (p : LockPhase) : FileLock ι := { s with phase := Function.update s.phase i p }

/-- Who holds the locks when a call of `i` has returned 0. -/
def holdersAfter : LockCall → DatabaseLockType → Finset ι
  | .lockFile l => Function.update s.holders l (insert i (s.holders l))
  | .unlockFile l => Function.update s.holders l ((s.holders l).erase i)

def returned (c : LockCall) : FileLock ι :=
  { s with phase := Function.update s.phase i .idle, holders := s.holdersAfter i c }

def call (rev : Revision) (c : LockCall) : Option (Except DatabaseError Unit) × FileLock ι :=
  match s.phase i with
  | .idle =>
    if rev.hasFileLock then
      match c.test s.header with
      | .error e => (some (.error e), s)
      | .ok none => (some (.ok ()), s.returned i c)
      | .ok (some hdr) => (none, s.setPhase i (.tested c hdr))
    else (some (.ok ()), s.returned i c)
  | _ => (none, s)

def next : Option (Except DatabaseError Unit) × FileLock ι :=
  match s.phase i with
  | .idle => (none, s)
  | .tested c hdr => (none, (s.protect 1).setPhase i (.protecting c hdr))
  | .protecting c hdr =>
    (none, { s with header := c.store hdr s.header }.setPhase i (.changed c))
  | .changed c => (some (.ok ()), (s.protect 0).returned i c)

end FileLock

def fileLock (rev : Revision) :
    Machine (LockEvent ι) (Option (Except DatabaseError Unit)) (FileLock ι) where
  step
    | .call i c, s => s.call i rev c
    | .next i, s => s.next i

/-- The client may make the call: it holds the lock it gives up and does not ask for its read lock
again. -/
def LockCall.Owned (holders : DatabaseLockType → Finset ι) (i : ι) : LockCall → Prop
  | .lockFile .read => i ∉ holders .read
  | .lockFile .write => True
  | .unlockFile l => i ∈ holders l

instance (holders : DatabaseLockType → Finset ι) (i : ι) :
    ∀ c : LockCall, Decidable (c.Owned holders i)
  | .lockFile .read => inferInstanceAs (Decidable (i ∉ holders .read))
  | .lockFile .write => isTrue trivial
  | .unlockFile l => inferInstanceAs (Decidable (i ∈ holders l))

/-- The client has passed the tests and has not written the protect word. -/
def LockPhase.Testing : LockPhase → Bool
  | .tested _ _ => true
  | _ => false

/-- No call passes its tests while another is between its tests and its first write. -/
def LockEvent.Serial : LockEvent ι → FileLock ι → Prop
  | .call i c, s => s.phase i = .idle → c.Passes s.header = true →
      (∀ j, (s.phase j).Testing = false) ∧ c.Owned s.holders i
  | .next _, _ => True

instance [Fintype ι] : ∀ (e : LockEvent ι) (s : FileLock ι), Decidable (e.Serial s)
  | .call i c, s => inferInstanceAs (Decidable (s.phase i = .idle → c.Passes s.header = true →
      (∀ j, (s.phase j).Testing = false) ∧ c.Owned s.holders i))
  | .next _, _ => isTrue trivial

/-! ## Calls that keep apart -/

/-- The lock words count the holders, and a writer is alone. -/
structure FileLockHeader.Counts (hdr : FileLockHeader) (holders : DatabaseLockType → Finset ι) :
    Prop where
  read : hdr.fileReadLock = (holders .read).card
  write : hdr.fileWriteLock = (holders .write).card
  exclusive : hdr.fileWriteLock = 0 ∨ hdr.fileWriteLock = 1 ∧ hdr.fileReadLock = 0

section Words

omit [DecidableEq ι]

variable {hdr new : FileLockHeader} {holders : DatabaseLockType → Finset ι}

theorem FileLockHeader.Counts.protect (h : hdr.Counts holders) (word : Nat) :
    { hdr with fileLockProtect := word }.Counts holders := ⟨h.read, h.write, h.exclusive⟩

theorem LockCall.store_protect (c : LockCall) (word : Nat) :
    c.store new { hdr with fileLockProtect := word } =
      { c.store new hdr with fileLockProtect := word } := by
  rw [LockCall.store, LockCall.store]
  cases c.lockType <;> rfl

theorem LockCall.store_fileLockProtect (c : LockCall) :
    (c.store new hdr).fileLockProtect = hdr.fileLockProtect := by
  rw [LockCall.store]
  cases c.lockType <;> rfl

theorem LockCall.test_ok {c : LockCall} {r : Option FileLockHeader} (hTest : c.test hdr = .ok r) :
    hdr.fileLockProtect = 0 ∧ c.change hdr = .ok r := by
  rw [LockCall.test] at hTest
  split at hTest
  · cases hTest
  · rename_i hProtect
    exact ⟨not_not.mp hProtect, hTest⟩

end Words

namespace FileLock

variable {s : FileLock ι} {i : ι} {hdr new : FileLockHeader} {c : LockCall} {rev : Revision}

theorem counts_store (hChange : c.change hdr = .ok (some new)) (hCounts : hdr.Counts s.holders)
    (hOwned : c.Owned s.holders i) : (c.store new hdr).Counts (s.holdersAfter i c) := by
  obtain ⟨hRead, hWrite, hExclusive⟩ := hCounts
  cases c with
  | lockFile l =>
    cases l with
    | read =>
      have hNew : i ∉ s.holders .read := hOwned
      rw [LockCall.change] at hChange
      split at hChange
      · cases hChange
      · split at hChange
        · cases hChange
          refine ⟨?_, by simpa [holdersAfter, LockCall.store, LockCall.lockType] using hWrite, .inl ?_⟩
          · simp [holdersAfter, LockCall.store, LockCall.lockType,
              Finset.card_insert_of_notMem hNew, hRead]
          · simp only [LockCall.store, LockCall.lockType]
            omega
        · cases hChange
    | write =>
      rw [LockCall.change] at hChange
      split at hChange
      · cases hChange
      · rename_i hFree
        cases hChange
        obtain ⟨hNoRead, hNoWrite⟩ := not_or.mp hFree
        have hEmpty : s.holders .write = ∅ := Finset.card_eq_zero.mp (by omega)
        refine ⟨by simpa [holdersAfter, LockCall.store, LockCall.lockType] using hRead, ?_, .inr ⟨rfl, not_not.mp hNoRead⟩⟩
        simp [holdersAfter, LockCall.store, LockCall.lockType, hEmpty]
  | unlockFile l =>
    have hHolds : i ∈ s.holders l := hOwned
    cases l with
    | read =>
      rw [LockCall.change] at hChange
      split at hChange
      · cases hChange
      · cases hChange
        refine ⟨?_, by simpa [holdersAfter, LockCall.store, LockCall.lockType] using hWrite, .inl ?_⟩
        · simp [holdersAfter, LockCall.store, LockCall.lockType, Finset.card_erase_of_mem hHolds,
            hRead]
        · simp only [LockCall.store, LockCall.lockType]
          omega
    | write =>
      rw [LockCall.change] at hChange
      split at hChange
      · cases hChange
      · cases hChange
        have hOne : (s.holders .write).card = 1 := by omega
        refine ⟨by simpa [holdersAfter, LockCall.store, LockCall.lockType] using hRead, ?_, .inl rfl⟩
        simp [holdersAfter, LockCall.store, LockCall.lockType, Finset.card_erase_of_mem hHolds,
          hOne]

/-- A call that returns at once gives up a lock that nobody holds. -/
theorem returned_of_change (hChange : c.change hdr = .ok none) (hCounts : hdr.Counts s.holders)
    (hIdle : s.phase i = .idle) : s.returned i c = s := by
  have hPhase : Function.update s.phase i .idle = s.phase := by
    rw [← hIdle, Function.update_eq_self]
  have hHolders : s.holdersAfter i c = s.holders := by
    cases c with
    | lockFile l => cases l <;> grind [LockCall.change]
    | unlockFile l =>
      have hNone : s.holders l = ∅ := by
        rw [← Finset.card_eq_zero]
        cases l with
        | read =>
          rw [← hCounts.read]
          grind [LockCall.change]
        | write =>
          rw [← hCounts.write]
          grind [LockCall.change]
      rw [holdersAfter, hNone, Finset.erase_empty, ← hNone, Function.update_eq_self]
  rw [returned, hPhase, hHolders]

/-- At most one client is in a call, and the header counts the holders before or after it. -/
inductive Serialized : FileLock ι → Prop
  | quiet {s : FileLock ι} (hIdle : ∀ i, s.phase i = .idle) (hProtect : s.header.fileLockProtect = 0)
      (hCounts : s.header.Counts s.holders) : Serialized s
  | tested {s : FileLock ι} (i : ι) (c : LockCall) (new : FileLockHeader)
      (hAlone : ∀ j, j ≠ i → s.phase j = .idle) (hPhase : s.phase i = .tested c new)
      (hProtect : s.header.fileLockProtect = 0) (hCounts : s.header.Counts s.holders)
      (hAfter : (c.store new s.header).Counts (s.holdersAfter i c)) : Serialized s
  | protecting {s : FileLock ι} (i : ι) (c : LockCall) (new : FileLockHeader)
      (hAlone : ∀ j, j ≠ i → s.phase j = .idle) (hPhase : s.phase i = .protecting c new)
      (hProtect : s.header.fileLockProtect ≠ 0) (hCounts : s.header.Counts s.holders)
      (hAfter : (c.store new s.header).Counts (s.holdersAfter i c)) : Serialized s
  | changed {s : FileLock ι} (i : ι) (c : LockCall) (old : FileLockHeader)
      (hAlone : ∀ j, j ≠ i → s.phase j = .idle) (hPhase : s.phase i = .changed c)
      (hProtect : s.header.fileLockProtect ≠ 0) (hCounts : old.Counts s.holders)
      (hAfter : s.header.Counts (s.holdersAfter i c)) : Serialized s

theorem serialized_new : Serialized (FileLock.new ι) :=
  .quiet (fun _ => rfl) rfl ⟨rfl, rfl, .inl rfl⟩

theorem Serialized.counts (h : Serialized s) : ∃ hdr : FileLockHeader, hdr.Counts s.holders := by
  cases h with
  | quiet _ _ hCounts => exact ⟨_, hCounts⟩
  | tested _ _ _ _ _ _ hCounts => exact ⟨_, hCounts⟩
  | protecting _ _ _ _ _ _ hCounts => exact ⟨_, hCounts⟩
  | changed _ _ old _ _ _ hCounts => exact ⟨old, hCounts⟩

theorem call_protected (hRev : rev.hasFileLock = true) (hProtect : s.header.fileLockProtect ≠ 0) :
    (s.call i rev c).2 = s := by
  rw [call]
  cases s.phase i with
  | idle =>
    simp only [hRev, if_true]
    rw [LockCall.test, if_pos hProtect]
  | tested | protecting | changed => rfl

theorem call_cases (hRev : rev.hasFileLock = true) (hIdle : s.phase i = .idle)
    (hCounts : s.header.Counts s.holders) :
    (s.call i rev c).2 = s ∨ ∃ new, c.test s.header = .ok (some new) ∧
      (s.call i rev c).2 = s.setPhase i (.tested c new) := by
  rw [call, hIdle]
  simp only [hRev, if_true]
  cases hTest : c.test s.header with
  | error e => exact .inl rfl
  | ok r =>
    cases r with
    | none => exact .inl (returned_of_change (LockCall.test_ok hTest).2 hCounts hIdle)
    | some new => exact .inr ⟨new, rfl, rfl⟩

theorem Serialized.call (hRev : rev.hasFileLock = true) (h : Serialized s)
    (hSerial : (LockEvent.call i c).Serial s) : Serialized (s.call i rev c).2 := by
  cases h with
  | quiet hIdle hProtect hCounts =>
    obtain hSame | ⟨new, hTest, hNext⟩ := call_cases (c := c) hRev (hIdle i) hCounts
    · rw [hSame]
      exact .quiet hIdle hProtect hCounts
    · have hPasses : c.Passes s.header = true := by rw [LockCall.Passes, hTest]
      obtain ⟨-, hOwned⟩ := hSerial (hIdle i) hPasses
      rw [hNext]
      refine .tested i c new ?_ (Function.update_self _ _ _) hProtect hCounts ?_
      · exact fun j hj => (Function.update_of_ne hj _ _).trans (hIdle j)
      · exact counts_store (LockCall.test_ok hTest).2 hCounts hOwned
  | tested k d old hAlone hPhase hProtect hCounts hAfter =>
    have hSame : (s.call i rev c).2 = s := by
      by_cases hi : i = k
      · rw [hi, FileLock.call, hPhase]
      · obtain hSame | ⟨new, hTest, -⟩ := call_cases (c := c) hRev (hAlone i hi) hCounts
        · exact hSame
        · have hPasses : c.Passes s.header = true := by rw [LockCall.Passes, hTest]
          have hTesting := (hSerial (hAlone i hi) hPasses).1 k
          rw [hPhase] at hTesting
          cases hTesting
    rw [hSame]
    exact .tested k d old hAlone hPhase hProtect hCounts hAfter
  | protecting k d old hAlone hPhase hProtect hCounts hAfter =>
    rw [call_protected hRev hProtect]
    exact .protecting k d old hAlone hPhase hProtect hCounts hAfter
  | changed k d old hAlone hPhase hProtect hCounts hAfter =>
    rw [call_protected hRev hProtect]
    exact .changed k d old hAlone hPhase hProtect hCounts hAfter

theorem next_idle (hIdle : s.phase i = .idle) : (s.next i).2 = s := by rw [next, hIdle]

theorem Serialized.next (h : Serialized s) (i : ι) : Serialized (s.next i).2 := by
  cases h with
  | quiet hIdle hProtect hCounts =>
    rw [next_idle (hIdle i)]
    exact .quiet hIdle hProtect hCounts
  | tested k d new hAlone hPhase hProtect hCounts hAfter =>
    by_cases hi : i = k
    · rw [hi, FileLock.next, hPhase]
      refine .protecting k d new ?_ (Function.update_self _ _ _) Nat.one_ne_zero
        (hCounts.protect 1) ?_
      · exact fun j hj => (Function.update_of_ne hj _ _).trans (hAlone j hj)
      · exact d.store_protect 1 ▸ hAfter.protect 1
    · rw [next_idle (hAlone i hi)]
      exact .tested k d new hAlone hPhase hProtect hCounts hAfter
  | protecting k d new hAlone hPhase hProtect hCounts hAfter =>
    by_cases hi : i = k
    · rw [hi, FileLock.next, hPhase]
      refine .changed k d s.header ?_ (Function.update_self _ _ _) ?_ hCounts hAfter
      · exact fun j hj => (Function.update_of_ne hj _ _).trans (hAlone j hj)
      · exact (LockCall.store_fileLockProtect d).trans_ne hProtect
    · rw [next_idle (hAlone i hi)]
      exact .protecting k d new hAlone hPhase hProtect hCounts hAfter
  | changed k d old hAlone hPhase hProtect hCounts hAfter =>
    by_cases hi : i = k
    · rw [hi, FileLock.next, hPhase]
      refine .quiet ?_ rfl (hAfter.protect 0)
      intro j
      by_cases hj : j = k
      · rw [hj]
        exact Function.update_self _ _ _
      · exact (Function.update_of_ne hj _ _).trans (hAlone j hj)
    · rw [next_idle (hAlone i hi)]
      exact .changed k d old hAlone hPhase hProtect hCounts hAfter

end FileLock

/-- What the lock is for: a writer is alone, and the header counts the readers. -/
structure FileLock.Exclusive (s : FileLock ι) : Prop where
  writer : ∀ i j, i ∈ s.holders .write → j ∈ s.holders .write → i = j
  readers : ∀ i j, i ∈ s.holders .write → j ∉ s.holders .read
  readLock : (∀ i, s.phase i = .idle) → s.header.fileReadLock = (s.holders .read).card

theorem FileLock.Serialized.exclusive {s : FileLock ι} (h : Serialized s) : s.Exclusive := by
  obtain ⟨hdr, hRead, hWrite, hExclusive⟩ := h.counts
  have hOne : (s.holders .write).card ≤ 1 := by omega
  refine ⟨fun i j hi hj => Finset.card_le_one.mp hOne i hi j hj, ?_, ?_⟩
  · intro i j hi hj
    have hWriters := Finset.card_pos.mpr ⟨i, hi⟩
    have hReaders := Finset.card_pos.mpr ⟨j, hj⟩
    omega
  · intro hIdle
    cases h with
    | quiet _ _ hCounts => exact hCounts.read
    | tested i _ _ _ hPhase | protecting i _ _ _ hPhase | changed i _ _ _ hPhase =>
      rw [hIdle i] at hPhase
      cases hPhase

end DataReel
