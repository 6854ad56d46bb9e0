import DataReel.Database.Contents
import DataReel.Database.FileLock

/-! # Record locks

Blocks of revisions C and D have a lock header behind their block header.
`LockRecord` and `UnlockRecord` read it, test it and write back the protect word,
one lock word and the protect word again. Called with `gxCurrAddress` they take
the file position behind what they have read for the address of the block.
-/

namespace DataReel

/-- `gxRecordLockHeader` -/
structure RecordLockHeader where
  recordLockProtect : Nat
  recordReadLock : Nat
  recordWriteLock : Nat
  deriving DecidableEq, Repr

def RecordLockHeader.ofWords (l : List Nat) : RecordLockHeader :=
  ⟨l.getD 0 0, l.getD 1 0, l.getD 2 0⟩

inductive RecordLockCall
  | lockRecord (l : DatabaseLockType)
  | unlockRecord (l : DatabaseLockType)
  deriving DecidableEq, Repr

namespace RecordLockCall

def lockType : RecordLockCall → DatabaseLockType
  | lockRecord l | unlockRecord l => l

/-- The `switch` of a call on its lock type: an error, 0 at once, or the header to write back. -/
def change (hdr : RecordLockHeader) : RecordLockCall → Except DatabaseError (Option RecordLockHeader)
  | lockRecord .write =>
    if hdr.recordReadLock ≠ 0 then .error .recordlockError
    else if hdr.recordWriteLock = 0 then .ok (some { hdr with recordWriteLock := 1 })
    else .error .recordlockError
  | lockRecord .read =>
    if hdr.recordWriteLock = 1 then .error .recordlockError
    else if hdr.recordReadLock < 0xFFFFFFFF then
      .ok (some { hdr with recordReadLock := hdr.recordReadLock + 1 })
    else .error .recordlockError
  | unlockRecord .write =>
    if hdr.recordWriteLock = 0 then .ok none else .ok (some { hdr with recordWriteLock := 0 })
  | unlockRecord .read =>
    if hdr.recordReadLock = 0 then .ok none
    else .ok (some { hdr with recordReadLock := hdr.recordReadLock - 1 })

/-- What a call does with the header it has read. -/
def test (hdr : RecordLockHeader) (c : RecordLockCall) :
    Except DatabaseError (Option RecordLockHeader) :=
  if hdr.recordLockProtect ≠ 0 then .error .recordlockAccessError else c.change hdr

/-- The call goes on to write. -/
def Writes (hdr : RecordLockHeader) (c : RecordLockCall) : Bool :=
  match c.test hdr with
  | .ok (some _) => true
  | _ => false

/-- What a call is to return, and the lock header that it is to leave. -/
def outcome (hdr : RecordLockHeader) (c : RecordLockCall) : Except DatabaseError Unit × RecordLockHeader :=
  match c.test hdr with
  | .error e => (.error e, hdr)
  | .ok none => (.ok (), hdr)
  | .ok (some new) => (.ok (), new)

variable {hdr new : RecordLockHeader} {c : RecordLockCall}

theorem test_some (hTest : c.test hdr = .ok (some new)) (hFits : hdr.recordReadLock < 2 ^ 64) :
    hdr.recordLockProtect = 0 ∧ new.recordLockProtect = 0 ∧
      match c.lockType with
      | .read => new.recordReadLock ≠ hdr.recordReadLock ∧ new.recordWriteLock = hdr.recordWriteLock ∧
          new.recordReadLock < 2 ^ 64
      | .write => new.recordWriteLock ≠ hdr.recordWriteLock ∧ new.recordReadLock = hdr.recordReadLock ∧
          new.recordWriteLock < 2 ^ 64 := by
  rw [test] at hTest
  split at hTest
  · cases hTest
  · rename_i hProtect
    have hZero : hdr.recordLockProtect = 0 := not_not.mp hProtect
    refine ⟨hZero, ?_⟩
    cases c with
    | lockRecord l =>
      cases l with
      | read =>
        rw [change] at hTest
        split at hTest
        · cases hTest
        · split at hTest
          · cases hTest
            refine ⟨hZero, ?_, rfl, ?_⟩ <;> dsimp only <;> omega
          · cases hTest
      | write =>
        rw [change] at hTest
        split at hTest
        · cases hTest
        · split at hTest
          · cases hTest
            refine ⟨hZero, ?_, rfl, ?_⟩ <;> dsimp only <;> omega
          · cases hTest
    | unlockRecord l =>
      cases l with
      | read =>
        rw [change] at hTest
        split at hTest
        · cases hTest
        · cases hTest
          refine ⟨hZero, ?_, rfl, ?_⟩ <;> dsimp only <;> omega
      | write =>
        rw [change] at hTest
        split at hTest
        · cases hTest
        · cases hTest
          refine ⟨hZero, ?_, rfl, ?_⟩ <;> dsimp only <;> omega

theorem outcome_ne (hWrites : c.Writes hdr = true) (hFits : hdr.recordReadLock < 2 ^ 64) :
    (c.outcome hdr).2 ≠ hdr := by
  rw [Writes] at hWrites
  split at hWrites
  · rename_i new hTest
    have hNew := (test_some hTest hFits).2.2
    rw [outcome, hTest]
    intro hSame
    have hSame : new = hdr := hSame
    subst hSame
    cases hType : c.lockType with
    | read =>
      rw [hType] at hNew
      exact hNew.1 rfl
    | write =>
      rw [hType] at hNew
      exact hNew.1 rfl
  · cases hWrites

end RecordLockCall

namespace Database

variable (d : Database)

def readRecordLockHdr (position blockAddress : Int) : Except DatabaseError RecordLockHeader :=
  if d.rev.hasRecordLock then
    match d.readAt (readPosition position blockAddress) with
    | none => .error .fileReadError
    | some hdr =>
      if hdr.test then
        let position := readPosition position blockAddress + sizeOfBlockHeader
        if position + sizeOfRecordLockHeader ≤ d.fileSize then
          .ok (.ofWords (d.file.readWords position 3))
        else .error .fileReadError
      else .error .syncError
  else .ok ⟨0, 0, 0⟩

def writeRecordLock (c : RecordLockCall) (headerAddress : Int) (new : RecordLockHeader) : Database :=
  let d := d.writeWords headerAddress [1]
  let d := match c.lockType with
    | .read => d.writeWords (headerAddress + 8) [new.recordReadLock]
    | .write => d.writeWords (seekTo (headerAddress + 8) (headerAddress + 8 * 2)) [new.recordWriteLock]
  d.writeWords headerAddress [0]

/-- `LockRecord` and `UnlockRecord`. -/
def recordLockCall (c : RecordLockCall) (position blockAddress : Int) :
    Except DatabaseError Unit × Database :=
  if d.rev.hasRecordLock then
    match d.readRecordLockHdr position blockAddress with
    | .error e => (.error e, d)
    | .ok hdr =>
      match c.test hdr with
      | .error e => (.error e, d)
      | .ok none => (.ok (), d)
      | .ok (some new) =>
        -- `FilePosition()` is behind the two headers that have been read.
        let blockAddress := if blockAddress = gxCurrAddress then
          position + sizeOfBlockHeader + sizeOfRecordLockHeader else blockAddress
        (.ok (), d.writeRecordLock c (blockAddress + sizeOfBlockHeader) new)
  else (.ok (), d)

def lockRecord (l : DatabaseLockType) (position blockAddress : Int) : Except DatabaseError Unit × Database :=
  d.recordLockCall (.lockRecord l) position blockAddress

def unlockRecord (l : DatabaseLockType) (position blockAddress : Int) :
    Except DatabaseError Unit × Database :=
  d.recordLockCall (.unlockRecord l) position blockAddress

def recordLock (a : Int) : RecordLockHeader := .ofWords (d.file.readWords (a + sizeOfBlockHeader) 3)

/-- A call has locked or unlocked the block at an address: the words of its lock header are as the call
is to leave them, and the file is as before elsewhere. -/
structure Locked (d : Database) (a : Int) (c : RecordLockCall) (r : Except DatabaseError Unit × Database) :
    Prop where
  reply : r.1 = (c.outcome (d.recordLock a)).1
  lock : r.2.recordLock a = (c.outcome (d.recordLock a)).2
  file : ∀ x, x < a + sizeOfBlockHeader ∨ a + sizeOfBlockHeader + sizeOfRecordLockHeader ≤ x →
    r.2.file x = d.file x
  fileSize : r.2.fileSize = d.fileSize
  rev : r.2.rev = d.rev
  fileHeader : r.2.fileHeader = d.fileHeader

variable {d} {blocks : List (Int × BlockHeader)} {free : List Int} {b : Int × BlockHeader} {a : Int}
  {c : RecordLockCall} {new : RecordLockHeader} {position : Int}

/-! ## Writes -/

theorem writeRecordLock_file (h : 0 ≤ a) {x : Int} (hx : x < a ∨ a + sizeOfRecordLockHeader ≤ x) :
    (d.writeRecordLock c a new).file x = d.file x := by
  rw [sizeOfRecordLockHeader] at hx
  rw [writeRecordLock]
  cases c.lockType with
  | read =>
    dsimp only [writeWords, Bytes.writeWords]
    rw [Bytes.write_outside (by omega), Bytes.write_outside (by omega), Bytes.write_outside (by omega)]
  | write =>
    dsimp only [writeWords, Bytes.writeWords]
    rw [seekTo, if_neg (by omega), Bytes.write_outside (by omega), Bytes.write_outside (by omega),
      Bytes.write_outside (by omega)]

theorem writeRecordLock_fileSize (h : 0 ≤ a) (hSize : a + sizeOfRecordLockHeader ≤ d.fileSize) :
    (d.writeRecordLock c a new).fileSize = d.fileSize := by
  rw [sizeOfRecordLockHeader] at hSize
  rw [writeRecordLock]
  cases c.lockType with
  | read =>
    dsimp only [writeWords, List.length_singleton]
    omega
  | write =>
    dsimp only [writeWords, List.length_singleton]
    rw [seekTo, if_neg (by omega)]
    omega

theorem writeRecordLock_same : (d.writeRecordLock c a new).rev = d.rev ∧
    (d.writeRecordLock c a new).fileHeader = d.fileHeader := by
  rw [writeRecordLock]
  cases c.lockType <;> exact ⟨rfl, rfl⟩

theorem recordLock_eq (d : Database) (a : Int) :
    d.recordLock a = ⟨d.file.read (a + sizeOfBlockHeader) 8, d.file.read (a + sizeOfBlockHeader + 8) 8,
      d.file.read (a + sizeOfBlockHeader + 8 + 8) 8⟩ := rfl

theorem recordLock_readLock_lt (d : Database) (a : Int) : (d.recordLock a).recordReadLock < 2 ^ 64 :=
  Bytes.read_lt

theorem writeRecordLock_lock (hPos : 0 ≤ a) (hTest : c.test (d.recordLock a) = .ok (some new)) :
    (d.writeRecordLock c (a + sizeOfBlockHeader) new).recordLock a = new := by
  obtain ⟨-, hProtect, hWords⟩ := RecordLockCall.test_some hTest (d.recordLock_readLock_lt a)
  obtain ⟨protect, read, write⟩ := new
  obtain rfl : protect = 0 := hProtect
  rw [recordLock_eq, writeRecordLock]
  cases hType : c.lockType with
  | read =>
    rw [hType] at hWords
    obtain ⟨-, hWrite, hFits⟩ := hWords
    obtain rfl : (d.recordLock a).recordWriteLock = write := hWrite.symm
    dsimp only [writeWords, Bytes.writeWords] at hFits ⊢
    rw [Bytes.read_write_self (by decide), Bytes.read_write_apart (by omega), Bytes.read_write_self hFits,
      Bytes.read_write_apart (by omega), Bytes.read_write_apart (by omega),
      Bytes.read_write_apart (by omega)]
    rfl
  | write =>
    rw [hType] at hWords
    obtain ⟨-, hRead, hFits⟩ := hWords
    obtain rfl : (d.recordLock a).recordReadLock = read := hRead.symm
    dsimp only [writeWords, Bytes.writeWords] at hFits ⊢
    rw [seekTo, if_neg (by omega), show a + (sizeOfBlockHeader : Int) + 8 * 2 =
      a + sizeOfBlockHeader + 8 + 8 by omega, Bytes.read_write_self (by decide),
      Bytes.read_write_apart (by omega), Bytes.read_write_apart (by omega),
      Bytes.read_write_apart (by omega), Bytes.read_write_apart (by omega), Bytes.read_write_self hFits]
    rfl

/-! ## Blocks -/

/-- A block is named by its address, or by the file position. -/
def Names (position blockAddress a : Int) : Prop :=
  blockAddress = a ∨ blockAddress = gxCurrAddress ∧ position = a

theorem Names.readPosition_eq {blockAddress : Int} (h : Names position blockAddress a) (hPos : 0 < a) :
    readPosition position blockAddress = a := by
  rcases h with rfl | ⟨rfl, rfl⟩
  · exact readPosition_pos position hPos
  · rw [readPosition, if_pos rfl]

theorem recordLock_room (hRev : d.rev.hasRecordLock = true) (h : d.Holds blocks free) (hb : b ∈ blocks) :
    sizeOfBlockHeader + sizeOfRecordLockHeader ≤ b.2.blockLength := by
  have hRoom := (h.header_le hb).2
  have hSize : d.rev.blockHeaderSize = sizeOfBlockHeader + sizeOfRecordLockHeader := by
    cases hCase : d.rev <;> rw [hCase] at hRev <;> first | rfl | cases hRev
  omega

theorem Holds.readRecordLockHdr_eq (h : d.Holds blocks free) (hRev : d.rev.hasRecordLock = true) (hb : b ∈ blocks)
    {blockAddress : Int} (hNames : Names position blockAddress b.1) :
    d.readRecordLockHdr position blockAddress = .ok (d.recordLock b.1) := by
  have hBounds := h.bounds hb
  have hRoom := recordLock_room hRev h hb
  rw [readRecordLockHdr, if_pos hRev, hNames.readPosition_eq hBounds.1, h.stored b hb]
  dsimp only
  rw [if_pos (h.sound b hb).test, if_pos (by omega)]
  rfl

theorem Intact.of_inside {d' : Database} (h : d.Intact blocks free) (hb : b ∈ blocks)
    (hFile : ∀ x, x < b.1 + sizeOfBlockHeader ∨ b.1 + b.2.blockLength ≤ x → d'.file x = d.file x)
    (hSize : d'.fileSize = d.fileSize) (hRev : d'.rev = d.rev) (hHeader : d'.fileHeader = d.fileHeader) :
    d'.Intact blocks free := by
  have hBounds := h.holds.bounds hb
  have hLe := d.rev.sizeOfFileHeader_le
  have hTouches : Touches [(b.1 + sizeOfBlockHeader, b.2.blockLength - sizeOfBlockHeader)] d d' := by
    refine ⟨fun x _ hApart => hFile x ?_, hSize, hRev⟩
    have hPlace := hApart _ List.mem_cons_self
    have hRoom := (h.holds.header_le hb).1
    dsimp only at hPlace
    omega
  have hDisk : d'.diskHeader = d.diskHeader := diskHeader_congr fun x _ hx => hFile x (.inl (by omega))
  refine ⟨h.holds.of_touches hTouches hHeader fun c hc p hp => ?_, ?_, ?_, ?_, ?_, ?_, fun hNil => ?_⟩
  · obtain rfl := List.mem_singleton.mp hp
    dsimp only
    by_cases hSame : c.1 = b.1
    · exact .inl (by omega)
    · have hApart := h.holds.tiles.apart_of_ne hc hb hSame
      have hRoom := (h.holds.header_le hc).1
      have hRoom' := (h.holds.header_le hb).1
      omega
  · rw [hHeader, hRev]
    exact h.sig
  · rw [hDisk, hHeader]
    exact h.diskFsFptr
  · rw [hDisk, hHeader]
    exact h.diskEof
  · rw [hDisk, hHeader]
    exact h.diskHsFptr
  · rw [hDisk, hHeader]
    exact h.diskSig
  · rw [hDisk, hHeader]
    exact h.highest hNil

/-- A call on a block that is named by its address locks or unlocks it, and so does a call that has
nothing to write. -/
theorem Intact.locked (h : d.Intact blocks free) (hRev : d.rev.hasRecordLock = true) (hb : b ∈ blocks)
    {blockAddress : Int} (hNames : Names position blockAddress b.1)
    (hOwn : blockAddress = b.1 ∨ c.Writes (d.recordLock b.1) = false) :
    d.Locked b.1 c (d.recordLockCall c position blockAddress) := by
  have hBounds := h.holds.bounds hb
  have hRoom := recordLock_room hRev h.holds hb
  rw [recordLockCall, if_pos hRev, h.holds.readRecordLockHdr_eq hRev hb hNames]
  dsimp only
  cases hTest : c.test (d.recordLock b.1) with
  | error e =>
    exact ⟨by rw [RecordLockCall.outcome, hTest], by rw [RecordLockCall.outcome, hTest], fun _ _ => rfl, rfl,
      rfl, rfl⟩
  | ok r =>
    cases r with
    | none =>
      exact ⟨by rw [RecordLockCall.outcome, hTest], by rw [RecordLockCall.outcome, hTest], fun _ _ => rfl,
        rfl, rfl, rfl⟩
    | some new =>
      have hAddress : blockAddress = b.1 := hOwn.resolve_right fun hNone => by
        rw [RecordLockCall.Writes, hTest] at hNone
        cases hNone
      subst hAddress
      dsimp only
      rw [if_neg (by rw [gxCurrAddress]; omega)]
      refine ⟨by rw [RecordLockCall.outcome, hTest], ?_, fun x hx => writeRecordLock_file (by omega) hx, ?_,
        writeRecordLock_same.1, writeRecordLock_same.2⟩
      · rw [RecordLockCall.outcome, hTest]
        exact writeRecordLock_lock (by omega) hTest
      · exact writeRecordLock_fileSize (by omega) (by omega)

/-- A call by the file position that writes leaves the lock header of the block as it was. -/
theorem Intact.not_locked (h : d.Intact blocks free) (hRev : d.rev.hasRecordLock = true) (hb : b ∈ blocks)
    (hWrites : c.Writes (d.recordLock b.1) = true) :
    ¬ d.Locked b.1 c (d.recordLockCall c b.1 gxCurrAddress) := by
  intro hLocked
  have hBounds := h.holds.bounds hb
  have hLock := hLocked.lock
  refine RecordLockCall.outcome_ne hWrites (d.recordLock_readLock_lt b.1) (hLock.symm.trans ?_)
  rw [recordLockCall, if_pos hRev, h.holds.readRecordLockHdr_eq hRev hb (.inr ⟨rfl, rfl⟩)]
  dsimp only
  cases hTest : c.test (d.recordLock b.1) with
  | error e => rfl
  | ok r =>
    cases r with
    | none => rfl
    | some new =>
      dsimp only
      rw [if_pos rfl]
      refine congrArg RecordLockHeader.ofWords (Bytes.readWords_congr fun x hx hx' => ?_)
      refine writeRecordLock_file (by omega) (.inl ?_)
      rw [sizeOfRecordLockHeader]
      omega

end Database

/-! ## Histories -/

/-- A call on the heap, a write, or a call on the lock of a block. -/
inductive RecordCall
  | file (c : FileCall)
  | lock (c : RecordLockCall) (blockAddress : Int)

inductive RecordReply
  | heap (r : HeapReply)
  | lock (r : Except DatabaseError Unit)

namespace Database

def recordCalls : Machine (Int × RecordCall) RecordReply Database where
  step c d :=
    match c.2 with
    | .file call => (.heap (fileCalls.step (c.1, call) d).1, (fileCalls.step (c.1, call) d).2)
    | .lock call a => (.lock (d.recordLockCall call c.1 a).1, (d.recordLockCall call c.1 a).2)

end Database

open Database

/-- Calls on a lock find a block at their address if they find one, and those that write name it by its
address. -/
def RecordCall.Proper (c : Int × RecordCall) (d : Database) : Prop :=
  match c.2 with
  | .file call => FileCall.Proper (c.1, call) d
  | .lock call a => ∀ hdr ∈ d.readBlockHdr c.1 a, readPosition c.1 a ∈ d.blocks.map Prod.fst ∧
      (a = gxCurrAddress → call.Writes (d.recordLock c.1) = false)

instance (d : Database) : ∀ c, Decidable (RecordCall.Proper c d)
  | (position, .file call) => inferInstanceAs (Decidable (FileCall.Proper (position, call) d))
  | (position, .lock call a) =>
    inferInstanceAs (Decidable (∀ hdr ∈ d.readBlockHdr position a,
      readPosition position a ∈ d.blocks.map Prod.fst ∧
        (a = gxCurrAddress → call.Writes (d.recordLock position) = false)))

namespace Database

variable {d : Database} {blocks : List (Int × BlockHeader)} {free : List Int} {b : Int × BlockHeader} {a : Int}
  {c : RecordLockCall} {position : Int}

theorem recordLockCall_refused (hNone : d.readBlockHdr position a = none) :
    (d.recordLockCall c position a).2 = d := by
  rw [recordLockCall, readRecordLockHdr]
  split
  · cases hRead : d.readAt (readPosition position a) with
    | none => rfl
    | some hdr =>
      rw [readBlockHdr, hRead, Option.filter_some] at hNone
      split at hNone
      · cases hNone
      · dsimp only
        rw [if_neg ‹_›]
  · rfl

theorem Intact.record_step (h : d.Intact blocks free) (hRev : d.rev.hasRecordLock = true)
    {c : Int × RecordCall} (hProper : RecordCall.Proper c d) :
    (∃ blocks' free', (recordCalls.step c d).2.Intact blocks' free') ∧ (recordCalls.step c d).2.rev = d.rev := by
  obtain ⟨position, call⟩ := c
  cases call with
  | file call => exact ⟨h.step hProper, fileCalls_rev h hProper⟩
  | lock call a =>
    change (∃ blocks' free', (d.recordLockCall call position a).2.Intact blocks' free') ∧
      (d.recordLockCall call position a).2.rev = d.rev
    cases hHeader : d.readBlockHdr position a with
    | none =>
      rw [recordLockCall_refused hHeader]
      exact ⟨⟨_, _, h⟩, rfl⟩
    | some hdr =>
      obtain ⟨hMem, hQuiet⟩ := hProper hdr hHeader
      rw [h.holds.blocks_eq] at hMem
      obtain ⟨b, hb, hAt⟩ := List.mem_map.mp hMem
      have hLocked : d.Locked b.1 call (d.recordLockCall call position a) := by
        rw [readPosition] at hAt
        split at hAt
        · rename_i hCurr
          exact h.locked hRev hb (.inr ⟨hCurr, hAt.symm⟩) (.inr (hAt ▸ hQuiet hCurr))
        · exact h.locked hRev hb (.inl hAt.symm) (.inl hAt.symm)
      have hRoom := recordLock_room hRev h.holds hb
      exact ⟨⟨_, _, h.of_inside hb (fun x hx => hLocked.file x (by omega)) hLocked.fileSize hLocked.rev
        hLocked.fileHeader⟩, hLocked.rev⟩

/-- After any history of a new file, a call on the lock of a block locks or unlocks it exactly if it names
the block by its address or has nothing to write. -/
theorem recordCalls_locked_iff (rev : Revision) (hRev : rev.hasRecordLock = true) {staticSize : Nat}
    (hStatic : staticSize + rev.fileHeaderSize < 2 ^ 63) {calls : List (Int × RecordCall)}
    (hCalls : recordCalls.Along RecordCall.Proper calls (create rev staticSize)) :
    ∃ d, d = (recordCalls.run calls (create rev staticSize)).2 ∧
      ∀ b ∈ d.blocks, ∀ c position blockAddress, Names position blockAddress b.1 →
        (d.Locked b.1 c (d.recordLockCall c position blockAddress) ↔
          blockAddress = b.1 ∨ c.Writes (d.recordLock b.1) = false) := by
  obtain ⟨⟨blocks, free, h⟩, hSame⟩ := Machine.run_invariant (M := recordCalls) (P := RecordCall.Proper)
    (I := fun d => (∃ blocks free, d.Intact blocks free) ∧ d.rev = rev)
    (fun c d hI hProper => by
      obtain ⟨⟨blocks, free, h⟩, hSame⟩ := hI
      obtain ⟨hNext, hNextRev⟩ := h.record_step (hSame.symm ▸ hRev) hProper
      exact ⟨hNext, hNextRev.trans hSame⟩)
    ⟨⟨[], [], create_intact rev hStatic⟩, create_rev rev staticSize⟩ hCalls
  refine ⟨_, rfl, ?_⟩
  generalize (recordCalls.run calls (create rev staticSize)).2 = d at h hSame
  have hLocks : d.rev.hasRecordLock = true := hSame.symm ▸ hRev
  intro b hb c position blockAddress hNames
  rw [h.holds.blocks_eq] at hb
  constructor
  · intro hLocked
    rcases hNames with hAddress | ⟨rfl, rfl⟩
    · exact .inl hAddress
    · refine .inr (Bool.eq_false_iff.mpr fun hWrites => ?_)
      exact h.not_locked hLocks hb hWrites hLocked
  · exact h.locked hLocks hb hNames

/-- A block is locked by its address and another call by the file position is refused. -/
theorem recordCalls_locked_iff_C :
    ∃ d, d = (recordCalls.run [(0, .file (.heap (.alloc 8 .none))), (0, .file (.heap (.alloc 8 .none))),
        (0, .lock (.lockRecord .write) 80), (80, .lock (.lockRecord .read) (-1))] (create .C 0)).2 ∧
      ∀ b ∈ d.blocks, ∀ c position blockAddress, Names position blockAddress b.1 →
        (d.Locked b.1 c (d.recordLockCall c position blockAddress) ↔
          blockAddress = b.1 ∨ c.Writes (d.recordLock b.1) = false) :=
  recordCalls_locked_iff .C (by decide) (by decide) (by decide +kernel)

/-- A lock by the file position is written into the object. -/
theorem lockRecord_current_C :
    let d := (recordCalls.run [(0, .file (.heap (.alloc 56 .none)))] (create .C 0)).2
    d.blocks.map Prod.fst = [80] ∧ (d.lockRecord .write 80 gxCurrAddress).1 = .ok () ∧
      (d.lockRecord .write 80 gxCurrAddress).2.recordLock 80 = ⟨0, 0, 0⟩ ∧
      d.file.get 136 56 = List.replicate 56 0 ∧
      (d.lockRecord .write 80 gxCurrAddress).2.file.get 136 56 =
        List.replicate 48 0 ++ 1 :: List.replicate 7 0 := by
  decide +kernel

end Database

end DataReel
